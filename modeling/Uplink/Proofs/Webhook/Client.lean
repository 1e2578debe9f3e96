import Uplink.Proofs.Webhook.Checking

namespace Uplink.Webhook

open Notification Url

variable {c : Client} {s : Settings} {f : String × String} {l : List (String × String)}
  {room : Nat} {taken : List String}

/-- Behind proper fields stands one more that a table made for `room` of them does not take. -/
def Crowded (c : Client) (room : Nat) (taken : List String) (l : List (String × String)) : Prop :=
  ∃ before f after, l = before ++ f :: after ∧ (∀ g ∈ before, Proper g) ∧ Proper f ∧
    c.takes room (taken ++ before.map fun g => lowered g.1) (lowered f.1) = false

/-- The client has no room for the header fields: it makes no table for so many, or the table does
not take one of them. -/
inductive BreaksOff (c : Client) (s : Settings) : Prop where
  | unopened (refused : c.opens s.headers.length = false) : BreaksOff c s
  | crowded (refused : Crowded c s.headers.length [] s.headers) : BreaksOff c s

theorem not_crowded_of_not_proper (hf : ¬Proper f) : ¬Crowded c room taken (f :: l) := by
  intro h
  obtain ⟨before, g, after, hl, hb, hg, -⟩ := h
  cases before with
  | nil =>
    cases hl
    exact hf hg
  | cons b before =>
    cases hl
    exact hf (hb f List.mem_cons_self)

theorem crowded_cons_of_taken (hf : Proper f) (ht : c.takes room taken (lowered f.1) = true) :
    Crowded c room taken (f :: l) ↔ Crowded c room (taken ++ [lowered f.1]) l := by
  constructor
  · intro h
    obtain ⟨before, g, after, hl, hb, hg, hr⟩ := h
    cases before with
    | nil =>
      cases hl
      rw [List.map_nil, List.append_nil, ht] at hr
      cases hr
    | cons b before =>
      cases hl
      refine ⟨before, g, after, rfl, (List.forall_mem_cons.mp hb).2, hg, ?_⟩
      rwa [List.append_assoc, List.singleton_append]
  · intro h
    obtain ⟨before, g, after, rfl, hb, hg, hr⟩ := h
    refine ⟨f :: before, g, after, rfl, List.forall_mem_cons.mpr ⟨hf, hb⟩, hg, ?_⟩
    rwa [List.append_assoc, List.singleton_append] at hr

/-- The fields are checked as they are without a table, or the table does not take one of them. -/
theorem keepFields_cases (c : Client) (room : Nat) (taken : List String) (done : Headers)
    (l : List (String × String)) :
    (c.keepFields room taken done l = none ∧ Crowded c room taken l) ∨
      (c.keepFields room taken done l = some (Endpoints.checkHeaders done l) ∧
        ¬Crowded c room taken l) := by
  induction l generalizing taken done with
  | nil =>
    refine .inr ⟨rfl, ?_⟩
    intro h
    obtain ⟨before, f, after, hl, -⟩ := h
    exact absurd hl (by simp)
  | cons f l ih =>
    obtain ⟨name, value⟩ := f
    rw [Client.keepFields, Endpoints.checkHeaders]
    cases hn : headerName? name with
    | none =>
      refine .inr ⟨rfl, not_crowded_of_not_proper ?_⟩
      intro hp
      have := hp.name
      rw [hn] at this
      cases this
    | some lower =>
      obtain rfl := lowered_of_headerName? hn
      by_cases hv : isHeaderValue value = true
      · have hp : Proper (name, value) := ⟨by rw [hn]; rfl, hv⟩
        simp only [if_pos hv]
        by_cases ht : c.takes room taken (lowered name) = true
        · rw [if_pos ht, crowded_cons_of_taken hp ht]
          exact ih _ _
        · rw [if_neg ht]
          refine .inl ⟨rfl, [], (name, value), l, rfl, List.forall_mem_nil _, hp, ?_⟩
          rw [List.map_nil, List.append_nil]
          exact Bool.eq_false_iff.mpr ht
      · dsimp only
        rw [if_neg hv, if_neg hv]
        refine .inr ⟨rfl, not_crowded_of_not_proper ?_⟩
        intro hp
        exact hv hp.value

/-- Settings are judged as if there were room for any, or the program breaks off. -/
theorem endpoints?_cases (c : Client) (s : Settings) :
    (c.endpoints? s = none ∧ BreaksOff c s) ∨
      (c.endpoints? s = some (Endpoints.judge c.parse s) ∧ ¬BreaksOff c s) := by
  rw [Client.endpoints?]
  by_cases ho : c.opens s.headers.length = true
  · rw [if_pos ho]
    obtain ⟨hk, hc⟩ | ⟨hk, hc⟩ := keepFields_cases c s.headers.length [] [] s.headers
    · rw [hk]
      exact .inl ⟨rfl, .crowded hc⟩
    · rw [hk]
      refine .inr ⟨rfl, ?_⟩
      intro h
      cases h with
      | unopened refused => exact absurd (ho.symm.trans refused) nofun
      | crowded refused => exact hc refused
  · rw [if_neg ho]
    exact .inl ⟨rfl, .unopened (Bool.eq_false_iff.mpr ho)⟩

/-- The usual client has room for 24576 fields. -/
theorem breaksOff_usual_iff : BreaksOff .usual s ↔ 24576 < s.headers.length := by
  have hopens : Client.usual.opens s.headers.length = false ↔ 24576 < s.headers.length := by
    change decide (s.headers.length + s.headers.length / 3 ≤ 32768) = false ↔ _
    rw [decide_eq_false_iff_not]
    omega
  rw [← hopens]
  constructor
  · intro h
    cases h with
    | unopened refused => exact refused
    | crowded refused =>
      obtain ⟨before, f, after, -, -, -, hr⟩ := refused
      cases hr
  · exact .unopened

end Uplink.Webhook
