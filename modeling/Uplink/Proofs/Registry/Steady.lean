import Uplink.Proofs.Registry.Shutdown
import Uplink.Proofs.Registry.SingleFlight

namespace Uplink.Registry

open Integration Store Time

variable {r : Registry} {a : Int64} {k n : Nat} {e : Entry} {s : Step} {own : List Nat}
  {lookup settled : Int64 → Lookup} {result : Resolved} {steps : List Step}
  {ttl : Option Duration}

/-- An entry is as things are settled for its application. -/
def Found (settled : Int64 → Lookup) (a : Int64) (e : Entry) : Prop :=
  ∃ rows, settled a = .ok rows ∧ BuiltFrom rows e

/-- What a call for an application comes to, in a registry that is closed or not. -/
def ComesTo (settled : Int64 → Lookup) (closed : Bool) (a : Int64) : Resolved → Prop
  | .ok e => closed = false ∧ Found settled a e
  | .error (.storage x) => closed = false ∧ settled a = .error x
  | .error .closed => closed = true

/-- An application has a good entry, and nobody looks it up. -/
def Served (r : Registry) (a : Int64) : Prop :=
  (∃ n e, Filled r a n e ∧ isExpired r.ttl r.now e = false) ∧ ∀ c ∈ r.calls, c.application ≠ a

/-- An entry that calls for an application can still return stands in this slot. -/
def Current (r : Registry) (a : Int64) (n : Nat) (e : Entry) : Prop :=
  (a, n) ∈ r.cache ∧ isExpired r.ttl r.now e = false ∨
    ∃ c ∈ r.calls, c.application = a ∧ c.slot = n

/-- What calls come to is settled. -/
structure Steady (lookup settled : Int64 → Lookup) (r : Registry) : Prop where
  entries : ∀ a n e, (r.slotAt n).entry = some e → r.Current a n e → Found settled a e
  /-- Where it is not what a lookup would say, there is none. -/
  served : ∀ a, lookup a ≠ settled a → r.closed = false → Served r a
  idle : r.closed = true → r.calls = []

/-- A step that answers a lookup answers it in the one way. -/
def Truthful (lookup : Int64 → Lookup) (r : Registry) (s : Step) : Prop :=
  ∀ k found, s = .answer k found → ∀ c ∈ r.calls, c.number = k → found = lookup c.application

/-- A step in which a call begins or goes on. -/
def Step.ofCall : Step → Bool
  | .begin _ _ | .answer _ _ | .wake _ => true
  | _ => false

theorem gentle_of_call (h : s.ofCall = true) (a : Int64) : Gentle a s := by
  cases s with
  | begin | answer | wake => exact ⟨by simp, by simp, by simp⟩
  | _ => cases h

/-- What is known of any state of a run and of its next step. -/
structure Sound (r : Registry) (s : Step) : Prop where
  keyed : Keyed r
  tenancy : Tenancy r
  attended : Attended r
  numbers : (r.calls.map (·.number)).Nodup
  fresh : ∀ k, s.begun? = some k → k ∉ r.calls.map (·.number)

theorem Sound.ready (h : Sound r s) (ho : Owned own a r s) : Ready own a r s :=
  ⟨h.keyed, h.tenancy, h.attended, h.numbers, h.fresh, ho⟩

theorem run_sound (ttl : Option Duration) (hd : Distinct (steps ++ [s])) :
    Sound (run (start ttl) steps).1 s where
  keyed := run_keyed ttl steps
  tenancy := run_tenancy (start_tenancy ttl) steps
  attended := run_attended ttl hd.append_left
  numbers := (run_numbered ttl hd.append_left).calls_nodup hd.append_left
  fresh := (run_numbered ttl hd.append_left).fresh hd

/-- Every entry has been built from the rows of an answer. -/
theorem run_built (ttl : Option Duration) (steps : List Step)
    (h : ((run (start ttl) steps).1.slotAt n).entry = some e) : ∃ rows, BuiltFrom rows e := by
  refine collect_keeps (f := step) (o := [])
    (P := fun r _ => ∀ n e, (r.slotAt n).entry = some e → ∃ rows, BuiltFrom rows e) ?_ ?_ steps n e h
  · intro r _ s hr n e he
    rcases (step_evolves r s).filled n e he with he | ⟨c, -, -, -, hl⟩
    · exact hr n e he
    · obtain ⟨rows, -, hb⟩ := step_found hl
      exact ⟨rows, hb⟩
  · intro n e he
    simp [slotAt, start, Slot.fresh] at he

/-- Where the registry is open, no webhook is closed. -/
theorem run_unreleased (ttl : Option Duration) (steps : List Step)
    (h : (run (start ttl) steps).1.closed = false) : (run (start ttl) steps).1.released = [] := by
  refine (open_before_close ttl fun hm => ?_).2
  obtain ⟨xs, ys, rfl⟩ := List.append_of_mem hm
  have hshut := (close_shut _ (run_empty ttl xs)).run ys
  have hclosed : (run (start ttl) (xs ++ .close :: ys)).1.closed = true := by
    rw [run_append, run_cons]
    exact hshut.closed
  rw [h] at hclosed
  cases hclosed

/-- Nothing is closed with a step of a call. -/
theorem step_open (h : r.closed = false) (hs : s ≠ .close) : (step r s).1.closed = false := by
  have hb := step_booked r s
  generalize step r s = x at hb
  cases hb with
  | same _ _ hb _ => exact (congrArg Books.closed hb).trans h
  | settled c e => exact (congrArg Books.closed (settle_books r c e)).trans h
  | filled c rows => exact (congrArg Books.closed (fill_books r c rows)).trans h
  | closed => exact absurd rfl hs

/-- No time passes with a step of a call. -/
theorem step_still (hk : Keyed r) (hs : s.ofCall = true) :
    (step r s).1.ttl = r.ttl ∧ (step r s).1.now = r.now := by
  cases s with
  | begin k a => exact begin_clock hk k a
  | answer k found => exact answer_clock r k found
  | wake k => exact wake_clock r k
  | _ => cases hs

/-- What a step of a call begins it begins for its own. -/
theorem owned_begun (hsound : Sound r s) (hb : ∀ k b, s = .begin k b → b = a) :
    Owned s.begun?.toList a r s where
  called c hc hm := by
    refine absurd (List.mem_map_of_mem hc) (hsound.fresh c.number ?_)
    exact Option.mem_toList.mp hm
  begun k b hs _ := hb k b hs

/-- An application that is served stays so. -/
theorem Served.step (h : Served r a) (hsound : Sound r s) (hs : s.ofCall = true) :
    Served (Registry.step r s).1 a := by
  obtain ⟨⟨n, e, hf, hgood⟩, hidle⟩ := h
  obtain ⟨ht, hn⟩ := step_still hsound.keyed hs
  rw [← ht, ← hn] at hgood
  by_cases hb : ∃ k, s = .begin k a
  · obtain ⟨k, rfl⟩ := hb
    have hready := hsound.ready (owned_begun hsound fun _ _ he => by cases he; rfl)
    rw [ht, hn] at hgood
    obtain ⟨hf', hnews⟩ := hf.begin hready (by simp [Step.begun?]) hgood
    rw [← ht, ← hn] at hgood
    refine ⟨⟨n, e, hf', hgood⟩, fun c hc => ?_⟩
    -- the call returns at once, so it does not come into flight
    have hret : .returned k (.ok e) ∈ news a (Step.begin k a).begun?.toList (begin r k a).2 := by
      rw [hnews]
      exact List.mem_singleton_self _
    have hgone := ((step_traffic r (.begin k a) hsound.fresh).left
      (mem_returns_of_returned (List.mem_filter.mp hret).1) (hsound.fresh k)).2
    rcases (step_evolves r (.begin k a)).called c hc with ⟨b, hb, -, ha, -⟩ | ⟨he, -, -⟩
    · exact ha ▸ hidle b hb
    · cases he
      exact absurd (List.mem_map_of_mem hc) hgone
  · have hother : ¬Concerns r a s := by
      cases s with
      | begin k b => exact fun hc => hb ⟨k, congrArg (Step.begin k) hc⟩
      | answer k found =>
        rintro ⟨c, hc, -, ha⟩
        exact hidle c hc ha
      | wake k =>
        rintro ⟨c, hc, -, ha⟩
        exact hidle c hc ha
      | _ => cases hs
    have howned : Owned [] a r s :=
      ⟨fun _ _ hm => absurd hm List.not_mem_nil, fun _ _ _ hm => absurd hm List.not_mem_nil⟩
    have hap := (hsound.ready howned).apart hother
    exact ⟨⟨n, e, hf.apart hap.1, hgood⟩, fun c hc ha => hidle c ((hap.1.calls c ha).mp hc) ha⟩

/-- What the lookup of a call in flight says is settled. -/
theorem Steady.asked (h : Steady lookup settled r) {c : Call} (hc : c ∈ r.calls) :
    lookup c.application = settled c.application := by
  by_contra hne
  cases ho : r.closed with
  | true =>
    rw [h.idle ho] at hc
    cases hc
  | false => exact (h.served _ hne ho).2 c hc rfl

/-- An entry that fills the slot of a call is as things are settled. -/
theorem Steady.found (h : Steady lookup settled r) (ht : Truthful lookup r s) {c : Call}
    (hc : c ∈ r.calls) (hl : .loaded c.number e ∈ (Registry.step r s).2) :
    Found settled c.application e := by
  obtain ⟨rows, rfl, hb⟩ := step_found hl
  exact ⟨rows, (h.asked hc).symm.trans (ht _ _ rfl c hc rfl).symm, hb⟩

theorem slot_of_entered {c : Call} (hc : c ∈ (enter r k a n).1.calls) (hk : c.number = k)
    (hf : k ∉ r.calls.map (·.number)) : c.slot = n := by
  have hnew : c ∉ r.calls := fun h => hf (hk ▸ List.mem_map_of_mem h)
  unfold enter at hc
  dsimp only at hc
  split at hc
  · rcases List.mem_append.mp hc with hc | hc
    · exact absurd (List.mem_filter.mp hc).1 hnew
    · rw [List.mem_singleton.mp hc]
  · rcases List.mem_append.mp hc with hc | hc
    · exact absurd hc hnew
    · rw [List.mem_singleton.mp hc]

/-- A call comes into a slot without an entry. -/
theorem entered_empty (hsound : Sound r (.begin k a)) {c : Call}
    (hc : c ∈ (begin r k a).1.calls) (hk : c.number = k) :
    ((begin r k a).1.slotAt c.slot).entry = none := by
  have hf := hsound.fresh k rfl
  have hnew : c ∉ r.calls := fun h => hf (hk ▸ List.mem_map_of_mem h)
  have hb := begin_began hsound.keyed k a
  generalize begin r k a = x at hb hc ⊢
  cases hb with
  | refused => exact absurd hc hnew
  | found => exact absurd hc hnew
  | joined n _ _ he =>
    rw [slot_of_entered hc hk hf, enter_entry]
    exact he
  | opened q _ hcleared _ =>
    have hsame := hcleared.same
    have hf' : k ∉ (q.grown a).calls.map (·.number) := by
      rw [hsame]
      exact hf
    have hlen : q.slots.length = r.slots.length := by rw [hsame]
    rw [slot_of_entered hc hk hf', enter_entry, grown_slotAt,
      slotAt_of_length_le (Nat.le_of_eq hlen)]
    rfl

theorem Steady.step (h : Steady lookup settled r) (hsound : Sound r s)
    (ht : Truthful lookup r s) (hs : s.ofCall = true) :
    Steady lookup settled (Registry.step r s).1 where
  entries a n e he hcur := by
    have hevolves := step_evolves r s
    have hholds : (Registry.step r s).1.Holds a n := hcur.imp And.left id
    rcases hevolves.filled n e he with hold | ⟨c, hc, rfl, -, hl⟩
    · have hbound : n ≠ r.slots.length := by
        rintro rfl
        rw [slotAt_of_length_le (Nat.le_refl _)] at hold
        cases hold
      refine h.entries a n e hold ?_
      obtain ⟨httl, hnow⟩ := step_still hsound.keyed hs
      rcases hcur with ⟨hm, hgood⟩ | ⟨c, hc, rfl, rfl⟩
      · rw [httl, hnow] at hgood
        exact .inl ⟨(hevolves.cached a n hm).resolve_right fun hn => hbound hn.1, hgood⟩
      · rcases hevolves.called c hc with ⟨b, hb, -, ha, hslot, -⟩ | ⟨rfl, -, -⟩
        · exact .inr ⟨b, hb, ha, hslot⟩
        · have hempty := entered_empty hsound hc rfl
          rw [Registry.step, hempty] at he
          cases he
    · have hown := holds_of_call hc
      rcases hevolves.holds hholds with hh | ⟨hn, -, -⟩
      · obtain rfl := hsound.tenancy.unique _ _ _ hown hh
        exact h.found ht hc hl
      · exact absurd (hsound.tenancy.bound _ _ hown) (Nat.not_lt_of_le (Nat.le_of_eq hn.symm))
  served a hne ho := by
    refine (h.served a hne ?_).step hsound hs
    cases hc : r.closed with
    | false => rfl
    | true =>
      rw [step_closed hc] at ho
      cases ho
  idle hc := by
    cases ho : r.closed with
    | false =>
      rw [step_open ho (gentle_of_call hs 0).2.2] at hc
      cases hc
    | true =>
      refine List.eq_nil_iff_forall_not_mem.mpr fun c hm => ?_
      refine step_calls_closed ho (k := c.number) ?_ s (List.mem_map_of_mem hm)
      rw [h.idle ho]
      exact List.not_mem_nil

/-- A call that returns an entry as it begins returns a good one. -/
theorem begin_good (hk : Keyed r) (h : .returned k (.ok e) ∈ (begin r k a).2) :
    ∃ n, (a, n) ∈ r.cache ∧ (r.slotAt n).entry = some e ∧ isExpired r.ttl r.now e = false := by
  have enters : ∀ q n, .returned k (.ok e) ∉ (enter q k a n).2 := by
    intro q n
    unfold enter
    dsimp only
    split <;> simp [load]
  have hb := begin_began hk k a
  generalize begin r k a = x at hb h
  cases hb with
  | refused => simp at h
  | found n f _ hm he hg =>
    simp only [List.mem_cons, reduceCtorEq, List.not_mem_nil, or_false, false_or,
      Output.returned.injEq, Except.ok.injEq, true_and] at h
    exact ⟨n, hm, h ▸ he, h ▸ hg⟩
  | joined => exact absurd h (enters _ _)
  | opened => exact absurd h (enters _ _)

/-- Whatever a call returns is what calls for its application come to. -/
theorem Steady.returned (h : Steady lookup settled r) (hk : Keyed r) (ht : Truthful lookup r s)
    (hbegin : ∀ b, s = .begin k b → b = a) (hcalls : ∀ c ∈ r.calls, c.number = k → c.application = a)
    (hr : .returned k result ∈ (Registry.step r s).2) : ComesTo settled r.closed a result := by
  match result with
  | .ok e =>
    obtain ⟨ho, hfrom⟩ := (step_evolves r s).returned k e hr
    refine ⟨ho, ?_⟩
    rcases hfrom with ⟨b, n, rfl, -, -⟩ | ⟨c, hc, hk, he⟩
    · obtain ⟨n, hm, he, hg⟩ := begin_good hk hr
      exact hbegin b rfl ▸ h.entries b n e he (.inl ⟨hm, hg⟩)
    · rw [← hcalls c hc hk]
      rcases he with he | ⟨-, hl⟩
      · exact h.entries _ _ e he (.inr ⟨c, hc, rfl, rfl⟩)
      · exact h.found ht hc (hk ▸ hl)
  | .error (.storage x) =>
    obtain ⟨rfl, c, hc, hk, -⟩ := step_storage hr
    refine ⟨?_, hcalls c hc hk ▸ (h.asked hc).symm.trans (ht _ _ rfl c hc hk).symm⟩
    cases ho : r.closed with
    | false => rfl
    | true =>
      rw [h.idle ho] at hc
      cases hc
  | .error .closed => exact closed_of_refused hr

/-- With no call in flight it is settled, whatever is cached, what calls come to. -/
theorem steady_at_rest (lookup : Int64 → Lookup) (hk : Keyed r) (hidle : r.calls = [])
    (hbuilt : ∀ n e, (r.slotAt n).entry = some e → ∃ rows, BuiltFrom rows e) :
    ∃ settled, Steady lookup settled r := by
  have each : ∀ a, ∃ found : Lookup,
      (∀ n e, (a, n) ∈ r.cache → (r.slotAt n).entry = some e → isExpired r.ttl r.now e = false →
        ∃ rows, found = .ok rows ∧ BuiltFrom rows e) ∧
      (lookup a ≠ found → r.closed = false → Served r a) := by
    intro a
    by_cases hgood : ∃ n e, (a, n) ∈ r.cache ∧ (r.slotAt n).entry = some e ∧
        isExpired r.ttl r.now e = false
    · obtain ⟨n, e, hm, he, hg⟩ := hgood
      obtain ⟨rows, hrows⟩ := hbuilt n e he
      refine ⟨.ok rows, fun m f hm' he' _ => ⟨rows, rfl, ?_⟩, fun _ ho => ?_⟩
      · rw [hk a m n hm' hm, he, Option.some.injEq] at he'
        exact he' ▸ hrows
      · have hnobody : ∀ c ∈ r.calls, False := by simp [hidle]
        exact ⟨⟨n, e, ⟨ho, fun m => ⟨fun h => hk a m n h hm, fun h => h ▸ hm⟩, he,
          fun c hc _ => (hnobody c hc).elim⟩, hg⟩, fun c hc _ => hnobody c hc⟩
    · exact ⟨lookup a, fun n e hm he hg => absurd ⟨n, e, hm, he, hg⟩ hgood,
        fun hne _ => absurd rfl hne⟩
  choose settled hsettled using each
  refine ⟨settled, fun a n e he hcur => ?_, fun a => (hsettled a).2, fun _ => hidle⟩
  rcases hcur with ⟨hm, hg⟩ | ⟨c, hc, -, -⟩
  · exact (hsettled a).1 n e hm he hg
  · rw [hidle] at hc
    cases hc

end Uplink.Registry
