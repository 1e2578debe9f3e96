import Mathlib.Data.List.Induction
import Mathlib.Data.List.Nodup
import Mathlib.Data.List.Perm.Basic
import Uplink.Proofs.Collect
import Uplink.Webhook.Endpoints

namespace Uplink.Webhook

open Notification

variable {s : Settings} {e : Endpoints} {f g : String × String} {done h h' : Headers}
  {l l' : List (String × String)} {name value lower key : String}
  {parse : String → Except Url.UrlError Url.Target}

/-- A text without case, as names of header fields are compared. -/
def lowered (name : String) : String := String.ofList (name.toList.map Char.toLower)

/-- A field that settings may hold. -/
structure Proper (f : String × String) : Prop where
  name : (headerName? f.1).isSome
  value : isHeaderValue f.2 = true

def names (h : Headers) : List String := h.map (·.1)

/-- The fields of settings, in order, put upon those that are there. -/
def keep (done : Headers) (l : List (String × String)) : Headers :=
  l.foldl (fun h f => h.set (lowered f.1) f.2) done

/-- The value of the last field with a name. -/
def last? (key : String) (l : List (String × String)) : Option String :=
  (l.reverse.find? fun f => lowered f.1 == key).map (·.2)

/-- Fields whose names differ in case at most have one value. -/
def Agreeing (l : List (String × String)) : Prop :=
  ∀ f ∈ l, ∀ g ∈ l, lowered f.1 = lowered g.1 → f.2 = g.2

theorem lowered_of_headerName? (h : headerName? name = some lower) : lower = lowered name := by
  rw [headerName?] at h
  split at h
  · exact (Option.some.inj h).symm
  · cases h

theorem names_set (name value : String) (h : Headers) :
    names (h.set name value) = if name ∈ names h then names h else names h ++ [name] := by
  have hmem : h.any (·.1 == name) = true ↔ name ∈ names h := by
    simp [names]
  rw [Headers.set]
  by_cases hn : name ∈ names h
  · rw [if_pos (hmem.mpr hn), if_pos hn, names, names, List.map_map]
    apply List.map_congr_left
    intro f _
    by_cases hf : f.1 = name
    · simp [hf]
    · simp [hf]
  · rw [if_neg (fun ha => hn (hmem.mp ha)), if_neg hn]
    simp [names]

theorem set_nodup (name value : String) (hd : (names h).Nodup) :
    (names (h.set name value)).Nodup := by
  rw [names_set]
  split
  · exact hd
  · next hn => exact List.nodup_append.mpr ⟨hd, List.nodup_singleton name, by
      intro a ha b hb he
      rw [List.mem_singleton] at hb
      exact hn (hb ▸ he ▸ ha)⟩

theorem mem_names_set : key ∈ names (h.set name value) ↔ key ∈ names h ∨ key = name := by
  rw [names_set]
  split
  · next hn =>
    constructor
    · exact Or.inl
    · rintro (hk | rfl)
      · exact hk
      · exact hn
  · rw [List.mem_append, List.mem_singleton]

theorem lookup_replaced (name value key : String) (h : Headers) :
    (h.map fun f => if f.1 = name then (name, value) else f).lookup key =
      if key = name then h.lookup key |>.map fun _ => value else h.lookup key := by
  induction h with
  | nil => simp
  | cons f h ih =>
    obtain ⟨other, v⟩ := f
    rw [List.map_cons]
    by_cases ho : other = name
    · subst ho
      by_cases hk : key = other
      · simp [hk]
      · have hb : (key == other) = false := beq_eq_false_iff_ne.mpr hk
        rw [if_neg hk] at ih
        rw [if_pos rfl, if_neg hk, List.lookup_cons, List.lookup_cons, hb, ih]
    · rw [if_neg ho, List.lookup_cons, List.lookup_cons, ih]
      by_cases hk : key = other
      · subst hk
        simp [ho]
      · have hb : (key == other) = false := beq_eq_false_iff_ne.mpr hk
        rw [hb]

theorem lookup_eq_none : h.lookup key = none ↔ key ∉ names h := lookup_none_iff

theorem lookup_set (name value key : String) (h : Headers) :
    (h.set name value).lookup key = if key = name then some value else h.lookup key := by
  rw [Headers.set]
  split
  · next ha =>
    rw [lookup_replaced]
    by_cases hk : key = name
    · subst hk
      have hin : key ∈ names h := by simpa [names] using ha
      obtain ⟨v, hv⟩ := Option.ne_none_iff_exists'.mp (fun hn => lookup_eq_none.mp hn hin)
      simp [hv]
    · rw [if_neg hk, if_neg hk]
  · next ha =>
    have hout : name ∉ names h := by simpa [names] using ha
    rw [List.lookup_append]
    by_cases hk : key = name
    · subst hk
      simp [lookup_eq_none.mpr hout]
    · simp [hk, beq_eq_false_iff_ne.mpr hk]

theorem keep_concat (done : Headers) (l : List (String × String)) (f : String × String) :
    keep done (l ++ [f]) = (keep done l).set (lowered f.1) f.2 := by
  rw [keep, List.foldl_concat, keep]

theorem last?_concat (key : String) (l : List (String × String)) (f : String × String) :
    last? key (l ++ [f]) = if key = lowered f.1 then some f.2 else last? key l := by
  rw [last?, List.reverse_concat, List.find?_cons]
  by_cases hk : key = lowered f.1
  · simp [hk]
  · have hb : (lowered f.1 == key) = false := beq_eq_false_iff_ne.mpr (Ne.symm hk)
    rw [hb, if_neg hk, last?]

theorem keep_nodup (l : List (String × String)) : (names (keep [] l)).Nodup := by
  induction l using List.reverseRecOn with
  | nil => exact List.nodup_nil
  | append_singleton l f ih =>
    rw [keep_concat]
    exact set_nodup _ _ ih

theorem mem_names_keep : key ∈ names (keep [] l) ↔ ∃ f ∈ l, lowered f.1 = key := by
  induction l using List.reverseRecOn with
  | nil => simp [keep, names]
  | append_singleton l f ih =>
    rw [keep_concat, mem_names_set, ih]
    simp only [List.mem_append, List.mem_singleton, or_and_right, exists_or, exists_eq_left]
    exact or_congr_right eq_comm

theorem lookup_keep (key : String) (l : List (String × String)) :
    (keep [] l).lookup key = last? key l := by
  induction l using List.reverseRecOn with
  | nil => rfl
  | append_singleton l f ih => rw [keep_concat, lookup_set, last?_concat, ih]

theorem last?_some (h : last? key l = some value) : ∃ f ∈ l, lowered f.1 = key ∧ f.2 = value := by
  obtain ⟨f, hf, rfl⟩ := Option.map_eq_some_iff.mp h
  have hm := List.mem_of_find?_eq_some hf
  have hk := List.find?_some hf
  exact ⟨f, List.mem_reverse.mp hm, beq_iff_eq.mp hk, rfl⟩

theorem last?_of_agreeing (ha : Agreeing l) (hf : f ∈ l) : last? (lowered f.1) l = some f.2 := by
  cases hl : last? (lowered f.1) l with
  | none =>
    rw [← lookup_keep, lookup_eq_none] at hl
    exact absurd (mem_names_keep.mpr ⟨f, hf, rfl⟩) hl
  | some value =>
    obtain ⟨g, hg, hk, rfl⟩ := last?_some hl
    rw [ha f hf g hg hk.symm]

theorem lookup_eq_some_iff (hd : (names h).Nodup) :
    h.lookup key = some value ↔ (key, value) ∈ h :=
  ⟨mem_of_lookup, lookup_of_mem hd⟩

/-- Header fields are a map: those that give every name the same value are the same. -/
theorem perm_iff_lookup (hd : (names h).Nodup) (hd' : (names h').Nodup) :
    h.Perm h' ↔ ∀ key, h.lookup key = h'.lookup key := by
  constructor
  · intro hp key
    apply Option.ext
    intro value
    rw [lookup_eq_some_iff hd, lookup_eq_some_iff hd']
    exact hp.mem_iff
  · intro hl
    apply (List.perm_ext_iff_of_nodup (List.Nodup.of_map _ hd) (List.Nodup.of_map _ hd')).mpr
    rintro ⟨key, value⟩
    rw [← lookup_eq_some_iff hd, ← lookup_eq_some_iff hd', hl]

/-- The same fields in another order have the same names, without case. -/
theorem names_keep_perm (hp : l.Perm l') : (names (keep [] l)).Perm (names (keep [] l')) := by
  apply (List.perm_ext_iff_of_nodup (keep_nodup l) (keep_nodup l')).mpr
  intro key
  rw [mem_names_keep, mem_names_keep]
  exact exists_congr fun f => and_congr_left fun _ => hp.mem_iff

theorem Agreeing.keep_perm (ha : Agreeing l) (hp : l.Perm l') : (keep [] l).Perm (keep [] l') := by
  have ha' : Agreeing l' := fun f hf g hg => ha f (hp.mem_iff.mpr hf) g (hp.mem_iff.mpr hg)
  apply (perm_iff_lookup (keep_nodup l) (keep_nodup l')).mpr
  intro key
  rw [lookup_keep, lookup_keep]
  by_cases hk : ∃ f ∈ l, lowered f.1 = key
  · obtain ⟨f, hf, rfl⟩ := hk
    rw [last?_of_agreeing ha hf, last?_of_agreeing ha' (hp.mem_iff.mp hf)]
  · have hnone : last? key l = none := by
      rw [← lookup_keep, lookup_eq_none, mem_names_keep]
      exact hk
    have hnone' : last? key l' = none := by
      rw [← lookup_keep, lookup_eq_none, mem_names_keep]
      rintro ⟨f, hf, hfk⟩
      exact hk ⟨f, hp.mem_iff.mpr hf, hfk⟩
    rw [hnone, hnone']

/-- Any field may be the last one: only fields that agree are the same in every order. -/
theorem agreeing_of_keep_perm (h : ∀ l', l'.Perm l → (keep [] l).Perm (keep [] l')) :
    Agreeing l := by
  have hlast : ∀ f ∈ l, last? (lowered f.1) l = some f.2 := by
    intro f hf
    have hp : (l.erase f ++ [f]).Perm l :=
      List.perm_append_comm.trans (List.perm_cons_erase hf).symm
    have hl := (perm_iff_lookup (keep_nodup _) (keep_nodup _)).mp (h _ hp) (lowered f.1)
    rw [lookup_keep, lookup_keep, last?_concat, if_pos rfl] at hl
    exact hl
  intro f hf g hg hfg
  have he := hlast f hf
  rw [hfg, hlast g hg] at he
  exact (Option.some.inj he).symm

/-- Fields are accepted when each of them is, and all are kept. -/
theorem checkHeaders_ok_iff (done : Headers) (l : List (String × String)) (h : Headers) :
    Endpoints.checkHeaders done l = .ok h ↔ (∀ f ∈ l, Proper f) ∧ h = keep done l := by
  induction l generalizing done with
  | nil =>
    rw [Endpoints.checkHeaders]
    simp [keep, eq_comm]
  | cons f l ih =>
    obtain ⟨name, value⟩ := f
    rw [Endpoints.checkHeaders, List.forall_mem_cons]
    cases hn : headerName? name with
    | none =>
      constructor
      · intro he
        cases he
      · intro ⟨⟨hp, _⟩, _⟩
        have := hp.name
        simp [hn] at this
    | some lower =>
      have hlow := lowered_of_headerName? hn
      subst hlow
      dsimp only
      split
      · next hv =>
        have hp : Proper (name, value) := ⟨by rw [hn]; rfl, hv⟩
        rw [ih, and_iff_right hp]
        rfl
      · next hv =>
        constructor
        · intro he
          cases he
        · intro ⟨⟨hp, _⟩, _⟩
          exact absurd hp.value hv

namespace Endpoints

theorem withUrls_ok_iff {headers : Headers} :
    withUrls parse s headers = .ok e ↔
      e.headers = headers ∧ ∀ event, check parse s event = .ok (e.url? event) := by
  simp only [withUrls, bind_ok_iff]
  constructor
  · intro h
    obtain ⟨dataUp, hr, join, hj, ack, ha, error, he, h⟩ := h
    cases h
    refine ⟨rfl, ?_⟩
    intro event
    cases event with
    | rx => exact hr
    | join => exact hj
    | ack => exact ha
    | error => exact he
  · intro h
    obtain ⟨rfl, hu⟩ := h
    exact ⟨_, hu .rx, _, hu .join, _, hu .ack, _, hu .error, rfl⟩

theorem judge_ok_iff :
    judge parse s = .ok e ↔ (∀ f ∈ s.headers, Proper f) ∧ e.headers = keep [] s.headers ∧
      ∀ event, check parse s event = .ok (e.url? event) := by
  simp only [judge, bind_ok_iff, checkHeaders_ok_iff, withUrls_ok_iff]
  constructor
  · intro h
    obtain ⟨headers, ⟨hp, rfl⟩, hh, hu⟩ := h
    exact ⟨hp, hh, hu⟩
  · intro h
    exact ⟨_, ⟨h.1, rfl⟩, h.2⟩

theorem ofSettings_ok_iff :
    ofSettings s = .ok e ↔ (∀ f ∈ s.headers, Proper f) ∧ e.headers = keep [] s.headers ∧
      ∀ event, check Url.parse s event = .ok (e.url? event) := judge_ok_iff

/-- Settings with their fields in another order are accepted alike, and give the same URLs. -/
theorem ofSettings_enumerated (hp : l.Perm s.headers) (h : ofSettings s = .ok e) :
    ofSettings { s with headers := l } = .ok { e with headers := keep [] l } := by
  obtain ⟨hproper, _, hu⟩ := ofSettings_ok_iff.mp h
  apply ofSettings_ok_iff.mpr
  refine ⟨fun f hf => hproper f (hp.mem_iff.mp hf), rfl, ?_⟩
  intro event
  cases event with
  | rx => exact hu .rx
  | join => exact hu .join
  | ack => exact hu .ack
  | error => exact hu .error

theorem ofSettings_refused (hp : l.Perm s.headers) (h : ∀ e, ofSettings s ≠ .ok e) (e : Endpoints) :
    ofSettings { s with headers := l } ≠ .ok e := by
  intro he
  exact h _ (ofSettings_enumerated (s := { s with headers := l }) hp.symm he)

/-- In every order settings are refused, or in every order they give the same URLs and names. -/
theorem ofSettings_alike (hp : l.Perm s.headers) :
    (∃ x y, ofSettings s = .error x ∧ ofSettings { s with headers := l } = .error y) ∨
      ∃ e e', ofSettings s = .ok e ∧ ofSettings { s with headers := l } = .ok e' ∧
        (∀ event, e.url? event = e'.url? event) ∧ (names e.headers).Perm (names e'.headers) := by
  cases hs : ofSettings s with
  | error x =>
    left
    cases hl : ofSettings { s with headers := l } with
    | error y => exact ⟨x, y, rfl, rfl⟩
    | ok e' =>
      have hne : ∀ e, ofSettings s ≠ .ok e := by
        intro e he
        rw [hs] at he
        cases he
      exact absurd hl (ofSettings_refused hp hne e')
  | ok e =>
    right
    refine ⟨e, _, rfl, ofSettings_enumerated hp hs, ?_, ?_⟩
    · intro event
      cases event <;> rfl
    · rw [(ofSettings_ok_iff.mp hs).2.1]
      exact names_keep_perm hp.symm

/-- The order of the fields decides neither whether settings are accepted nor where events go nor
which names the fields have. It does not decide their values, either, exactly where accepted
settings hold one value under each name. -/
theorem ofSettings_order_iff (s : Settings) :
    (∀ l, l.Perm s.headers →
      (∃ x y, ofSettings s = .error x ∧ ofSettings { s with headers := l } = .error y) ∨
      ∃ e e', ofSettings s = .ok e ∧ ofSettings { s with headers := l } = .ok e' ∧
        (∀ event, e.url? event = e'.url? event) ∧ (names e.headers).Perm (names e'.headers)) ∧
    ((∀ l, l.Perm s.headers → ∀ e e', ofSettings s = .ok e →
        ofSettings { s with headers := l } = .ok e' → e.headers.Perm e'.headers) ↔
      ∀ e, ofSettings s = .ok e → Agreeing s.headers) := by
  refine ⟨fun l hp => ofSettings_alike hp, ?_⟩
  constructor
  · intro h e he
    apply agreeing_of_keep_perm
    intro l hp
    have hm := h l hp e _ he (ofSettings_enumerated hp he)
    rw [(ofSettings_ok_iff.mp he).2.1] at hm
    exact hm
  · intro h l hp e e' he he'
    rw [(ofSettings_ok_iff.mp he).2.1, (ofSettings_ok_iff.mp he').2.1]
    exact (h e he).keep_perm hp.symm

/-- Under two spellings of one name there may be two values, and the order decides between them. -/
theorem spellings_hang_on_order :
    (["Key", "key"] : List String).Nodup ∧
      ofSettings { Settings.blank with headers := [("Key", "1"), ("key", "2")] } =
        .ok ⟨none, none, none, none, [("key", "2")]⟩ ∧
      ofSettings { Settings.blank with headers := [("key", "2"), ("Key", "1")] } =
        .ok ⟨none, none, none, none, [("key", "1")]⟩ := by
  refine ⟨by decide, ?_, ?_⟩
  · rfl
  · rfl

end Endpoints

end Uplink.Webhook
