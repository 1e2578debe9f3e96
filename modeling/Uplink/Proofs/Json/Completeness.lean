import Uplink.Proofs.Json.Grammar

namespace Uplink.Json

variable {c : Char} {cs key ws : List Char} {d : Document} {part : Part} {s t : TextScan}
  {p q : NumberPlace} {r : Reader} {frames : List Frame}

/-- The scan when it goes on through all of the characters. -/
def TextScan.takes (s : TextScan) (cs : List Char) : Option TextScan :=
  cs.foldlM (fun s c => match s.next c with
    | .more s => some s
    | _ => none) s

theorem TextScan.takes_cons (h : s.next c = .more t) : s.takes (c :: cs) = t.takes cs := by
  simp [takes, h]

theorem TextScan.takes_append (h : s.takes cs = some t) (more : List Char) :
    s.takes (cs ++ more) = t.takes more := by
  simp only [takes, List.foldlM_append] at h ⊢
  rw [h]
  rfl

/-- What the scan goes through it goes through one by one. -/
theorem TextScan.takes_induction {P : TextScan → List Char → Prop} (hnil : P t [])
    (hcons : ∀ s s' c cs, s.next c = .more s' → s'.takes cs = some t → P s' cs → P s (c :: cs)) :
    ∀ {s : TextScan} {cs : List Char}, s.takes cs = some t → P s cs := by
  intro s cs h
  induction cs generalizing s with
  | nil =>
    obtain rfl : s = t := by simpa [takes] using h
    exact hnil
  | cons c cs ih =>
    cases hn : s.next c with
    | more u =>
      rw [takes_cons hn] at h
      exact hcons s u c cs hn h (ih h)
    | done _ => simp [takes, hn] at h
    | cut _ _ => simp [takes, hn] at h

theorem TextScan.through_of_takes (h : s.takes cs = some t) : s.through cs = t := by
  refine takes_induction (P := fun s cs => s.through cs = t) rfl ?_ h
  intro s s' c cs hn _ ih
  rw [through, List.foldl_cons, hn]
  exact ih

theorem hexDigit_utf8Size (h : Text.Hex.isDigit c) : c.utf8Size = 1 := by
  rw [Char.utf8Size_eq_one_iff, UInt32.le_iff_toNat_le]
  change c.toNat ≤ 127
  simp only [Text.Hex.isDigit, Text.Hex.digitValue] at h
  split at h
  · rename_i hc
    exact Nat.le_trans (show c.toNat ≤ 57 from hc.2) (by omega)
  · split at h
    · rename_i hc
      exact Nat.le_trans (show c.toNat ≤ 102 from hc.2) (by omega)
    · split at h
      · rename_i hc
        exact Nat.le_trans (show c.toNat ≤ 70 from hc.2) (by omega)
      · cases h

/-- The number of the digits of a numeric escape. -/
def hexUnit (cs : List Char) : Nat :=
  cs.foldl (fun v c => 16 * v + (Text.Hex.digitValue c).getD 0) 0

/-- A numeric escape puts in one unit. -/
theorem TextScan.takes_hex {a b c d : Char} (hs : s.place = .escape) (ha : Text.Hex.isDigit a)
    (hb : Text.Hex.isDigit b) (hc : Text.Hex.isDigit c) (hd : Text.Hex.isDigit d) :
    s.takes ['u', a, b, c, d] =
      some (({ s with place := .hex 3 (hexUnit [a, b, c]) true } : TextScan).pushUnit
        (hexUnit [a, b, c, d])) := by
  simp [takes, next, hs, ha, hb, hc, hd, hexDigit_utf8Size, expectNumeric, hexUnit]

theorem TextScan.pushUnit_place (s : TextScan) (n : Nat) : (s.pushUnit n).place = .plain := by
  unfold pushUnit spoil push
  cases s.lead with
  | some lead =>
    dsimp only
    split
    · rfl
    · split <;> rfl
  | none =>
    dsimp only
    split
    · split <;> rfl
    · split <;> rfl

/-- What follows the form of a text never breaks off. -/
theorem TextForm.takes (h : TextForm cs) :
    ∀ {s : TextScan}, s.place = .plain → ∃ t, s.takes cs = some t ∧ t.place = .plain := by
  induction h with
  | nil => exact fun hs => ⟨_, rfl, hs⟩
  | @plain c cs hq hb hc _ ih =>
    intro s hs
    have hn : s.next c = .more ((s.expectPlain c).push c) := by
      simp [TextScan.next, hs, hq, hb, hc]
    rw [TextScan.takes_cons hn]
    exact ih rfl
  | @escape c cs hc _ ih =>
    intro s hs
    have hu : c ≠ 'u' := by
      rintro rfl
      cases hc
    obtain ⟨e, he⟩ := Option.isSome_iff_exists.mp hc
    have hn : s.next '\\' = .more { s.expectPlain '\\' with place := .escape } := by
      simp [TextScan.next, hs]
    have hm : ({ s.expectPlain '\\' with place := .escape } : TextScan).next c =
        .more
          ((({ s.expectPlain '\\' with place := .escape } : TextScan).expectNumeric c).push e) := by
      simp [TextScan.next, hu, he]
    rw [TextScan.takes_cons hn, TextScan.takes_cons hm]
    exact ih rfl
  | @hex a b c d cs ha hb hc hd _ ih =>
    intro s hs
    have hn : s.next '\\' = .more { s.expectPlain '\\' with place := .escape } := by
      simp [TextScan.next, hs]
    have hm := TextScan.takes_append
      (TextScan.takes_hex (s := { s.expectPlain '\\' with place := .escape }) rfl ha hb hc hd) cs
    simp only [List.cons_append, List.nil_append] at hm
    rw [TextScan.takes_cons hn, hm]
    exact ih (TextScan.pushUnit_place _ _)

/-- A text ends at its second quote, with the token of what stands in between. -/
theorem TextForm.closes (h : TextForm cs) :
    ∃ t, TextScan.start.takes cs = some t ∧ t.next '"' = .done (textToken cs) := by
  obtain ⟨t, ht, hp⟩ := h.takes (s := .start) rfl
  refine ⟨t, ht, ?_⟩
  rw [textToken, TextScan.through_of_takes ht]
  simp [TextScan.next, hp]

theorem run_text (h : TextForm cs) (frames : List Frame) :
    (cs ++ ['"']).foldl Reader.step ⟨.text .start, frames⟩ =
      Reader.put (.text (textToken cs)) frames := by
  obtain ⟨t, ht, hq⟩ := h.closes
  rw [List.foldl_append]
  have hrun : cs.foldl Reader.step ⟨.text .start, frames⟩ = ⟨.text t, frames⟩ := by
    refine TextScan.takes_induction
      (P := fun s cs => cs.foldl Reader.step ⟨.text s, frames⟩ = ⟨.text t, frames⟩) rfl ?_ ht
    intro s s' c cs hn _ ih
    rw [List.foldl_cons, Reader.step]
    simp only [hn]
    exact ih
  rw [hrun]
  simp [Reader.step, hq]

theorem run_key (h : TextForm cs) (frames : List Frame) :
    (cs ++ ['"']).foldl Reader.step ⟨.key .start, frames⟩ =
      Reader.putKey (textToken cs) frames := by
  obtain ⟨t, ht, hq⟩ := h.closes
  rw [List.foldl_append]
  have hrun : cs.foldl Reader.step ⟨.key .start, frames⟩ = ⟨.key t, frames⟩ := by
    refine TextScan.takes_induction
      (P := fun s cs => cs.foldl Reader.step ⟨.key s, frames⟩ = ⟨.key t, frames⟩) rfl ?_ ht
    intro s s' c cs hn _ ih
    rw [List.foldl_cons, Reader.step]
    simp only [hn]
    exact ih
  rw [hrun]
  simp [Reader.step, hq]

/-- The place in a number behind more of its characters. -/
def NumberPlace.takes (p : NumberPlace) (cs : List Char) : Option NumberPlace :=
  cs.foldlM (fun p c => match p.next c with
    | .more p => some p
    | _ => none) p

theorem NumberPlace.takes_cons (h : p.next c = .more q) : p.takes (c :: cs) = q.takes cs := by
  simp [takes, h]

theorem NumberPlace.takes_append (h : p.takes cs = some q) (more : List Char) :
    p.takes (cs ++ more) = q.takes more := by
  simp only [takes, List.foldlM_append] at h ⊢
  rw [h]
  rfl

theorem run_number (h : p.takes cs = some q) (seen : List Char) (frames : List Frame) :
    cs.foldl Reader.step ⟨.number p seen, frames⟩ = ⟨.number q (cs.reverse ++ seen), frames⟩ := by
  induction cs generalizing p seen with
  | nil =>
    obtain rfl : p = q := by simpa [NumberPlace.takes] using h
    rfl
  | cons c cs ih =>
    cases hn : p.next c with
    | more u =>
      rw [NumberPlace.takes_cons hn] at h
      rw [List.foldl_cons, Reader.step]
      simp only [hn]
      rw [ih h]
      simp
    | ended => simp [NumberPlace.takes, hn] at h
    | bad => simp [NumberPlace.takes, hn] at h

/-- Digits behind a digit. -/
theorem Digits.stay (h : Digits cs) (hp : ∀ c, c.isDigit = true → p.next c = .more p) :
    p.takes cs = some p := by
  induction cs with
  | nil => rfl
  | cons c cs ih =>
    rw [NumberPlace.takes_cons (hp c (h c List.mem_cons_self))]
    exact ih fun d hd => h d (List.mem_cons_of_mem _ hd)

/-- One digit or more, where the first leads elsewhere than the others. -/
theorem Digits.enter (h : Digits cs) (hn : cs ≠ [])
    (hf : ∀ c, c.isDigit = true → p.next c = .more q)
    (hs : ∀ c, c.isDigit = true → q.next c = .more q) : p.takes cs = some q := by
  cases cs with
  | nil => exact absurd rfl hn
  | cons c cs =>
    rw [NumberPlace.takes_cons (hf c (h c List.mem_cons_self))]
    exact Digits.stay (fun d hd => h d (List.mem_cons_of_mem _ hd)) hs

theorem digit_ne (h : c.isDigit = true) : c ≠ '.' ∧ c ≠ 'e' ∧ c ≠ 'E' ∧ c ≠ '+' ∧ c ≠ '-' := by
  refine ⟨?_, ?_, ?_, ?_, ?_⟩ <;> (rintro rfl; cases h)

theorem ExponentForm.takes (h : ExponentForm cs) (hc : p.complete = true)
    (hm : ∀ e, e = 'e' ∨ e = 'E' → p.next e = .more .mark) :
    ∃ q, p.takes cs = some q ∧ q.complete = true := by
  cases h with
  | absent => exact ⟨p, rfl, hc⟩
  | plain he hn h =>
    rw [NumberPlace.takes_cons (hm _ he)]
    refine ⟨.exponent, h.enter hn (fun c hc => ?_) (fun c hc => by simp [NumberPlace.next, hc]), rfl⟩
    simp [NumberPlace.next, hc, digit_ne hc]
  | signed he hs hn h =>
    rw [NumberPlace.takes_cons (hm _ he), NumberPlace.takes_cons (q := .markSign) (by
      simp [NumberPlace.next, hs])]
    exact ⟨.exponent, h.enter hn (fun c hc => by simp [NumberPlace.next, hc])
      (fun c hc => by simp [NumberPlace.next, hc]), rfl⟩

/-- What may follow the whole digits of a number. -/
theorem NumberPlace.takes_tail {f x : List Char} (hp : p = .zero ∨ p = .whole)
    (hf : FractionForm f) (hx : ExponentForm x) :
    ∃ q, p.takes (f ++ x) = some q ∧ q.complete = true := by
  have hmark : ∀ {e : Char}, e = 'e' ∨ e = 'E' → e.isDigit = false ∧ e ≠ '.' := by
    rintro e (rfl | rfl) <;> decide
  cases hf with
  | absent =>
    refine hx.takes ?_ fun e he => ?_
    · rcases hp with rfl | rfl <;> rfl
    · rcases hp with rfl | rfl <;> simp [NumberPlace.next, hmark he, he]
  | present hn h =>
    have hpoint : p.next '.' = .more .point := by
      rcases hp with rfl | rfl <;> rfl
    rw [List.cons_append, NumberPlace.takes_cons hpoint,
      NumberPlace.takes_append (h.enter (q := .fraction) hn
        (fun c hc => by simp [NumberPlace.next, hc]) (fun c hc => by simp [NumberPlace.next, hc]))]
    exact hx.takes rfl fun e he => by simp [NumberPlace.next, hmark he, he]

/-- A value has been read, but for what tells that a number has ended. -/
inductive Ready (frames : List Frame) : Document → Reader → Prop
  | put (d : Document) : Ready frames d (Reader.put d frames)
  | number {p : NumberPlace} {seen : List Char} (h : p.complete = true) :
      Ready frames (.number (numberToken seen)) ⟨.number p seen, frames⟩

/-- What may stand behind a value. -/
def Delimits (c : Char) : Prop := isJsonBlank c = true ∨ c = ',' ∨ c = ']' ∨ c = '\x7d'

theorem Delimits.ends (hc : Delimits c) (hp : p.complete = true) : p.next c = .ended := by
  have hd : c.isDigit = false ∧ c ≠ '.' ∧ c ≠ 'e' ∧ c ≠ 'E' := by
    simp only [Delimits, isJsonBlank, decide_eq_true_eq] at hc
    rcases hc with (rfl | rfl | rfl | rfl) | rfl | rfl | rfl <;> decide
  cases p <;> simp_all [NumberPlace.next, NumberPlace.complete]

theorem step_put (d : Document) (frames : List Frame) (c : Char) :
    (Reader.put d frames).step c = (Reader.put d frames).stepAfter c := by
  cases frames with
  | nil => rfl
  | cons f frames => cases f <;> rfl

theorem Ready.step (h : Ready frames d r) (hc : Delimits c) :
    r.step c = (Reader.put d frames).stepAfter c := by
  cases h with
  | put d => exact step_put d frames c
  | number hp =>
    rw [Reader.step]
    simp only [hc.ends hp]

theorem stepAfter_blank (hc : isJsonBlank c = true) (r : Reader) : r.stepAfter c = r := by
  simp [Reader.stepAfter, hc]

theorem put_blanks (h : Blanks cs) (d : Document) (frames : List Frame) :
    cs.foldl Reader.step (Reader.put d frames) = Reader.put d frames := by
  induction cs with
  | nil => rfl
  | cons c cs ih =>
    rw [List.foldl_cons, step_put, stepAfter_blank (h c List.mem_cons_self)]
    exact ih fun d hd => h d (List.mem_cons_of_mem _ hd)

/-- Blanks behind a value change nothing. -/
theorem Ready.blanks (h : Ready frames d r) (hb : Blanks cs) :
    Ready frames d (cs.foldl Reader.step r) := by
  cases cs with
  | nil => exact h
  | cons c cs =>
    have hc : isJsonBlank c = true := hb c List.mem_cons_self
    rw [List.foldl_cons, h.step (.inl hc), stepAfter_blank hc,
      put_blanks fun d hd => hb d (List.mem_cons_of_mem _ hd)]
    exact .put d

theorem Ready.finish (h : Ready [] d r) : r.finish = ⟨d, false⟩ := by
  cases h with
  | put d => rfl
  | number hp => simp [Reader.finish, hp, Reader.put]

/-- A place where a value or the next key may start, behind blanks or not. -/
def Place.awaits : Place → Prop
  | .value | .firstItem | .nextItem | .firstKey | .nextKey | .colon _ => True
  | _ => False

theorem awaits_blanks {p : Place} (hp : p.awaits) (h : Blanks cs) (frames : List Frame) :
    cs.foldl Reader.step ⟨p, frames⟩ = ⟨p, frames⟩ := by
  induction cs with
  | nil => rfl
  | cons c cs ih =>
    have hstep : Reader.step ⟨p, frames⟩ c = ⟨p, frames⟩ := by
      cases p <;> first | exact hp.elim | simp [Reader.step, h c List.mem_cons_self]
    rw [List.foldl_cons, hstep]
    exact ih fun d hd => h d (List.mem_cons_of_mem _ hd)

def Place.awaitsItem (p : Place) : Prop := p = .firstItem ∨ p = .nextItem

def Place.awaitsValue (p : Place) : Prop := p = .value ∨ p.awaitsItem

def Place.awaitsKey (p : Place) : Prop := p = .firstKey ∨ p = .nextKey

theorem step_begin {place : Place} (hp : place.awaitsValue) (hb : isJsonBlank c = false)
    (hc : c ≠ ']') (frames : List Frame) :
    Reader.step ⟨place, frames⟩ c = Reader.begin c frames := by
  rcases hp with rfl | rfl | rfl <;> simp [Reader.step, hb, hc]

/-- What the reader makes of a part of a text, wherever it may stand. -/
def Part.ReadFrom (cs : List Char) : Part → Prop
  | .value d => ∃ c rest, cs = c :: rest ∧ isJsonBlank c = false ∧ c ≠ ']' ∧
      ∀ frames, Ready frames d (rest.foldl Reader.step (Reader.begin c frames))
  | .item d => ∀ place frames, place.awaitsValue →
      Ready frames d (cs.foldl Reader.step ⟨place, frames⟩)
  | .items ds => ∀ place done frames, place.awaitsItem →
      (cs ++ [']']).foldl Reader.step ⟨place, .list done :: frames⟩ =
        Reader.put (.list (done.reverse ++ ds) .closed) frames
  | .member (key, d) => ∀ place done frames, place.awaitsKey →
      Ready (.member done key :: frames) d (cs.foldl Reader.step ⟨place, .object done :: frames⟩)
  | .members ms => ∀ place done frames, place.awaitsKey →
      (cs ++ ['\x7d']).foldl Reader.step ⟨place, .object done :: frames⟩ =
        Reader.put (.object (done.reverse ++ ms) .closed) frames

theorem begin_digit (hz : c ≠ '0') (hc : c.isDigit = true) (frames : List Frame) :
    Reader.begin c frames = ⟨.number .whole [c], frames⟩ := by
  unfold Reader.begin
  split
  case h_8 => exact absurd rfl hz
  case h_9 => simp [hc]
  all_goals cases hc

/-- The whole digits of a number, from the first on. -/
theorem WholeForm.begins (h : WholeForm cs) :
    ∃ c rest p, cs = c :: rest ∧ c.isDigit = true ∧ (p = .zero ∨ p = .whole) ∧
      NumberPlace.takes .sign cs = some p ∧
      ∀ frames, rest.foldl Reader.step (Reader.begin c frames) = ⟨.number p cs.reverse, frames⟩ := by
  cases h with
  | zero => exact ⟨'0', [], .zero, rfl, rfl, .inl rfl, rfl, fun _ => rfl⟩
  | @digits c cs hz hc h =>
    have hstay : NumberPlace.takes .whole cs = some .whole :=
      h.stay fun d hd => by simp [NumberPlace.next, hd]
    refine ⟨c, cs, .whole, rfl, hc, .inr rfl, ?_, fun frames => ?_⟩
    · rw [NumberPlace.takes_cons (q := .whole) (by simp [NumberPlace.next, hz, hc]), hstay]
    · rw [begin_digit hz hc, run_number hstay]
      simp

theorem NumberForm.read (h : NumberForm cs) :
    Part.ReadFrom cs (.value (.number (numberToken cs.reverse))) := by
  cases h with
  | @positive w f x hw hf hx =>
    obtain ⟨c, rest, p, rfl, hc, hp, -, hrun⟩ := hw.begins
    obtain ⟨q, hq, hcomplete⟩ := NumberPlace.takes_tail hp hf hx
    refine ⟨c, rest ++ (f ++ x), by simp, ?_, ?_, fun frames => ?_⟩
    · cases hb : isJsonBlank c
      · rfl
      · simp only [isJsonBlank, decide_eq_true_eq] at hb
        rcases hb with rfl | rfl | rfl | rfl <;> cases hc
    · rintro rfl
      cases hc
    · rw [List.foldl_append, hrun, run_number hq, ← List.reverse_append, ← List.append_assoc]
      exact .number hcomplete
  | @negative w f x hw hf hx =>
    obtain ⟨-, -, p, -, -, hp, htakes, -⟩ := hw.begins
    obtain ⟨q, hq, hcomplete⟩ := NumberPlace.takes_tail hp hf hx
    refine ⟨'-', w ++ (f ++ x), by simp, rfl, by decide, fun frames => ?_⟩
    have hall : NumberPlace.takes .sign (w ++ (f ++ x)) = some q :=
      (NumberPlace.takes_append htakes _).trans hq
    change Ready frames _ (List.foldl Reader.step ⟨.number .sign ['-'], frames⟩ _)
    rw [run_number hall, ← List.reverse_cons, ← List.append_assoc]
    exact .number hcomplete

/-- Behind an item of a list that goes on or ends. -/
theorem Ready.inList {done : List Document} (h : Ready (.list done :: frames) d r) :
    r.step ',' = ⟨.nextItem, .list (d :: done) :: frames⟩ ∧
      r.step ']' = Reader.put (.list (d :: done).reverse .closed) frames := by
  rw [h.step (.inr (.inl rfl)), h.step (.inr (.inr (.inl rfl)))]
  exact ⟨rfl, rfl⟩

theorem Ready.inObject {done : List (Token String × Document)} {k : Token String}
    (h : Ready (.member done k :: frames) d r) :
    r.step ',' = ⟨.nextKey, .object ((k, d) :: done) :: frames⟩ ∧
      r.step '\x7d' = Reader.put (.object ((k, d) :: done).reverse .closed) frames := by
  rw [h.step (.inr (.inl rfl)), h.step (.inr (.inr (.inr rfl)))]
  exact ⟨rfl, rfl⟩

theorem Spells.read (h : Spells cs part) : part.ReadFrom cs := by
  induction h with
  | nullWord => exact ⟨'n', _, rfl, rfl, by decide, fun _ => .put _⟩
  | trueWord => exact ⟨'t', _, rfl, rfl, by decide, fun _ => .put _⟩
  | falseWord => exact ⟨'f', _, rfl, rfl, by decide, fun _ => .put _⟩
  | number h => exact h.read
  | text h =>
    refine ⟨'"', _, rfl, rfl, by decide, fun frames => ?_⟩
    change Ready frames _ (List.foldl Reader.step ⟨.text .start, frames⟩ _)
    rw [run_text h]
    exact .put _
  | emptyList h =>
    refine ⟨'[', _, rfl, rfl, by decide, fun frames => ?_⟩
    change Ready frames _ (List.foldl Reader.step ⟨.firstItem, .list [] :: frames⟩ _)
    rw [List.foldl_append, awaits_blanks (p := .firstItem) trivial h]
    exact .put _
  | list _ ih =>
    refine ⟨'[', _, rfl, rfl, by decide, fun frames => ?_⟩
    change Ready frames _ (List.foldl Reader.step ⟨.firstItem, .list [] :: frames⟩ _)
    rw [ih .firstItem [] frames (.inl rfl)]
    exact .put _
  | emptyObject h =>
    refine ⟨'\x7b', _, rfl, rfl, by decide, fun frames => ?_⟩
    change Ready frames _ (List.foldl Reader.step ⟨.firstKey, .object [] :: frames⟩ _)
    rw [List.foldl_append, awaits_blanks (p := .firstKey) trivial h]
    exact .put _
  | object _ ih =>
    refine ⟨'\x7b', _, rfl, rfl, by decide, fun frames => ?_⟩
    change Ready frames _ (List.foldl Reader.step ⟨.firstKey, .object [] :: frames⟩ _)
    rw [ih .firstKey [] frames (.inl rfl)]
    exact .put _
  | item hb _ ha ih =>
    intro place frames hp
    obtain ⟨c, rest, rfl, hc, hne, hready⟩ := ih
    have hplace : place.awaits := by
      rcases hp with rfl | rfl | rfl <;> trivial
    rw [List.foldl_append, awaits_blanks hplace hb, List.cons_append, List.foldl_cons,
      step_begin hp hc hne, List.foldl_append]
    exact (hready frames).blanks ha
  | lastItem _ ih =>
    intro place done frames hp
    rw [List.foldl_append]
    simpa using (ih place _ (.inr hp)).inList.2
  | items _ _ ih ihm =>
    intro place done frames hp
    rw [List.append_assoc, List.foldl_append, List.cons_append, List.foldl_cons,
      (ih place _ (.inr hp)).inList.1, ihm .nextItem _ frames (.inr rfl)]
    simp
  | @member before key behind cs d hb hk ha _ ih =>
    intro place done frames hp
    have hplace : place.awaits := by
      rcases hp with rfl | rfl <;> trivial
    have hquote : Reader.step ⟨place, .object done :: frames⟩ '"' =
        ⟨.key .start, .object done :: frames⟩ := by
      rcases hp with rfl | rfl <;> rfl
    rw [List.foldl_append, awaits_blanks hplace hb, List.foldl_cons, hquote,
      List.append_cons key, List.foldl_append, run_key hk]
    change Ready _ d (List.foldl Reader.step ⟨.colon (textToken key), .object done :: frames⟩ _)
    rw [List.foldl_append, awaits_blanks (p := .colon (textToken key)) trivial ha, List.foldl_cons]
    exact ih .value (.member done (textToken key) :: frames) (.inl rfl)
  | lastMember _ ih =>
    intro place done frames hp
    rw [List.foldl_append]
    simpa using (ih place _ _ hp).inObject.2
  | @members cs more m ms _ _ ih ihm =>
    intro place done frames hp
    rw [List.append_assoc, List.foldl_append, List.cons_append, List.foldl_cons,
      (ih place _ _ hp).inObject.1, ihm .nextKey _ frames (.inr rfl)]
    simp

/-- Every text of the grammar is read as what it spells, and nothing is left over. -/
theorem Spells.ofText (h : Spells cs (.item d)) : Reading.ofText cs = ⟨d, false⟩ :=
  (h.read .value [] (.inl rfl)).finish

theorem readText_of_spells {α : Type} {text : String} (h : Spells text.toList (.item d))
    (read : Document → Read α) : readText read text = read d := by
  rw [readText, h.ofText]
  cases read d <;> rfl

end Uplink.Json
