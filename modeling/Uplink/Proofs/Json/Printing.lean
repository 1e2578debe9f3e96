import Mathlib.Data.List.TakeWhile
import Uplink.Json.Printer
import Uplink.Proofs.Json.Completeness
import Uplink.Proofs.Text.RoundTrip

namespace Uplink.Json

open Text

variable {c : Char} {cs : List Char} {s : String} {n : Nat}

/-- The scan of a text that has gone well so far, and is behind these characters. -/
def TextScan.good (seen : List Char) : TextScan := ⟨.plain, none, .ok seen⟩

theorem isDigit_digitChar {d : Nat} (h : d < 16) : Hex.isDigit (Hex.digitChar d) = true := by
  rw [Hex.isDigit, Hex.digitValue_digitChar d h]
  rfl

/-- However a character is written, it is one unit of a text. -/
theorem escape_form (c : Char) (h : TextForm cs) : TextForm (escape c ++ cs) := by
  unfold escape
  split
  case h_8 hq hb _ _ _ _ _ =>
    split
    · rename_i hc
      exact .hex rfl rfl (isDigit_digitChar (by omega)) (isDigit_digitChar (by omega)) h
    · rename_i hc
      exact .plain (fun he => hq he) (fun he => hb he) hc h
  all_goals exact .escape rfl h

/-- A number below the surrogates is the character of that number. -/
theorem TextScan.pushUnit_good {s : TextScan} (hl : s.lead = none) (h : n < 0xD800) :
    s.pushUnit n = s.push (Char.ofNat n) := by
  have hlow : ¬ (0xDC00 ≤ n ∧ n ≤ 0xDFFF) := by omega
  have hhigh : ¬ (0xD800 ≤ n ∧ n ≤ 0xDBFF) := by omega
  simp only [pushUnit, hl, if_neg hlow, if_neg hhigh]

theorem escape_takes (c : Char) (seen : List Char) :
    (TextScan.good seen).takes (escape c) = some (.good (c :: seen)) := by
  unfold escape
  split
  case h_8 hq hb _ _ _ _ _ =>
    have hq : c ≠ '"' := fun he => hq he
    have hb : c ≠ '\\' := fun he => hb he
    split
    · rename_i hc
      have hhigh := Hex.digitValue_digitChar (c.toNat / 16) (by omega)
      have hlow := Hex.digitValue_digitChar (c.toNat % 16) (by omega)
      have hunit : hexUnit ['0', '0', Hex.digitChar (c.toNat / 16), Hex.digitChar (c.toNat % 16)] =
          c.toNat := by
        have hzero : Hex.digitValue '0' = some 0 := by decide
        simp only [hexUnit, List.foldl_cons, List.foldl_nil, hzero, hhigh, hlow, Option.getD_some]
        omega
      rw [TextScan.takes_cons (t := ⟨.escape, none, .ok seen⟩) (by rfl),
        TextScan.takes_hex rfl rfl rfl (isDigit_digitChar (by omega)) (isDigit_digitChar (by omega)),
        hunit, TextScan.pushUnit_good rfl (by omega), Char.ofNat_toNat]
      rfl
    · rename_i hc
      rw [TextScan.takes_cons (t := .good (c :: seen)) (by
        simp [TextScan.next, TextScan.good, TextScan.expectPlain, TextScan.push, hq, hb, hc,
          Except.map])]
      rfl
  all_goals rfl

theorem escapes_form (cs : List Char) : TextForm (cs.flatMap escape) := by
  induction cs with
  | nil => exact .nil
  | cons c cs ih => exact escape_form c ih

theorem escapes_take (cs seen : List Char) :
    (TextScan.good seen).takes (cs.flatMap escape) = some (.good (cs.reverse ++ seen)) := by
  induction cs generalizing seen with
  | nil => rfl
  | cons c cs ih =>
    rw [List.flatMap_cons, TextScan.takes_append (escape_takes c seen), ih]
    simp

/-- A text reads back as it was, whatever its characters are. -/
theorem textToken_escape (s : String) :
    textToken (s.toList.flatMap escape) = ⟨.ok s, none⟩ := by
  have h : TextScan.start.takes (s.toList.flatMap escape) = some (.good s.toList.reverse) := by
    simpa [TextScan.good, TextScan.start] using escapes_take s.toList []
  rw [textToken, TextScan.through_of_takes h]
  simp [TextScan.good, TextScan.expectPlain, TextScan.token, Except.map]

theorem digits_form (n : Nat) : Digits (Decimal.digits n) := Decimal.isDigit_of_mem_digits n

theorem whole_form (n : Nat) : WholeForm (Decimal.digits n) := by
  by_cases h : n = 0
  · subst h
    have hzero : Decimal.digits 0 = ['0'] := by
      rw [Decimal.digits]
      rfl
    exact hzero ▸ .zero
  · obtain ⟨c, cs, hd, hz⟩ := Decimal.digits_head h
    have hall := digits_form n
    rw [hd] at hall ⊢
    exact .digits hz (hall c List.mem_cons_self) fun d hd => hall d (List.mem_cons_of_mem _ hd)

theorem ofInt_form (i : Int) : NumberForm (Decimal.ofInt i) := by
  cases i with
  | ofNat n =>
    rw [Decimal.ofInt]
    simpa using NumberForm.positive (whole_form n) .absent .absent
  | negSucc n =>
    rw [Decimal.ofInt]
    simpa using NumberForm.negative (whole_form (n + 1)) .absent .absent

def PositiveForm (cs : List Char) : Prop :=
  ∃ w f x, cs = w ++ f ++ x ∧ WholeForm w ∧ FractionForm f ∧ ExponentForm x

theorem PositiveForm.signed (h : PositiveForm cs) (negative : Bool) :
    NumberForm (if negative then '-' :: cs else cs) := by
  obtain ⟨w, f, x, rfl, hw, hf, hx⟩ := h
  cases negative with
  | true => exact .negative hw hf hx
  | false => exact .positive hw hf hx

theorem digits_replicate (k : Nat) : Digits (List.replicate k '0') := fun c hc => by
  rw [List.eq_of_mem_replicate hc]
  rfl

theorem Digits.append {ds es : List Char} (hd : Digits ds) (he : Digits es) : Digits (ds ++ es) :=
  fun c hc => (List.mem_append.mp hc).elim (hd c) (he c)

/-- Zeros stand between the point and the first digit. -/
theorem fraction_form (hn : cs ≠ []) (h : Digits cs) (k : Nat) :
    PositiveForm ('0' :: '.' :: List.replicate k '0' ++ cs) :=
  ⟨['0'], '.' :: (List.replicate k '0' ++ cs), [], by simp, .zero,
    .present (by simp [hn]) ((digits_replicate k).append h), .absent⟩

/-- The point stands among the digits. -/
theorem pointed_form (hz : c ≠ '0') (hc : c.isDigit = true) (h : Digits cs) {k : Nat}
    (hk : k < cs.length) : PositiveForm (c :: cs.take k ++ '.' :: cs.drop k) :=
  ⟨c :: cs.take k, '.' :: cs.drop k, [], by simp,
    .digits hz hc fun d hd => h d (List.mem_of_mem_take hd),
    .present (by simpa using hk) fun d hd => h d (List.mem_of_mem_drop hd), .absent⟩

/-- Zeros stand between the last digit and the point. -/
theorem padded_form (hz : c ≠ '0') (hc : c.isDigit = true) (h : Digits cs) (k : Nat) :
    PositiveForm (c :: cs ++ List.replicate k '0' ++ ['.', '0']) :=
  ⟨c :: (cs ++ List.replicate k '0'), ['.', '0'], [], by simp,
    .digits hz hc (h.append (digits_replicate k)), .present (by simp) (by simp [Digits]), .absent⟩

theorem mark_form (e : Int) :
    ExponentForm ('e' :: (if e < 0 then '-' else '+') :: Decimal.digits e.natAbs) := by
  refine .signed (.inl rfl) ?_ (Decimal.digits_ne_nil _) (digits_form _)
  split
  · exact .inr rfl
  · exact .inl rfl

/-- A double follows the grammar of numbers, in each of its layouts. -/
theorem renderFloat_form (x : Float) : NumberForm (renderFloat x).toList := by
  unfold renderFloat
  dsimp only
  rw [String.toList_ofList]
  generalize Number.shortest x = d
  refine PositiveForm.signed ?_ _
  have hdigits := digits_form d.digits
  split
  · exact ⟨['0'], ['.', '0'], [], rfl, .zero, .present (by simp) (by simp [Digits]), .absent⟩
  rename_i hzero
  obtain ⟨c, cs, hd, hz⟩ := Decimal.digits_head hzero
  rw [hd] at hdigits ⊢
  obtain ⟨hc, hcs⟩ : c.isDigit = true ∧ Digits cs := List.forall_mem_cons.mp hdigits
  generalize hpoint : ((c :: cs).length : Int) + d.exponent = point
  split
  · exact fraction_form (List.cons_ne_nil c cs) hdigits _
  split
  · rename_i hinside
    obtain ⟨k, hk⟩ : ∃ k, point.toNat = k + 1 := ⟨point.toNat - 1, by omega⟩
    rw [hk, List.take_succ_cons, List.drop_succ_cons]
    refine pointed_form hz hc hcs ?_
    rw [List.length_cons] at hinside
    omega
  split
  · exact padded_form hz hc hcs _
  · -- one digit stands in front of the point, and an exponent behind the last
    cases cs with
    | nil => exact ⟨[c], [], _, rfl, .digits hz hc hcs, .absent, mark_form _⟩
    | cons d ds =>
      have hnone : Digits [] := List.forall_mem_nil _
      exact ⟨[c], '.' :: d :: ds, _, rfl, .digits hz hc hnone, .present (by simp) hcs, mark_form _⟩

namespace Numeral

theorem takeWhole_append {t : Nat} {ds : List Nat} (h : takeWhole n ds = (t, 0)) (more : List Nat) :
    takeWhole n (ds ++ more) = takeWhole t more := by
  induction ds generalizing n with
  | nil =>
    obtain rfl : n = t := congrArg Prod.fst h
    rfl
  | cons d ds ih =>
    rw [takeWhole] at h
    rw [List.cons_append, takeWhole]
    split at h
    · rename_i hd
      rw [if_pos hd]
      exact ih h
    · cases congrArg Prod.snd h

/-- The digits of a number that fits into a word are taken in as that number. -/
theorem takeWhole_digits (h : n ≤ Number.wordMax) :
    takeWhole 0 (digitsOf (Decimal.digits n)) = (n, 0) := by
  refine Decimal.digits_induction
    (P := fun n cs => n ≤ Number.wordMax → takeWhole 0 (digitsOf cs) = (n, 0)) ?_ ?_ n h
  · intro d hd hl
    simp [digitsOf, Decimal.digitValue_digitChar d hd, takeWhole, hl]
  · intro n d cs hd ih hl
    have hsplit : digitsOf (cs ++ [Decimal.digitChar d]) = digitsOf cs ++ [d] := by
      simp [digitsOf, Decimal.digitValue_digitChar d hd]
    rw [hsplit, takeWhole_append (ih (by omega))]
    simp [takeWhole, hl]

theorem ofChars_digits (n : Nat) :
    ofChars (Decimal.digits n) = ⟨false, digitsOf (Decimal.digits n), [], none⟩ ∧
      ofChars ('-' :: Decimal.digits n) = ⟨true, digitsOf (Decimal.digits n), [], none⟩ := by
  have hall := digits_form n
  have htake : (Decimal.digits n).takeWhile Char.isDigit = Decimal.digits n :=
    List.takeWhile_eq_self_iff.mpr hall
  have hdrop : (Decimal.digits n).dropWhile Char.isDigit = [] :=
    List.dropWhile_eq_nil_iff.mpr hall
  refine ⟨?_, by simp [ofChars, htake, hdrop, digitsOf]⟩
  cases hd : Decimal.digits n with
  | nil => exact absurd hd (Decimal.digits_ne_nil n)
  | cons c cs =>
    have hc : c ≠ '-' := by
      rintro rfl
      cases hall '-' (hd ▸ List.mem_cons_self)
    rw [hd] at htake hdrop
    simp [ofChars, hc, htake, hdrop, digitsOf]

/-- Whole numbers of 64 bits, signed or not, are exact. -/
theorem value_ofInt {i : Int} (hl : -((Number.intMax : Int) + 1) ≤ i) (hh : i ≤ Number.wordMax) :
    (ofChars (Decimal.ofInt i)).value = .ok (.int i) := by
  have hmax : Number.intMax + 1 ≤ Number.wordMax := by decide
  cases i with
  | ofNat n =>
    have htake := takeWhole_digits (show n ≤ Number.wordMax by simpa using hh)
    rw [Decimal.ofInt, (ofChars_digits n).1]
    simp [value, htake]
  | negSucc n =>
    have hn : n + 1 ≤ Number.intMax + 1 := by omega
    have htake := takeWhole_digits (Nat.le_trans hn hmax)
    rw [Decimal.ofInt, (ofChars_digits (n + 1)).2]
    simp [value, htake, hn, Int.negSucc_eq]

end Numeral

namespace Document

mutual

/-- The document that the text of a value spells. -/
def printed : Json → Document
  | .null => null
  | .bool b => bool b
  | .number n => number (numberToken (printNumber n).reverse)
  | .text s => text ⟨.ok s, none⟩
  | .list items => list (printedItems items) .closed
  | .object members => object (printedMembers members) .closed

def printedItems : List Json → List Document
  | [] => []
  | v :: rest => printed v :: printedItems rest

def printedMembers : List (String × Json) → List (Token String × Document)
  | [] => []
  | (name, v) :: rest => (⟨.ok name, none⟩, printed v) :: printedMembers rest

end

theorem printedItems_eq (items : List Json) : printedItems items = items.map printed := by
  induction items with
  | nil => rfl
  | cons v rest ih => rw [printedItems, ih, List.map_cons]

theorem printedMembers_eq (members : List (String × Json)) :
    printedMembers members = members.map fun m => (⟨.ok m.1, none⟩, printed m.2) := by
  induction members with
  | nil => rfl
  | cons m rest ih =>
    obtain ⟨name, v⟩ := m
    rw [printedMembers, ih, List.map_cons]

end Document

theorem blanks_nil : Blanks [] := fun _ h => absurd h List.not_mem_nil

/-- The document of a whole number of 64 bits holds the number. -/
theorem printed_int {i : Int} (hl : -((Number.intMax : Int) + 1) ≤ i) (hh : i ≤ Number.wordMax) :
    Document.printed (.int i) = .number ⟨.ok (.int i), none⟩ := by
  rw [Json.int, Document.printed, printNumber, numberToken, List.reverse_reverse,
    Numeral.value_ofInt hl hh]

theorem Spells.toItem {d : Document} (h : Spells cs (.value d)) : Spells cs (.item d) := by
  simpa using Spells.item blanks_nil h blanks_nil

theorem printText_spells (s : String) :
    Spells (printText s) (.value (.text ⟨.ok s, none⟩)) := by
  rw [← textToken_escape]
  exact .text (escapes_form s.toList)

theorem member_spells (name : String) {d : Document} (h : Spells cs (.value d)) :
    Spells (printText name ++ ':' :: cs) (.member (⟨.ok name, none⟩, d)) := by
  rw [← textToken_escape]
  simpa [printText] using
    Spells.member blanks_nil (escapes_form name.toList) blanks_nil h.toItem

mutual

theorem print_spells : ∀ v : Json, Spells (print v) (.value (Document.printed v))
  | .null => .nullWord
  | .bool true => .trueWord
  | .bool false => .falseWord
  | .number (.int n) => .number (ofInt_form n)
  | .number (.float x) => .number (renderFloat_form x)
  | .text s => printText_spells s
  | .list [] => .emptyList blanks_nil
  | .list (v :: rest) => by
    obtain ⟨body, hbody, h⟩ := printItems_spells rest (print_spells v)
    rw [print, List.cons_append, hbody]
    exact .list h
  | .object [] => .emptyObject blanks_nil
  | .object ((name, v) :: rest) => by
    obtain ⟨body, hbody, h⟩ := printMembers_spells rest (member_spells name (print_spells v))
    rw [print]
    simp only [List.cons_append, List.append_assoc] at hbody ⊢
    rw [hbody]
    exact .object h

theorem printItems_spells : ∀ (rest : List Json) {cs : List Char} {d : Document},
    Spells cs (.value d) → ∃ body, cs ++ printItems rest = body ++ [']'] ∧
      Spells body (.items (d :: Document.printedItems rest))
  | [], cs, _, h => ⟨cs, rfl, .lastItem h.toItem⟩
  | v :: rest, cs, _, h => by
    obtain ⟨body, hbody, hrest⟩ := printItems_spells rest (print_spells v)
    refine ⟨cs ++ ',' :: body, ?_, .items h.toItem hrest⟩
    rw [printItems]
    simp [hbody]

theorem printMembers_spells : ∀ (rest : List (String × Json)) {cs : List Char}
    {m : Token String × Document}, Spells cs (.member m) →
      ∃ body, cs ++ printMembers rest = body ++ ['\x7d'] ∧
        Spells body (.members (m :: Document.printedMembers rest))
  | [], cs, _, h => ⟨cs, rfl, .lastMember h⟩
  | (name, v) :: rest, cs, _, h => by
    obtain ⟨body, hbody, hrest⟩ := printMembers_spells rest (member_spells name (print_spells v))
    refine ⟨cs ++ ',' :: body, ?_, .members h hrest⟩
    rw [printMembers]
    simp only [List.cons_append, List.append_assoc] at hbody ⊢
    rw [hbody]

end

/-- Reading what was written is reading the document of the value. -/
theorem readText_compact {α : Type} (read : Document → Read α) (v : Json) :
    readText read (compact v) = read (.printed v) :=
  readText_of_spells (by simpa [compact] using (print_spells v).toItem) read

end Uplink.Json
