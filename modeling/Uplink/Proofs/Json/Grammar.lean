import Uplink.Json.Decode

namespace Uplink.Json

def Blanks (cs : List Char) : Prop := ∀ c ∈ cs, isJsonBlank c = true

/-- What may stand between the quotes of a text. -/
inductive TextForm : List Char → Prop
  | nil : TextForm []
  | plain {c : Char} {cs : List Char} (hq : c ≠ '"') (hb : c ≠ '\\') (hc : ¬ c.toNat < 0x20)
      (h : TextForm cs) : TextForm (c :: cs)
  | escape {c : Char} {cs : List Char} (hc : (TextScan.escaped c).isSome) (h : TextForm cs) :
      TextForm ('\\' :: c :: cs)
  | hex {a b c d : Char} {cs : List Char} (ha : Text.Hex.isDigit a) (hb : Text.Hex.isDigit b)
      (hc : Text.Hex.isDigit c) (hd : Text.Hex.isDigit d) (h : TextForm cs) :
      TextForm ('\\' :: 'u' :: a :: b :: c :: d :: cs)

def Digits (cs : List Char) : Prop := ∀ c ∈ cs, c.isDigit = true

inductive WholeForm : List Char → Prop
  | zero : WholeForm ['0']
  | digits {c : Char} {cs : List Char} (hz : c ≠ '0') (hc : c.isDigit = true) (h : Digits cs) :
      WholeForm (c :: cs)

inductive FractionForm : List Char → Prop
  | absent : FractionForm []
  | present {cs : List Char} (hn : cs ≠ []) (h : Digits cs) : FractionForm ('.' :: cs)

inductive ExponentForm : List Char → Prop
  | absent : ExponentForm []
  | plain {e : Char} {cs : List Char} (he : e = 'e' ∨ e = 'E') (hn : cs ≠ []) (h : Digits cs) :
      ExponentForm (e :: cs)
  | signed {e s : Char} {cs : List Char} (he : e = 'e' ∨ e = 'E') (hs : s = '+' ∨ s = '-')
      (hn : cs ≠ []) (h : Digits cs) : ExponentForm (e :: s :: cs)

inductive NumberForm : List Char → Prop
  | positive {w f x : List Char} (hw : WholeForm w) (hf : FractionForm f) (hx : ExponentForm x) :
      NumberForm (w ++ f ++ x)
  | negative {w f x : List Char} (hw : WholeForm w) (hf : FractionForm f) (hx : ExponentForm x) :
      NumberForm ('-' :: (w ++ f ++ x))

/-- The scan of a text in which nothing breaks off. -/
def TextScan.through (s : TextScan) (cs : List Char) : TextScan :=
  cs.foldl (fun s c => match s.next c with
    | .more s => s
    | _ => s) s

/-- The token of what stands between two quotes. -/
def textToken (cs : List Char) : Token String := ((TextScan.start.through cs).expectPlain '"').token

/-- The parts of a JSON text. An item is a value between blanks. -/
inductive Part where
  | value (d : Document)
  | item (d : Document)
  | items (ds : List Document)
  | member (m : Token String × Document)
  | members (ms : List (Token String × Document))

inductive Spells : List Char → Part → Prop
  | nullWord : Spells ['n', 'u', 'l', 'l'] (.value .null)
  | trueWord : Spells ['t', 'r', 'u', 'e'] (.value (.bool true))
  | falseWord : Spells ['f', 'a', 'l', 's', 'e'] (.value (.bool false))
  | number {cs : List Char} (h : NumberForm cs) :
      Spells cs (.value (.number (numberToken cs.reverse)))
  | text {cs : List Char} (h : TextForm cs) :
      Spells ('"' :: (cs ++ ['"'])) (.value (.text (textToken cs)))
  | emptyList {cs : List Char} (h : Blanks cs) :
      Spells ('[' :: (cs ++ [']'])) (.value (.list [] .closed))
  | list {cs : List Char} {ds : List Document} (h : Spells cs (.items ds)) :
      Spells ('[' :: (cs ++ [']'])) (.value (.list ds .closed))
  | emptyObject {cs : List Char} (h : Blanks cs) :
      Spells ('\x7b' :: (cs ++ ['\x7d'])) (.value (.object [] .closed))
  | object {cs : List Char} {ms : List (Token String × Document)} (h : Spells cs (.members ms)) :
      Spells ('\x7b' :: (cs ++ ['\x7d'])) (.value (.object ms .closed))
  | item {before cs behind : List Char} {d : Document} (hb : Blanks before)
      (h : Spells cs (.value d)) (ha : Blanks behind) :
      Spells (before ++ (cs ++ behind)) (.item d)
  | lastItem {cs : List Char} {d : Document} (h : Spells cs (.item d)) : Spells cs (.items [d])
  | items {cs more : List Char} {d : Document} {ds : List Document} (h : Spells cs (.item d))
      (hm : Spells more (.items ds)) : Spells (cs ++ ',' :: more) (.items (d :: ds))
  | member {before key behind cs : List Char} {d : Document} (hb : Blanks before)
      (hk : TextForm key) (ha : Blanks behind) (h : Spells cs (.item d)) :
      Spells (before ++ '"' :: (key ++ '"' :: (behind ++ ':' :: cs))) (.member (textToken key, d))
  | lastMember {cs : List Char} {m : Token String × Document} (h : Spells cs (.member m)) :
      Spells cs (.members [m])
  | members {cs more : List Char} {m : Token String × Document}
      {ms : List (Token String × Document)} (h : Spells cs (.member m))
      (hm : Spells more (.members ms)) : Spells (cs ++ ',' :: more) (.members (m :: ms))

variable {cs : List Char} {d : Document} {part : Part} {items : List Document}
  {members : List (Token String × Document)} {stop : Stop}

/-- What is spelled can be passed over. -/
theorem Spells.skipped (h : Spells cs (.value d)) : d.skipped = none := by
  cases h <;> rfl

/-- A document that some text spells. -/
def Spelled (d : Document) : Prop := ∃ cs, Spells cs (.value d)

/-- The values that a part holds directly are spelled themselves. -/
theorem Spells.parts (h : Spells cs part) :
    match part with
    | .value _ => True
    | .item d => Spelled d
    | .items ds => ∀ d ∈ ds, Spelled d
    | .member m => Spelled m.2
    | .members ms => ∀ m ∈ ms, Spelled m.2 := by
  induction h with
  | nullWord | trueWord | falseWord | number | text | emptyList | list | emptyObject | object =>
    trivial
  | item _ h _ => exact ⟨_, h⟩
  | lastItem _ ih => exact List.forall_mem_singleton.mpr ih
  | items _ _ ih ihm => exact List.forall_mem_cons.mpr ⟨ih, ihm⟩
  | member _ _ _ _ ih => exact ih
  | lastMember _ ih => exact List.forall_mem_singleton.mpr ih
  | members _ _ ih ihm => exact List.forall_mem_cons.mpr ⟨ih, ihm⟩

theorem Spelled.of_member (h : Spelled (.object members stop)) : ∀ m ∈ members, Spelled m.2 := by
  obtain ⟨cs, h⟩ := h
  cases h with
  | emptyObject => exact fun m hm => absurd hm List.not_mem_nil
  | object h => exact h.parts

theorem Spelled.of_item (h : Spelled (.list items stop)) : ∀ d ∈ items, Spelled d := by
  obtain ⟨cs, h⟩ := h
  cases h with
  | emptyList => exact fun d hd => absurd hd List.not_mem_nil
  | list h => exact h.parts

/-- An object of members that are spelled is spelled. -/
theorem Spelled.object (h : ∀ m ∈ members, ∃ cs, Spells cs (.member m)) :
    Spelled (.object members .closed) := by
  have hmembers : ∀ m ms, (∀ n ∈ m :: ms, ∃ cs, Spells cs (.member n)) →
      ∃ cs, Spells cs (.members (m :: ms)) := by
    intro m ms h
    induction ms generalizing m with
    | nil =>
      obtain ⟨cs, hcs⟩ := h m List.mem_cons_self
      exact ⟨cs, .lastMember hcs⟩
    | cons n ms ih =>
      obtain ⟨hm, h⟩ := List.forall_mem_cons.mp h
      obtain ⟨cs, hcs⟩ := hm
      obtain ⟨more, hmore⟩ := ih n h
      exact ⟨cs ++ ',' :: more, .members hcs hmore⟩
  cases members with
  | nil => exact ⟨_, .emptyObject fun c hc => absurd hc List.not_mem_nil⟩
  | cons m ms =>
    obtain ⟨cs, hcs⟩ := hmembers m ms h
    exact ⟨_, .object hcs⟩

end Uplink.Json
