import Uplink.Proofs.Text.RoundTrip

namespace Uplink

open Text

namespace Text.Hex

variable {c : Char} {d n : Nat} {cs : List Char} {bytes : List UInt8}

/-- A digit of base sixteen, of either case. -/
def IsDigit (c : Char) : Prop :=
  ('0' ≤ c ∧ c ≤ '9') ∨ ('a' ≤ c ∧ c ≤ 'f') ∨ ('A' ≤ c ∧ c ≤ 'F')

instance (c : Char) : Decidable (IsDigit c) := inferInstanceAs (Decidable (_ ∨ _ ∨ _))

theorem isDigit_iff : IsDigit c ↔ ∃ d, digitValue c = some d := by
  unfold IsDigit digitValue
  split
  · next h => exact iff_of_true (.inl h) ⟨_, rfl⟩
  · next hdecimal =>
    split
    · next h => exact iff_of_true (.inr (.inl h)) ⟨_, rfl⟩
    · next hlower =>
      split
      · next h => exact iff_of_true (.inr (.inr h)) ⟨_, rfl⟩
      · next hupper => simp [hdecimal, hlower, hupper]

theorem IsDigit.toNat_lt (h : IsDigit c) : c.toNat < 128 := by
  have hle : c ≤ 'f' := by
    rcases h with ⟨-, h⟩ | ⟨-, h⟩ | ⟨-, h⟩
    · exact Char.le_trans h (by decide)
    · exact h
    · exact Char.le_trans h (by decide)
  have : c.toNat ≤ 'f'.toNat := UInt32.le_iff_toNat_le.mp (Char.le_def.mp hle)
  have hf : 'f'.toNat = 102 := rfl
  omega

theorem digit_facts : ∀ n < 128, ∀ d ∈ digitValue (Char.ofNat n),
    d < 16 ∧ digitChar d = (Char.ofNat n).toLower := by decide

/-- What is written for the value of a digit is the digit in lower case. -/
theorem of_digitValue (h : digitValue c = some d) : d < 16 ∧ digitChar d = c.toLower := by
  have hlt := (isDigit_iff.mpr ⟨d, h⟩).toNat_lt
  have hfacts := digit_facts c.toNat hlt d
  rw [Char.ofNat_toNat] at hfacts
  exact hfacts h

/-- Bytes are read from digits only, two each, and written as those digits in lower case. -/
theorem of_decode (h : decode cs = some bytes) :
    (∀ c ∈ cs, IsDigit c) ∧ cs.length = 2 * bytes.length ∧ encode bytes = cs.map Char.toLower := by
  induction cs using decode.induct generalizing bytes with
  | case1 =>
    obtain rfl := Option.some.inj h
    simp [encode]
  | case2 => cases h
  | case3 c d rest ih =>
    simp only [decode, Option.bind_eq_bind, Option.bind_eq_some_iff, Option.pure_def,
      Option.some.injEq] at h
    obtain ⟨high, hhigh, low, hlow, more, hmore, rfl⟩ := h
    obtain ⟨hdigits, hlength, hencode⟩ := ih hmore
    obtain ⟨hhighLt, hhighChar⟩ := of_digitValue hhigh
    obtain ⟨hlowLt, hlowChar⟩ := of_digitValue hlow
    have hbyte : (UInt8.ofNat (16 * high + low)).toNat = 16 * high + low := by
      rw [UInt8.toNat_ofNat']
      omega
    have hdiv : (16 * high + low) / 16 = high := by omega
    have hmod : (16 * high + low) % 16 = low := by omega
    refine ⟨?_, ?_, ?_⟩
    · simp only [List.forall_mem_cons]
      exact ⟨isDigit_iff.mpr ⟨high, hhigh⟩, isDigit_iff.mpr ⟨low, hlow⟩, hdigits⟩
    · simp only [List.length_cons, hlength]
      omega
    · rw [encode, List.flatMap_cons, encodeByte, hbyte, hdiv, hmod, hhighChar, hlowChar, ← encode,
        hencode]
      rfl

/-- An even number of digits is read. -/
theorem exists_decode (hd : ∀ c ∈ cs, IsDigit c) (hl : cs.length = 2 * n) :
    ∃ bytes, decode cs = some bytes := by
  induction cs using decode.induct generalizing n with
  | case1 => exact ⟨[], rfl⟩
  | case2 =>
    simp only [List.length_cons, List.length_nil] at hl
    omega
  | case3 c d rest ih =>
    simp only [List.forall_mem_cons] at hd
    obtain ⟨high, hhigh⟩ := isDigit_iff.mp hd.1
    obtain ⟨low, hlow⟩ := isDigit_iff.mp hd.2.1
    have hrest : rest.length = 2 * (n - 1) := by
      simp only [List.length_cons] at hl
      omega
    obtain ⟨bytes, hbytes⟩ := ih hd.2.2 hrest
    exact ⟨_, by rw [decode, hhigh, hlow, hbytes]; rfl⟩

theorem utf8Size_of_isDigit (h : IsDigit c) : c.utf8Size = 1 := by
  have hlt := h.toNat_lt
  refine Char.utf8Size_eq_one_iff.mpr (UInt32.le_iff_toNat_le.mpr ?_)
  exact Nat.le_of_lt_succ hlt

/-- A byte that is a digit of base sixteen in ASCII. -/
def isDigitByte (b : UInt8) : Bool :=
  (48 ≤ b && b ≤ 57) || (97 ≤ b && b ≤ 102) || (65 ≤ b && b ≤ 70)

def readMagnitude (acc : Nat) : List Char → Option Nat
  | [] => some acc
  | c :: rest => do
    let d ← digitValue c
    if 16 * acc + d ≤ 255 then readMagnitude (16 * acc + d) rest else none

/-- Reads one or more digits as a number up to 255; a plus may stand in front. -/
def readByte (piece : String) : Option UInt8 :=
  match piece.toList with
  | [] | ['+'] => none
  | '+' :: digits => (readMagnitude 0 digits).map UInt8.ofNat
  | digits => (readMagnitude 0 digits).map UInt8.ofNat

theorem ascii_bytes : ∀ n < 128,
    (String.utf8EncodeChar (Char.ofNat n)).all isDigitByte = true ↔ IsDigit (Char.ofNat n) := by
  decide

/-- The last byte of a character beyond ASCII. -/
theorem last_mem_utf8EncodeChar (h : 128 ≤ c.toNat) :
    UInt8.ofNat (c.toNat % 64 + 128) ∈ String.utf8EncodeChar c := by
  have hv : ¬ c.val.toNat ≤ 127 := Nat.not_le_of_lt h
  change UInt8.ofNat (c.val.toNat % 64 + 128) ∈ String.utf8EncodeChar c
  simp only [String.utf8EncodeChar, hv, ↓reduceIte]
  split
  · simp
  · split <;> simp

theorem isDigitByte_lt {b : UInt8} (h : isDigitByte b = true) : b.toNat < 128 := by
  simp only [isDigitByte, Bool.or_eq_true, Bool.and_eq_true, decide_eq_true_eq,
    UInt8.le_iff_toNat_le, UInt8.reduceToNat] at h
  omega

theorem isDigit_bytes_iff : (∀ b ∈ String.utf8EncodeChar c, isDigitByte b = true) ↔ IsDigit c := by
  by_cases hc : c.toNat < 128
  · have h := ascii_bytes c.toNat hc
    rwa [List.all_eq_true, Char.ofNat_toNat] at h
  · refine iff_of_false (fun h => ?_) fun h => hc h.toNat_lt
    have hlt := isDigitByte_lt (h _ (last_mem_utf8EncodeChar (Nat.le_of_not_lt hc)))
    rw [UInt8.toNat_ofNat'] at hlt
    omega

end Text.Hex

/-- The text from one offset to another, both counted in bytes; none where an offset is within a
character or beyond the end. -/
def Text.cut? (text : String) (start stop : Nat) : Option String := do
  let first ← text.pos? ⟨start⟩
  let last ← text.pos? ⟨stop⟩
  let slice ← text.slice? first last
  return slice.copy

theorem Text.exists_pos {text s t : String} (h : text = s ++ t) :
    ∃ p, text.pos? ⟨s.utf8ByteSize⟩ = some p ∧ p.Splits s t := by
  have hvalid : String.Pos.Raw.IsValid text ⟨s.utf8ByteSize⟩ :=
    String.Pos.Raw.isValid_iff_exists_append.mpr ⟨s, t, h, rfl⟩
  refine ⟨⟨⟨s.utf8ByteSize⟩, hvalid⟩, ?_, h, rfl⟩
  unfold String.pos? String.Slice.pos?
  rw [dif_pos (by simpa using hvalid)]
  rfl

theorem Text.cut?_append (s t u : String) :
    cut? (s ++ (t ++ u)) s.utf8ByteSize (s ++ t).utf8ByteSize = some t := by
  obtain ⟨p, hp, hfirst⟩ := exists_pos (rfl : s ++ (t ++ u) = s ++ (t ++ u))
  have hassoc : s ++ (t ++ u) = (s ++ t) ++ u := String.append_assoc.symm
  obtain ⟨q, hq, hlast⟩ := exists_pos hassoc
  obtain ⟨hle, hcopy⟩ := String.copy_slice_eq_iff_splits.mpr ⟨s, u, hfirst, hlast⟩
  simp only [cut?, hp, hq, Option.bind_eq_bind, Option.bind_some, String.slice?, dif_pos hle,
    hcopy, Option.pure_def]

namespace Device.Identifier

open Text.Hex

variable {n : Nat} {text : String} {cs : List Char} {id : Identifier n} {f : Fault}

/-- Two digits for each of `n` bytes, in either case. -/
def IsDigits (n : Nat) (text : String) : Prop :=
  text.toList.length = 2 * n ∧ ∀ c ∈ text.toList, IsDigit c

/-- Reads a text byte by byte: its bytes are counted, then each is tested, and then the text is cut
into pieces of two bytes. None stands for a cut that goes through a character. -/
def parseBytes (n : Nat) (text : String) : Option (Except Fault (Identifier n)) :=
  if text.utf8ByteSize ≠ 2 * n then some (.error (.wrongLength (2 * n) text.utf8ByteSize))
  else if (Utf8.encode text).all isDigitByte then do
    let pieces ← (List.range n).mapM fun i => cut? text (2 * i) (2 * i + 2)
    match pieces.mapM readByte with
    | some bytes => if h : bytes.length = n then some (.ok ⟨bytes, h⟩) else none
    | none => some (.error (.badDigit text))
  else some (.error (.badDigit text))

theorem utf8ByteSize_eq_length (h : ∀ c ∈ text.toList, IsDigit c) :
    text.utf8ByteSize = text.toList.length := by
  have hsize := utf8ByteSize_ofList fun c hc => utf8Size_of_isDigit (h c hc)
  rwa [String.ofList_toList] at hsize

theorem IsDigits.size (h : IsDigits n text) : text.utf8ByteSize = 2 * n :=
  (utf8ByteSize_eq_length h.2).trans h.1

theorem IsDigits.exists_decode (h : IsDigits n text) :
    ∃ id : Identifier n, decode text.toList = some id.bytes := by
  obtain ⟨bytes, hbytes⟩ := Hex.exists_decode h.2 h.1
  have hlength := (of_decode hbytes).2.1
  exact ⟨⟨bytes, by have := h.1; omega⟩, hbytes⟩

theorem render_of_decode (h : decode text.toList = some id.bytes) : id.render = text.toLower := by
  have hlower : text.toLower.toList = text.toList.map Char.toLower := String.toList_map
  apply String.toList_inj.mp
  rw [render, String.toList_ofList, (of_decode h).2.2, hlower]

theorem render_injective {id' : Identifier n} (h : id.render = id'.render) : id = id' := by
  have hparse := parse_render id
  rw [h, parse_render] at hparse
  exact (Except.ok.inj hparse).symm

theorem parse_of_decode (hs : text.utf8ByteSize = 2 * n)
    (h : decode text.toList = some id.bytes) : parse n text = .ok id := by
  rw [parse, if_pos hs, h]
  simp [id.size_eq]

theorem parse_wrongLength (hs : text.utf8ByteSize ≠ 2 * n) :
    parse n text = .error (.wrongLength (2 * n) text.utf8ByteSize) := by
  rw [parse, if_neg hs]

theorem parse_badDigit (hs : text.utf8ByteSize = 2 * n) (hd : ¬ IsDigits n text) :
    parse n text = .error (.badDigit text) := by
  rw [parse, if_pos hs]
  cases hdecode : decode text.toList with
  | none => rfl
  | some bytes =>
    have hdigits := (of_decode hdecode).1
    exact absurd ⟨(utf8ByteSize_eq_length hdigits).symm.trans hs, hdigits⟩ hd

/-- An identifier is read from its digits, and written as them in lower case. -/
theorem parse_eq_ok_iff : parse n text = .ok id ↔ IsDigits n text ∧ id.render = text.toLower := by
  constructor
  · intro h
    by_cases hs : text.utf8ByteSize = 2 * n
    · by_cases hd : IsDigits n text
      · obtain ⟨id', hdecode⟩ := hd.exists_decode
        rw [parse_of_decode hs hdecode] at h
        obtain rfl := Except.ok.inj h
        exact ⟨hd, render_of_decode hdecode⟩
      · rw [parse_badDigit hs hd] at h
        cases h
    · rw [parse_wrongLength hs] at h
      cases h
  · rintro ⟨hd, hrender⟩
    obtain ⟨id', hdecode⟩ := hd.exists_decode
    obtain rfl := render_injective ((render_of_decode hdecode).trans hrender.symm)
    exact parse_of_decode hd.size hdecode

theorem parse_eq_error_iff : parse n text = .error f ↔
    (text.utf8ByteSize ≠ 2 * n ∧ f = .wrongLength (2 * n) text.utf8ByteSize) ∨
      (text.utf8ByteSize = 2 * n ∧ ¬ IsDigits n text ∧ f = .badDigit text) := by
  by_cases hs : text.utf8ByteSize = 2 * n
  · by_cases hd : IsDigits n text
    · obtain ⟨id, hdecode⟩ := hd.exists_decode
      simp [parse_of_decode hs hdecode, hs, hd]
    · simp [parse_badDigit hs hd, hs, hd, eq_comm]
  · simp [parse_wrongLength hs, hs, eq_comm]

theorem readByte_pair {c d : Char} {high low : Nat} (hc : digitValue c = some high)
    (hd : digitValue d = some low) :
    readByte (String.ofList [c, d]) = some (UInt8.ofNat (16 * high + low)) := by
  have hhigh := (of_digitValue hc).1
  have hlow := (of_digitValue hd).1
  have hmagnitude : readMagnitude 0 [c, d] = some (16 * high + low) := by
    have hfirst : 16 * 0 + high ≤ 255 := by omega
    have hboth : 16 * (16 * 0 + high) + low ≤ 255 := by omega
    simp only [readMagnitude, hc, hd, Option.bind_eq_bind, Option.bind_some, hfirst, hboth,
      ↓reduceIte]
    rw [Nat.mul_zero, Nat.zero_add]
  rw [readByte, String.toList_ofList]
  split
  · next h => cases h
  · next h => cases h
  · next h =>
    cases h
    cases hc
  · rw [hmagnitude]
    rfl

/-- Two of the characters, behind `i` times two. -/
def pairAt (cs : List Char) (i : Nat) : String := String.ofList ((cs.drop (2 * i)).take 2)

/-- Reading the pairs one by one is reading them all. -/
theorem mapM_readByte (hd : ∀ c ∈ cs, IsDigit c) (hl : cs.length = 2 * n) :
    ((List.range n).map (pairAt cs)).mapM readByte = decode cs := by
  induction n generalizing cs with
  | zero =>
    obtain rfl := List.length_eq_zero_iff.mp hl
    rfl
  | succ n ih =>
    match cs with
    | [] | [_] =>
      simp only [List.length_cons, List.length_nil] at hl
      omega
    | c :: d :: rest =>
      simp only [List.forall_mem_cons] at hd
      obtain ⟨high, hhigh⟩ := isDigit_iff.mp hd.1
      obtain ⟨low, hlow⟩ := isDigit_iff.mp hd.2.1
      have hrest : rest.length = 2 * n := by
        simp only [List.length_cons] at hl
        omega
      have hfirst : pairAt (c :: d :: rest) 0 = String.ofList [c, d] := rfl
      have hothers : ((List.range n).map Nat.succ).map (pairAt (c :: d :: rest)) =
          (List.range n).map (pairAt rest) := by
        rw [List.map_map]
        rfl
      rw [List.range_succ_eq_map, List.map_cons, hothers, List.mapM_cons, ih hd.2.2 hrest, hfirst,
        readByte_pair hhigh hlow, decode, hhigh, hlow]
      rfl

/-- Digits are single bytes, so that cuts at bytes are cuts at characters. -/
theorem cut?_of_digits (h : IsDigits n text) {i : Nat} (hi : i < n) :
    cut? text (2 * i) (2 * i + 2) = some (pairAt text.toList i) := by
  obtain ⟨hlength, hdigits⟩ := h
  have hsize {cs : List Char} (hcs : ∀ c ∈ cs, c ∈ text.toList) :
      (String.ofList cs).utf8ByteSize = cs.length :=
    utf8ByteSize_ofList fun c hc => utf8Size_of_isDigit (hdigits c (hcs c hc))
  have hbehind : ((text.toList.drop (2 * i)).take 2).length = 2 := by
    rw [List.length_take, List.length_drop]
    omega
  have hstart : (String.ofList (text.toList.take (2 * i))).utf8ByteSize = 2 * i := by
    rw [hsize fun c => List.mem_of_mem_take, List.length_take]
    omega
  have hpair : (pairAt text.toList i).utf8ByteSize = 2 := by
    rw [pairAt, hsize fun c hc => List.mem_of_mem_drop (List.mem_of_mem_take hc), hbehind]
  have htext : text = String.ofList (text.toList.take (2 * i)) ++
      (pairAt text.toList i ++ String.ofList ((text.toList.drop (2 * i)).drop 2)) := by
    rw [pairAt, ← String.ofList_append, List.take_append_drop, ← String.ofList_append,
      List.take_append_drop, String.ofList_toList]
  have hcut := cut?_append (String.ofList (text.toList.take (2 * i))) (pairAt text.toList i)
    (String.ofList ((text.toList.drop (2 * i)).drop 2))
  rwa [← htext, String.utf8ByteSize_append, hstart, hpair] at hcut

theorem mapM_eq_some {α β : Type} {g : α → Option β} {g' : α → β} {l : List α}
    (h : ∀ a ∈ l, g a = some (g' a)) : l.mapM g = some (l.map g') := by
  induction l with
  | nil => rfl
  | cons a l ih =>
    obtain ⟨ha, h⟩ := List.forall_mem_cons.mp h
    rw [List.mapM_cons, ha, ih h]
    rfl

theorem all_isDigitByte_iff :
    (Utf8.encode text).all isDigitByte = true ↔ ∀ c ∈ text.toList, IsDigit c := by
  simp only [Utf8.encode, List.all_eq_true, List.mem_flatMap, forall_exists_index, and_imp,
    ← isDigit_bytes_iff]
  exact ⟨fun h c hc b hb => h b c hc hb, fun h b c hc hb => h c hc b hb⟩

/-- Byte by byte the same is read, and no cut goes through a character. -/
theorem parseBytes_eq (n : Nat) (text : String) : parseBytes n text = some (parse n text) := by
  unfold parseBytes
  by_cases hs : text.utf8ByteSize = 2 * n
  · rw [if_neg (not_not_intro hs)]
    by_cases hd : ∀ c ∈ text.toList, IsDigit c
    · have hdigits : IsDigits n text := ⟨(utf8ByteSize_eq_length hd).symm.trans hs, hd⟩
      obtain ⟨id, hdecode⟩ := hdigits.exists_decode
      have hpieces := mapM_eq_some fun i hi => cut?_of_digits hdigits (List.mem_range.mp hi)
      have hbytes := mapM_readByte hd hdigits.1
      rw [if_pos (all_isDigitByte_iff.mpr hd), hpieces, parse_of_decode hs hdecode]
      simp only [Option.bind_eq_bind, Option.bind_some, hbytes, hdecode, id.size_eq, ↓reduceDIte]
    · rw [if_neg (mt all_isDigitByte_iff.mp hd), parse_badDigit hs fun h => hd h.2]
  · rw [if_pos hs, parse_wrongLength hs]

/-- Two texts are read as one identifier when they differ in case only. -/
theorem parse_same_iff {text' : String} :
    (∃ id, parse n text = .ok id ∧ parse n text' = .ok id) ↔
      IsDigits n text ∧ IsDigits n text' ∧ text.toLower = text'.toLower := by
  simp only [parse_eq_ok_iff]
  constructor
  · rintro ⟨id, ⟨hd, hrender⟩, hd', hrender'⟩
    exact ⟨hd, hd', hrender.symm.trans hrender'⟩
  · rintro ⟨hd, hd', hsame⟩
    obtain ⟨id, hdecode⟩ := hd.exists_decode
    have hrender := render_of_decode hdecode
    exact ⟨id, ⟨hd, hrender⟩, hd', hrender.trans hsame⟩

/-- Just twice as many digits as there are bytes are read as an identifier. Whatever is written is
read back, and whatever is read is written in lower case. -/
theorem parse_exact (n : Nat) :
    (∀ text, (∃ id, parse n text = .ok id) ↔ IsDigits n text) ∧
      (∀ text f, parse n text = .error f ↔
        (text.utf8ByteSize ≠ 2 * n ∧ f = .wrongLength (2 * n) text.utf8ByteSize) ∨
          (text.utf8ByteSize = 2 * n ∧ ¬ IsDigits n text ∧ f = .badDigit text)) ∧
      (∀ text, parseBytes n text = some (parse n text)) ∧
      (∀ id : Identifier n, parse n id.render = .ok id) ∧
      (∀ text id, parse n text = .ok id ↔ IsDigits n text ∧ id.render = text.toLower) ∧
      ∀ text text', (∃ id, parse n text = .ok id ∧ parse n text' = .ok id) ↔
        IsDigits n text ∧ IsDigits n text' ∧ text.toLower = text'.toLower := by
  refine ⟨fun text => ?_, fun _ _ => parse_eq_error_iff, parseBytes_eq n, parse_render,
    fun _ _ => parse_eq_ok_iff, fun _ _ => parse_same_iff⟩
  constructor
  · rintro ⟨id, h⟩
    exact (parse_eq_ok_iff.mp h).1
  · intro h
    obtain ⟨id, hdecode⟩ := h.exists_decode
    exact ⟨id, parse_of_decode h.size hdecode⟩

/-- One character of two bytes has the length of an identifier of one byte. -/
example : parse 1 "é" = .error (.badDigit "é") ∧ cut? "é" 0 1 = none := by cbv

end Device.Identifier

end Uplink
