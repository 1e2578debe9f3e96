import Uplink.Device.Identifier
import Uplink.Text.Base64
import Uplink.Text.Decimal
import Uplink.Text.Utf8

namespace Uplink

open Text

namespace Text.Decimal

variable {n limit acc m : Nat} {cs more : List Char} {beyond : Fault}

theorem digitValue_digitChar : ∀ d < 10, digitValue (digitChar d) = some d := by decide

theorem isDigit_digitChar : ∀ d < 10, (digitChar d).isDigit = true := by decide

theorem digitChar_ne_zero : ∀ d < 10, d ≠ 0 → digitChar d ≠ '0' := by decide

theorem isDigit_of_mem_digits (n : Nat) : ∀ c ∈ digits n, c.isDigit = true := by
  fun_induction digits n with
  | case1 n h => simpa using isDigit_digitChar n h
  | case2 n h ih =>
    intro c hc
    rcases List.mem_append.mp hc with hc | hc
    · exact ih c hc
    · obtain rfl := List.mem_singleton.mp hc
      exact isDigit_digitChar _ (by omega)

theorem mem_ofInt {c : Char} {i : Int} (hc : c ∈ ofInt i) : c = '-' ∨ c.isDigit = true := by
  cases i with
  | ofNat n => exact .inr (isDigit_of_mem_digits n c hc)
  | negSucc n => exact (List.mem_cons.mp hc).imp_right (isDigit_of_mem_digits (n + 1) c)

theorem digits_ne_nil (n : Nat) : digits n ≠ [] := by
  rw [digits]
  split <;> simp

theorem ofInt_ne_nil (i : Int) : ofInt i ≠ [] := by
  cases i with
  | ofNat n => exact digits_ne_nil n
  | negSucc n => exact List.cons_ne_nil _ _

/-- Only zero starts with a zero. -/
theorem digits_head (h : n ≠ 0) : ∃ c cs, digits n = c :: cs ∧ c ≠ '0' := by
  fun_induction digits n with
  | case1 n hn => exact ⟨_, [], rfl, digitChar_ne_zero n hn h⟩
  | case2 n hn ih =>
    obtain ⟨c, cs, hc, hz⟩ := ih (by omega)
    exact ⟨c, cs ++ [digitChar (n % 10)], by rw [hc]; rfl, hz⟩

/-- A reader that takes in one digit after another takes in the digits of a number as that
number. -/
theorem digits_induction {P : Nat → List Char → Prop} (h0 : ∀ d < 10, P d [digitChar d])
    (hs : ∀ n d cs, d < 10 → P n cs → P (10 * n + d) (cs ++ [digitChar d])) (n : Nat) :
    P n (digits n) := by
  fun_induction digits n with
  | case1 n h => exact h0 n h
  | case2 n h ih =>
    have hn : 10 * (n / 10) + n % 10 = n := by omega
    have hp := hs (n / 10) (n % 10) _ (by omega) ih
    rwa [hn] at hp

theorem readMagnitude_append (h : readMagnitude limit beyond acc cs = .ok m) (more : List Char) :
    readMagnitude limit beyond acc (cs ++ more) = readMagnitude limit beyond m more := by
  induction cs generalizing acc with
  | nil =>
    obtain rfl : acc = m := by simpa [readMagnitude] using h
    rfl
  | cons c cs ih =>
    rw [readMagnitude] at h
    rw [List.cons_append, readMagnitude]
    split at h
    · cases h
    · split at h
      · rename_i hc hl
        simp only [hl, ↓reduceIte]
        exact ih h
      · cases h

theorem readMagnitude_digits (beyond : Fault) (h : n ≤ limit) :
    readMagnitude limit beyond 0 (digits n) = .ok n := by
  refine digits_induction (P := fun n cs => n ≤ limit → readMagnitude limit beyond 0 cs = .ok n)
    ?_ ?_ n h
  · intro d hd hl
    simp [readMagnitude, digitValue_digitChar d hd, hl]
  · intro n d cs hd ih hl
    rw [readMagnitude_append (ih (by omega))]
    simp [readMagnitude, digitValue_digitChar d hd, hl]

theorem readDigits_digits (beyond : Fault) (h : n ≤ limit) :
    readDigits limit beyond (digits n) = .ok n := by
  have hread := readMagnitude_digits beyond h
  cases hd : digits n with
  | nil => exact absurd hd (digits_ne_nil n)
  | cons c cs => rwa [hd] at hread

theorem digits_injective {m n : Nat} (h : digits m = digits n) : m = n := by
  have hm := readDigits_digits .tooLarge (Nat.le_max_left m n)
  rw [h, readDigits_digits .tooLarge (Nat.le_max_right m n)] at hm
  exact (Except.ok.inj hm).symm

theorem length_digits_le (n : Nat) : (digits n).length ≤ n + 1 := by
  fun_induction digits n with
  | case1 n h => simp
  | case2 n h ih =>
    rw [List.length_append, List.length_singleton]
    omega

theorem readInt_ofInt {high : Nat} {i : Int} (hl : -((high : Int) + 1) ≤ i) (hh : i ≤ high) :
    readInt high (ofInt i) = .ok i := by
  cases i with
  | ofNat n =>
    have hread := readDigits_digits .tooLarge (show n ≤ high by simpa using hh)
    rw [ofInt]
    cases hd : digits n with
    | nil => exact absurd hd (digits_ne_nil n)
    | cons c cs =>
      have hc : c.isDigit = true := isDigit_of_mem_digits n c (hd ▸ List.mem_cons_self)
      rw [hd] at hread
      unfold readInt
      split
      · rename_i heq
        cases heq
      · rename_i heq
        cases heq
        cases hc
      · rename_i heq
        cases heq
        cases hc
      · rw [hread]
        rfl
  | negSucc n =>
    have hread := readDigits_digits .tooSmall (show n + 1 ≤ high + 1 by omega)
    rw [ofInt, readInt, hread]
    rfl

end Text.Decimal

namespace Text.Hex

theorem digitValue_digitChar : ∀ d < 16, digitValue (digitChar d) = some d := by decide

theorem utf8Size_digitChar : ∀ d < 16, (digitChar d).utf8Size = 1 := by decide

theorem decode_encode (bytes : List UInt8) : decode (encode bytes) = some bytes := by
  induction bytes with
  | nil => rfl
  | cons b bytes ih =>
    have hb := b.toNat_lt
    have hhigh := digitValue_digitChar (b.toNat / 16) (by omega)
    have hlow := digitValue_digitChar (b.toNat % 16) (by omega)
    have hsum : 16 * (b.toNat / 16) + b.toNat % 16 = b.toNat := by omega
    rw [encode, List.flatMap_cons, encodeByte, List.cons_append, List.cons_append, List.nil_append,
      decode, hhigh, hlow, ← encode, ih]
    simp only [Option.bind_eq_bind, Option.bind_some, Option.pure_def]
    rw [hsum, UInt8.ofNat_toNat]

theorem exists_of_mem_encode {bytes : List UInt8} {c : Char} (hc : c ∈ encode bytes) :
    ∃ d < 16, c = digitChar d := by
  obtain ⟨b, -, hc⟩ := List.mem_flatMap.mp hc
  have hb := b.toNat_lt
  simp only [encodeByte, List.mem_cons, List.not_mem_nil, or_false] at hc
  rcases hc with rfl | rfl
  · exact ⟨_, by omega, rfl⟩
  · exact ⟨_, by omega, rfl⟩

theorem utf8Size_of_mem_encode (bytes : List UInt8) : ∀ c ∈ encode bytes, c.utf8Size = 1 := by
  intro c hc
  obtain ⟨d, hd, rfl⟩ := exists_of_mem_encode hc
  exact utf8Size_digitChar d hd

theorem length_encode (bytes : List UInt8) : (encode bytes).length = 2 * bytes.length := by
  induction bytes with
  | nil => rfl
  | cons b bytes ih =>
    rw [encode, List.flatMap_cons, ← encode, List.length_append, ih, encodeByte, List.length_cons]
    simp only [List.length_cons, List.length_nil]
    omega

end Text.Hex

namespace Device.Identifier

theorem utf8ByteSize_ofList {cs : List Char} (h : ∀ c ∈ cs, c.utf8Size = 1) :
    (String.ofList cs).utf8ByteSize = cs.length := by
  induction cs with
  | nil => rfl
  | cons c cs ih =>
    obtain ⟨hc, h⟩ := List.forall_mem_cons.mp h
    have happend : String.ofList (c :: cs) = String.ofList [c] ++ String.ofList cs := by
      rw [← String.ofList_append]
      rfl
    rw [happend, String.utf8ByteSize_append, ih h]
    simp [hc, Nat.add_comm]

theorem parse_render {n : Nat} (id : Identifier n) : parse n id.render = .ok id := by
  have hsize : id.render.utf8ByteSize = 2 * n := by
    rw [render, utf8ByteSize_ofList (Hex.utf8Size_of_mem_encode _), Hex.length_encode, id.size_eq]
  rw [parse, if_pos hsize, render, String.toList_ofList, Hex.decode_encode]
  simp [id.size_eq]

end Device.Identifier

namespace Text.Base64

variable {bytes : List UInt8} {vs whole last : List Nat} {offset : Nat} {found : List Nat}

/-- The byte of a symbol. -/
def symbolByte (v : Nat) : UInt8 := UInt8.ofNat (symbol v).toNat

theorem symbol_facts : ∀ v < 64, String.utf8EncodeChar (symbol v) = [symbolByte v] ∧
    symbolValue (symbolByte v) = some v ∧ symbolByte v ≠ pad := by decide

/-- The six-bit numbers that bytes are cut into. -/
def sextets : List UInt8 → List Nat
  | [] => []
  | [a] => [a.toNat / 4, a.toNat % 4 * 16]
  | [a, b] => [a.toNat / 4, a.toNat % 4 * 16 + b.toNat / 16, b.toNat % 16 * 4]
  | a :: b :: c :: rest =>
    a.toNat / 4 :: (a.toNat % 4 * 16 + b.toNat / 16) :: (b.toNat % 16 * 4 + c.toNat / 64)
      :: c.toNat % 64 :: sextets rest

theorem sextets_lt (bytes : List UInt8) : ∀ v ∈ sextets bytes, v < 64 := by
  fun_induction sextets bytes with
  | case1 => simp
  | case2 a =>
    have ha := a.toNat_lt
    simp only [List.mem_cons, List.not_mem_nil, or_false]
    rintro v (rfl | rfl) <;> omega
  | case3 a b =>
    have ha := a.toNat_lt
    have hb := b.toNat_lt
    simp only [List.mem_cons, List.not_mem_nil, or_false]
    rintro v (rfl | rfl | rfl) <;> omega
  | case4 a b c rest ih =>
    have ha := a.toNat_lt
    have hb := b.toNat_lt
    have hc := c.toNat_lt
    simp only [List.mem_cons]
    rintro v (rfl | rfl | rfl | rfl | hv)
    · omega
    · omega
    · omega
    · omega
    · exact ih v hv

/-- Three bytes come back from four six-bit numbers. -/
theorem join_sextets (written bytes : List UInt8) :
    join written (sextets bytes) = written.reverse ++ bytes := by
  fun_induction sextets bytes generalizing written with
  | case1 => simp [join]
  | case2 a =>
    have ha := a.toNat_lt
    have h : a.toNat / 4 * 4 + a.toNat % 4 * 16 / 16 = a.toNat := by omega
    rw [join, h, UInt8.ofNat_toNat, List.reverse_cons]
  | case3 a b =>
    have ha := a.toNat_lt
    have hb := b.toNat_lt
    have h₁ : a.toNat / 4 * 4 + (a.toNat % 4 * 16 + b.toNat / 16) / 16 = a.toNat := by omega
    have h₂ : (a.toNat % 4 * 16 + b.toNat / 16) % 16 * 16 + b.toNat % 16 * 4 / 4 = b.toNat := by
      omega
    rw [join, h₁, h₂, UInt8.ofNat_toNat, UInt8.ofNat_toNat]
    simp
  | case4 a b c rest ih =>
    have ha := a.toNat_lt
    have hb := b.toNat_lt
    have hc := c.toNat_lt
    have h₁ : a.toNat / 4 * 4 + (a.toNat % 4 * 16 + b.toNat / 16) / 16 = a.toNat := by omega
    have h₂ : (a.toNat % 4 * 16 + b.toNat / 16) % 16 * 16
        + (b.toNat % 16 * 4 + c.toNat / 64) / 4 = b.toNat := by omega
    have h₃ : (b.toNat % 16 * 4 + c.toNat / 64) % 4 * 64 + c.toNat % 64 = c.toNat := by omega
    rw [join, h₁, h₂, h₃, UInt8.ofNat_toNat, UInt8.ofNat_toNat, UInt8.ofNat_toNat, ih]
    simp

/-- How many signs fill up the last quad. -/
def padding : List UInt8 → Nat
  | [] => 0
  | [_] => 2
  | [_, _] => 1
  | _ :: _ :: _ :: rest => padding rest

theorem encodeOnto_eq (written : List Char) (bytes : List UInt8) :
    encodeOnto written bytes =
      written.reverse ++ ((sextets bytes).map symbol ++ List.replicate (padding bytes) '=') := by
  fun_induction sextets bytes generalizing written with
  | case1 => simp [encodeOnto, padding]
  | case2 => simp [encodeOnto, padding, List.replicate]
  | case3 => simp [encodeOnto, padding]
  | case4 a b c rest ih =>
    rw [encodeOnto, padding, ih]
    simp

/-- The last quad has a whole byte at least and leaves no loose bits. -/
theorem exists_lastQuad (h : bytes ≠ []) :
    ∃ whole last, sextets bytes = whole ++ last ∧ whole.length % 4 = 0 ∧
      last.length + padding bytes = 4 ∧ 2 ≤ last.length ∧ looseBits last = 0 := by
  fun_induction sextets bytes with
  | case1 => exact absurd rfl h
  | case2 a => exact ⟨[], _, rfl, rfl, rfl, Nat.le_refl 2, by simp [looseBits]⟩
  | case3 a b => exact ⟨[], _, rfl, rfl, rfl, by simp, by simp [looseBits]⟩
  | case4 a b c rest ih =>
    cases rest with
    | nil => exact ⟨[], _, rfl, rfl, rfl, by simp [sextets], rfl⟩
    | cons d rest =>
      obtain ⟨whole, last, hsplit, hwhole, hlast, hsize, hloose⟩ := ih (by simp)
      refine ⟨_ :: _ :: _ :: _ :: whole, last, by rw [hsplit]; rfl, ?_, hlast, hsize, hloose⟩
      simp only [List.length_cons]
      omega

theorem values_map (h : ∀ v ∈ vs, v < 64) :
    values offset found (vs.map symbolByte) = .ok (found.reverse ++ vs) := by
  induction vs generalizing offset found with
  | nil => simp [values]
  | cons v vs ih =>
    obtain ⟨hv, h⟩ := List.forall_mem_cons.mp h
    rw [List.map_cons, values, (symbol_facts v hv).2.1]
    simp only [ih h]
    simp

/-- A text of whole quads is decoded when its last quad is in order. -/
theorem decode_quads {pads : Nat} (hw : ∀ v ∈ whole, v < 64) (hl : ∀ v ∈ last, v < 64)
    (hwhole : whole.length % 4 = 0) (hlast : last.length + pads = 4) (hsize : 2 ≤ last.length)
    (hloose : looseBits last = 0) :
    decode (whole.map symbolByte ++ (last.map symbolByte ++ List.replicate pads pad)) =
      .ok (join [] (whole ++ last)) := by
  generalize htext : whole.map symbolByte ++ (last.map symbolByte ++ List.replicate pads pad) = text
  have hlength : text.length = whole.length + 4 := by
    rw [← htext]
    simp only [List.length_append, List.length_map, List.length_replicate]
    omega
  have hcut : text.length - lastQuad text.length = whole.length := by
    rw [hlength, lastQuad, if_pos (by omega)]
    omega
  have hne : ∀ b ∈ last.map symbolByte, (decide (b ≠ pad)) = true := by
    intro b hb
    obtain ⟨v, hv, rfl⟩ := List.mem_map.mp hb
    simpa using (symbol_facts v (hl v hv)).2.2
  have htake : text.take whole.length = whole.map symbolByte := by
    rw [← htext, List.take_left' (by simp)]
  have hdrop : text.drop whole.length = last.map symbolByte ++ List.replicate pads pad := by
    rw [← htext, List.drop_left' (by simp)]
  have hsymbols : (text.drop whole.length).takeWhile (· ≠ pad) = last.map symbolByte := by
    rw [hdrop, List.takeWhile_append_of_pos hne]
    cases pads <;> simp [List.replicate]
  have hpadding : (text.drop whole.length).dropWhile (· ≠ pad) = List.replicate pads pad := by
    rw [hdrop, List.dropWhile_append_of_pos hne]
    cases pads <;> simp [List.replicate]
  have hlt : ¬ last.length < 2 := by omega
  unfold decode
  simp only [hcut, htake, hsymbols, hpadding, values_map hw, values_map hl]
  have hmod : ¬ text.length % 4 = 1 := by omega
  simp [hmod, hloose, hlt, bind, Except.bind, pure, Except.pure]

theorem utf8_symbols (h : ∀ v ∈ vs, v < 64) :
    (vs.map symbol).flatMap String.utf8EncodeChar = vs.map symbolByte := by
  induction vs with
  | nil => rfl
  | cons v vs ih =>
    obtain ⟨hv, h⟩ := List.forall_mem_cons.mp h
    rw [List.map_cons, List.flatMap_cons, (symbol_facts v hv).1, ih h]
    rfl

theorem decode_encode (bytes : List UInt8) : decode (Utf8.encode (encode bytes)) = .ok bytes := by
  by_cases hbytes : bytes = []
  · subst hbytes
    rfl
  obtain ⟨whole, last, hsplit, hwhole, hlast, hsize, hloose⟩ := exists_lastQuad hbytes
  have hlt : ∀ v ∈ whole ++ last, v < 64 := hsplit ▸ sextets_lt bytes
  have hpads : ∀ n, (List.replicate n '=').flatMap String.utf8EncodeChar = List.replicate n pad := by
    intro n
    induction n with
    | zero => rfl
    | succ n ih =>
      rw [List.replicate_succ, List.flatMap_cons, ih]
      rfl
  have htext : Utf8.encode (encode bytes) =
      whole.map symbolByte ++ (last.map symbolByte ++ List.replicate (padding bytes) pad) := by
    rw [Utf8.encode, encode, String.toList_ofList, encodeOnto_eq, List.reverse_nil, List.nil_append,
      hsplit, List.flatMap_append, utf8_symbols hlt, hpads, List.map_append, List.append_assoc]
  rw [htext, decode_quads (fun v hv => hlt v (List.mem_append_left _ hv))
    (fun v hv => hlt v (List.mem_append_right _ hv)) hwhole hlast hsize hloose, ← hsplit,
    join_sextets]
  rfl

end Text.Base64

end Uplink
