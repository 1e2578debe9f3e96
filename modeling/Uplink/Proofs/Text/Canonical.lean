import Uplink.Proofs.Text.RoundTrip

namespace Uplink.Text.Decimal

variable {c : Char} {d n m acc limit high : Nat} {i : Int} {cs : List Char} {beyond : Fault}

/-- How a whole number begins when it is written: it has no plus, its digits start with a zero only
when it is zero, and zero has no minus. -/
inductive Canonical : List Char → Prop where
  | zero : Canonical ['0']
  | positive (c : Char) (cs : List Char) (digit : c.isDigit = true) (nonzero : c ≠ '0') :
    Canonical (c :: cs)
  | negative (c : Char) (cs : List Char) (digit : c.isDigit = true) (nonzero : c ≠ '0') :
    Canonical ('-' :: c :: cs)

theorem of_digitValue (h : digitValue c = some d) :
    d < 10 ∧ digitChar d = c ∧ (d = 0 → c = '0') := by
  rw [digitValue] at h
  split at h
  · next hc =>
    have hc' : '0'.toNat ≤ c.toNat ∧ c.toNat ≤ '9'.toNat := by
      simpa [Char.isDigit, Char.le_def, UInt32.le_iff_toNat_le] using hc
    have hlow : '0'.toNat = 48 := rfl
    have hhigh : '9'.toNat = 57 := rfl
    obtain rfl := Option.some.inj h
    have hchar : digitChar (c.toNat - '0'.toNat) = c := by
      rw [digitChar, Nat.add_sub_cancel' hc'.1, Char.ofNat_toNat]
    refine ⟨by omega, hchar, fun hz => ?_⟩
    rw [← hchar, hz]
    rfl
  · cases h

theorem ofInt_zero : ofInt 0 = ['0'] := by
  change digits 0 = ['0']
  rw [digits]
  rfl

theorem digits_ten_mul_add (hn : n ≠ 0) (hd : d < 10) :
    digits (10 * n + d) = digits n ++ [digitChar d] := by
  have hdiv : (10 * n + d) / 10 = n := by omega
  have hmod : (10 * n + d) % 10 = d := by omega
  rw [digits, if_neg (by omega), hdiv, hmod]

theorem digits_of_readMagnitude (h : readMagnitude limit beyond acc cs = .ok m) (ha : acc ≠ 0) :
    digits m = digits acc ++ cs := by
  induction cs generalizing acc with
  | nil =>
    obtain rfl : acc = m := by simpa [readMagnitude] using h
    simp
  | cons c cs ih =>
    rw [readMagnitude] at h
    split at h
    · cases h
    · next d hd =>
      split at h
      · obtain ⟨hlt, hchar, -⟩ := of_digitValue hd
        rw [ih h (by omega), digits_ten_mul_add ha hlt, hchar]
        simp
      · cases h

/-- Digits that do not start with a zero are those that their number is written with. -/
theorem digits_of_readDigits (h : readDigits limit beyond (c :: cs) = .ok m) (hz : c ≠ '0') :
    digits m = c :: cs ∧ m ≠ 0 := by
  rw [readDigits, readMagnitude] at h
  split at h
  · cases h
  · next d hd =>
    split at h
    · obtain ⟨hlt, hchar, hzero⟩ := of_digitValue hd
      have hd0 : 10 * 0 + d ≠ 0 := fun he => hz (hzero (by omega))
      have hm := digits_of_readMagnitude h hd0
      have hsingle : digits (10 * 0 + d) = [c] := by
        rw [digits, if_pos (by omega), Nat.mul_zero, Nat.zero_add, hchar]
      rw [hsingle] at hm
      refine ⟨hm, ?_⟩
      rintro rfl
      have hc : c = digitChar 0 := (List.cons.inj (hm.symm.trans (by rw [digits]; rfl))).1
      exact hz hc
    · cases h

theorem ofInt_canonical (i : Int) : Canonical (ofInt i) := by
  cases i with
  | ofNat n =>
    by_cases hn : n = 0
    · subst hn
      exact ofInt_zero ▸ .zero
    · obtain ⟨c, cs, hc, hz⟩ := digits_head hn
      rw [ofInt, hc]
      exact .positive c cs (isDigit_of_mem_digits n c (hc ▸ List.mem_cons_self)) hz
  | negSucc n =>
    obtain ⟨c, cs, hc, hz⟩ := digits_head (Nat.succ_ne_zero n)
    rw [ofInt, hc]
    exact .negative c cs (isDigit_of_mem_digits (n + 1) c (hc ▸ List.mem_cons_self)) hz

/-- Of the texts that a whole number is read from, one is written. -/
theorem ofInt_eq_iff (h : readInt high cs = .ok i) : ofInt i = cs ↔ Canonical cs := by
  constructor
  · rintro rfl
    exact ofInt_canonical i
  · intro hc
    cases hc with
    | zero =>
      rw [← ofInt_zero, readInt_ofInt (by omega) (by omega)] at h
      cases h
      exact ofInt_zero
    | positive c cs digit nonzero =>
      unfold readInt at h
      split at h
      · next he => cases he
      · next he => cases he; cases digit
      · next he => cases he; cases digit
      · cases hr : readDigits high .tooLarge (c :: cs) with
        | error y =>
          rw [hr] at h
          cases h
        | ok m =>
          rw [hr] at h
          cases h
          exact (digits_of_readDigits hr nonzero).1
    | negative c cs digit nonzero =>
      rw [readInt] at h
      cases hr : readDigits (high + 1) .tooSmall (c :: cs) with
      | error y =>
        rw [hr] at h
        cases h
      | ok m =>
        rw [hr] at h
        cases h
        obtain ⟨hm, hne⟩ := digits_of_readDigits hr nonzero
        obtain ⟨k, rfl⟩ := Nat.exists_eq_succ_of_ne_zero hne
        exact congrArg ('-' :: ·) hm

end Uplink.Text.Decimal
