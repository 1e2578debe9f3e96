namespace Uplink.Number

def wordMax : Nat := 18446744073709551615

def intMax : Nat := 9223372036854775807

example : wordMax = UInt64.size - 1 ∧ wordMax = 2 * intMax + 1 := by decide

end Uplink.Number
