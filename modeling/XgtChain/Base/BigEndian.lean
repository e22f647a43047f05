import XgtChain.Base.Records

/-!
# Big endian numbers

`beNat` reads bytes as a number with the most significant byte first.
-/

namespace Base

def beNat (l : Bytes) : Nat := leNat l.reverse

theorem leNat_append (a b : Bytes) : leNat (a ++ b) = leNat a + 256 ^ a.length * leNat b := by
  induction a with
  | nil => simp [leNat]
  | cons c a ih =>
    rw [List.cons_append, leNat, ih, leNat, List.length_cons, pow_succ', mul_add, mul_assoc, add_assoc]

theorem beNat_cons (c : UInt8) (l : Bytes) : beNat (c :: l) = c.toNat * 256 ^ l.length + beNat l := by
  simp [beNat, leNat_append, leNat, mul_comm, add_comm]

theorem beNat_lt (l : Bytes) : beNat l < 256 ^ l.length := by
  induction l with
  | nil => decide
  | cons c l ih =>
    have hc : c.toNat + 1 ≤ 256 := c.toNat_lt
    have hmul := Nat.mul_le_mul_right (256 ^ l.length) hc
    rw [beNat_cons, List.length_cons, pow_succ']
    rw [Nat.add_mul] at hmul
    omega

end Base
