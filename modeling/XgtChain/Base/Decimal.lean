import Mathlib.Data.List.Basic
import Mathlib.Algebra.Ring.Nat

/-!
# Decimal numerals of a fixed width

`decimal k n` writes a number with `k + 1` digits, from the last digit to the first, and `parseDecimal`
reads digits from the first to the last.
-/

namespace Base

open List

def digitChar (d : Nat) : Char := Char.ofNat (d + 48)

def decimal : Nat → Nat → List Char
  | 0, n => [digitChar n]
  | k + 1, n => decimal k (n / 10) ++ [digitChar (n % 10)]

def digitValue? (c : Char) : Option Nat :=
  if 48 ≤ c.toNat ∧ c.toNat ≤ 57 then some (c.toNat - 48) else none

def pushDigit (n : Nat) (c : Char) : Option Nat := (digitValue? c).map (n * 10 + ·)

def parseDecimal (cs : List Char) : Option Nat :=
  if cs = [] then none else cs.foldlM pushDigit 0

theorem toNat_digitChar {d : Nat} (h : d < 10) : (digitChar d).toNat = d + 48 := by
  have hvalid : (d + 48).isValidChar := Or.inl (by omega)
  unfold digitChar Char.ofNat
  rw [dif_pos hvalid]
  change (UInt32.ofNatLT (d + 48) _).toNat = d + 48
  rw [UInt32.toNat_ofNatLT]

theorem digitValue?_digitChar {d : Nat} (h : d < 10) : digitValue? (digitChar d) = some d := by
  unfold digitValue?
  rw [toNat_digitChar h, if_pos (by omega), Nat.add_sub_cancel]

theorem length_decimal (k n : Nat) : (decimal k n).length = k + 1 := by
  induction k generalizing n with
  | zero => rfl
  | succ k ih => rw [decimal, length_append, ih, length_singleton]

variable {k n : Nat}

theorem digitValue?_of_mem {c : Char} (h : n < 10 ^ (k + 1)) (hc : c ∈ decimal k n) :
    (digitValue? c).isSome := by
  induction k generalizing n with
  | zero =>
    rw [Nat.zero_add, pow_one] at h
    rw [mem_singleton.1 hc, digitValue?_digitChar h]
    rfl
  | succ k ih =>
    rcases mem_append.1 hc with hc | hc
    · refine ih ?_ hc
      rw [pow_succ] at h
      omega
    · rw [mem_singleton.1 hc, digitValue?_digitChar (Nat.mod_lt _ (by decide))]
      rfl

theorem foldlM_decimal (acc : Nat) (h : n < 10 ^ (k + 1)) :
    (decimal k n).foldlM pushDigit acc = some (acc * 10 ^ (k + 1) + n) := by
  induction k generalizing n with
  | zero =>
    rw [Nat.zero_add, pow_one] at h
    simp [decimal, pushDigit, digitValue?_digitChar h]
  | succ k ih =>
    have hlow : n / 10 < 10 ^ (k + 1) := by
      rw [pow_succ] at h
      omega
    have hlast : n % 10 < 10 := Nat.mod_lt _ (by decide)
    have hsum : (acc * 10 ^ (k + 1) + n / 10) * 10 + n % 10 = acc * 10 ^ (k + 1 + 1) + n := by
      rw [pow_succ 10 (k + 1), add_mul, mul_assoc, add_assoc, Nat.div_add_mod']
    rw [decimal, foldlM_append, ih hlow]
    simp [pushDigit, digitValue?_digitChar hlast, hsum]

theorem parseDecimal_decimal (h : n < 10 ^ (k + 1)) : parseDecimal (decimal k n) = some n := by
  have hne : decimal k n ≠ [] := fun hnil => by
    have hlength := length_decimal k n
    rw [hnil] at hlength
    cases hlength
  rw [parseDecimal, if_neg hne, foldlM_decimal 0 h, Nat.zero_mul, Nat.zero_add]

end Base
