import Mathlib.Tactic.Ring
import Mathlib.Data.Nat.ModEq
import XgtChain.Base.While
import XgtChain.Protocol.Types

/-!
# Unsigned integers of 128 bits

`fc::uint128` is a pair of 64-bit words. Its operators are modelled word by word; `toNat` is the number that
a value stands for, `bits` its 128 bits.

* `toNat_add` … `toNat_mul`: the operators are the exact ones modulo `2 ^ 128`.
* `divide_ok`: the bitwise long division behind `%` ends and gives quotient and remainder.
* `operators_agree_iff`: all operators are exact but the binary `|`, which gives its right operand.
-/

namespace Fc

open Base Xgt Nat

/-- `fc::uint128`. -/
structure Uint128 where
  hi : BitVec 64
  lo : BitVec 64
  deriving DecidableEq

namespace Uint128

/-! ## Operators -/

def ofUint64 (l : BitVec 64) : Uint128 := ⟨0, l⟩

def ofInt64 (l : BitVec 64) : Uint128 := ⟨if l.slt 0 then -1 else 0, l⟩

/-- An `int` of the source, such as the literals in the shifts below. -/
def ofInt32 (l : BitVec 32) : Uint128 := ⟨if l.slt 0 then -1 else 0, l.signExtend 64⟩

def eq (u o : Uint128) : Bool := u.hi == o.hi && u.lo == o.lo

def ne (u o : Uint128) : Bool := u.hi != o.hi || u.lo != o.lo

def lt (u o : Uint128) : Bool := if u.hi == o.hi then u.lo < o.lo else u.hi < o.hi

def gt (l r : Uint128) : Bool := r.lt l

def ge (l r : Uint128) : Bool := l.eq r || l.gt r

def le (l r : Uint128) : Bool := l.eq r || l.lt r

variable (u : Uint128) (n : Nat)

def compl : Uint128 := ⟨~~~u.hi, ~~~u.lo⟩

/-- The prefix `++`: `hi += (++lo == 0)`. -/
def inc : Uint128 := ⟨u.hi + if u.lo + 1 = 0 then 1 else 0, u.lo + 1⟩

def neg : Uint128 := u.compl.inc

def add (l u : Uint128) : Uint128 :=
  let old := l.lo
  let lo := l.lo + u.lo
  ⟨l.hi + (u.hi + if lo < old then 1 else 0), lo⟩

def sub (l u : Uint128) : Uint128 := l.add u.neg

def orAssign (l u : Uint128) : Uint128 := ⟨l.hi ||| u.hi, l.lo ||| u.lo⟩

def and (l u : Uint128) : Uint128 := ⟨l.hi &&& u.hi, l.lo &&& u.lo⟩

def xor (l u : Uint128) : Uint128 := ⟨l.hi ^^^ u.hi, l.lo ^^^ u.lo⟩

/-- `friend uint128 operator |`: `uint128(l)=(r)`, an assignment where the others have `&=`, `^=`. -/
def or (_l r : Uint128) : Uint128 := r

def low32Bits : BitVec 32 := u.lo.setWidth 32

def toInteger : Result (BitVec 32) := do
  fcAssert (u.hi = 0) "hi == 0"
  fcAssert (u.lo = u.low32Bits.setWidth 64) "lo == lo32"
  return u.low32Bits

/-- The end of `<<=`, for a count below 64. -/
def shlWords : Uint128 :=
  if n ≠ 0 then
    let mask := ~~~(BitVec.allOnes 64 >>> n)
    ⟨u.hi <<< n ||| (u.lo &&& mask) >>> (64 - n), u.lo <<< n⟩
  else u

/-- `<<=`. Both assertions of `to_integer` hold for the count (`toInteger_of_lt`). -/
def shl (l rhs : Uint128) : Uint128 :=
  if rhs.ge (ofInt64 128#64) then ⟨0, 0⟩
  else
    let n := rhs.low32Bits.toNat
    if 64 ≤ n then shlWords ⟨l.lo, 0⟩ (n - 64) else l.shlWords n

def shrWords : Uint128 :=
  if n ≠ 0 then
    let mask := ~~~(BitVec.allOnes 64 <<< n)
    ⟨u.hi >>> n, u.lo >>> n ||| (u.hi &&& mask) <<< (64 - n)⟩
  else u

def shr (l rhs : Uint128) : Uint128 :=
  if rhs.ge (ofInt64 128#64) then ⟨0, 0⟩
  else
    let n := rhs.low32Bits.toNat
    if 64 ≤ n then shrWords ⟨0, l.hi⟩ (n - 64) else l.shrWords n

def mul (a b : Uint128) : Uint128 :=
  let a0 := (a.lo.setWidth 32).setWidth 64
  let a1 := ((a.lo >>> 0x20).setWidth 32).setWidth 64
  let a2 := (a.hi.setWidth 32).setWidth 64
  let a3 := ((a.hi >>> 0x20).setWidth 32).setWidth 64
  let b0 := (b.lo.setWidth 32).setWidth 64
  let b1 := ((b.lo >>> 0x20).setWidth 32).setWidth 64
  let b2 := (b.hi.setWidth 32).setWidth 64
  let b3 := ((b.hi >>> 0x20).setWidth 32).setWidth 64
  let u : Uint128 := ⟨0, a3 * b0⟩
  let u := ((u.add (ofUint64 (a2 * b1))).add (ofUint64 (a1 * b2))).add (ofUint64 (a0 * b3))
  let u := u.shl (ofInt32 0x20#32)
  let u := ((u.add (ofUint64 (a2 * b0))).add (ofUint64 (a1 * b1))).add (ofUint64 (a0 * b2))
  let u := u.shl (ofInt32 0x20#32)
  let u := (u.add (ofUint64 (a1 * b0))).add (ofUint64 (a0 * b1))
  let u := u.shl (ofInt32 0x20#32)
  u.add (ofUint64 (a0 * b0))

/-- `/=`, by `boost::multiprecision::uint128_t`. -/
def div (a b : Uint128) : Result Uint128 :=
  let self := a.hi.setWidth 128 <<< 64 + a.lo.setWidth 128
  let other := b.hi.setWidth 128 <<< 64 + b.lo.setWidth 128
  if other = 0 then throw ⟨.other, "Division by zero."⟩
  else
    let self := self / other
    return ⟨(self >>> 64).setWidth 64, ((self <<< 64) >>> 64).setWidth 64⟩

/-- The first loop of `divide`, on `x` and `d`. -/
def alignLoop (n : Uint128) : Uint128 × Uint128 → Option (Uint128 × Uint128) :=
  whileLoop (fun (_, d) => n.ge d && ((d.shr (ofInt32 127#32)).and (ofInt32 1#32)).eq (ofInt32 0#32))
    (fun (x, d) => (x.shl (ofInt32 1#32), d.shl (ofInt32 1#32))) 128

/-- The second loop of `divide`, on `n`, `answer`, `x` and `d`. -/
def subtractLoop : Uint128 × Uint128 × Uint128 × Uint128 →
    Option (Uint128 × Uint128 × Uint128 × Uint128) :=
  whileLoop (fun (_, _, x, _) => x.ne (ofInt32 0#32))
    (fun (n, answer, x, d) =>
      if n.ge d then (n.sub d, answer.orAssign x, x.shr (ofInt32 1#32), d.shr (ofInt32 1#32))
      else (n, answer, x.shr (ofInt32 1#32), d.shr (ofInt32 1#32))) 128

/-- Quotient and remainder. The loops run 128 rounds at most (`divide_ok`). -/
def divide (numerator denominator : Uint128) : Result (Uint128 × Uint128) :=
  if denominator.eq (ofInt32 0#32) then throw ⟨.other, "divide by zero"⟩
  else
    let ended := do
      let (x, d) ← alignLoop numerator (ofInt32 1#32, denominator)
      subtractLoop (numerator, ofInt32 0#32, x, d)
    match ended with
    | some (n, answer, _, _) => return (answer, n)
    | none => throw ⟨.other, "the loop has not ended"⟩

def mod (a b : Uint128) : Result Uint128 := do
  let (_, remainder) ← a.divide b
  return remainder

def toNat : Nat := u.hi.toNat * 2 ^ 64 + u.lo.toNat

def bits : BitVec 128 := u.hi ++ u.lo

variable (l r : Uint128)

theorem toNat_lt : u.toNat < 2 ^ 128 := by
  have hhi := u.hi.isLt
  have hlo := u.lo.isLt
  unfold toNat
  omega

theorem toNat_bits : u.bits.toNat = u.toNat := by
  rw [bits, BitVec.toNat_append, ← shiftLeft_add_eq_or_of_lt u.lo.isLt, shiftLeft_eq, toNat]

variable {l r u} {num den k : Nat}

theorem eq_of_toNat (h : l.toNat = r.toNat) : l = r := by
  obtain ⟨lh, ll⟩ := l
  obtain ⟨rh, rl⟩ := r
  have h1 := ll.isLt
  have h2 := rl.isLt
  simp only [toNat] at h
  have hhi : lh = rh := BitVec.eq_of_toNat_eq (by omega)
  have hlo : ll = rl := BitVec.eq_of_toNat_eq (by omega)
  rw [hhi, hlo]

@[simp] theorem toNat_ofUint64 (l : BitVec 64) : (ofUint64 l).toNat = l.toNat := by
  simp [ofUint64, toNat]

theorem eq_iff : l.eq r = true ↔ l.toNat = r.toNat := by
  have hwords : l.eq r = true ↔ l = r := by
    cases l
    cases r
    simp [eq]
  rw [hwords]
  exact ⟨congrArg toNat, eq_of_toNat⟩

theorem ne_iff : l.ne r = true ↔ l.toNat ≠ r.toNat := by
  have hnot : l.ne r = !l.eq r := by simp [ne, eq, bne, Bool.not_and]
  rw [hnot, Bool.not_eq_true', ← Bool.not_eq_true, eq_iff]

theorem lt_iff : l.lt r = true ↔ l.toNat < r.toNat := by
  have h1 := l.lo.isLt
  have h2 := r.lo.isLt
  unfold lt toNat
  by_cases h : l.hi = r.hi
  · simp [h, BitVec.lt_def]
  · have hne : l.hi.toNat ≠ r.hi.toNat := fun he => h (BitVec.eq_of_toNat_eq he)
    simp only [beq_iff_eq, h, ↓reduceIte, decide_eq_true_eq, BitVec.lt_def]
    omega

theorem le_iff : l.le r = true ↔ l.toNat ≤ r.toNat := by
  rw [le, Bool.or_eq_true, eq_iff, lt_iff]
  omega

theorem ge_iff : l.ge r = true ↔ r.toNat ≤ l.toNat := by
  rw [ge, Bool.or_eq_true, eq_iff, gt, lt_iff]
  omega

theorem toNat_add : (l.add r).toNat = (l.toNat + r.toNat) % 2 ^ 128 := by
  have h1 := l.lo.isLt
  have h2 := r.lo.isLt
  have h3 := l.hi.isLt
  have h4 := r.hi.isLt
  unfold add toNat
  by_cases hcarry : l.lo + r.lo < l.lo
  · simp only [hcarry, ↓reduceIte, BitVec.toNat_add]
    simp only [BitVec.lt_def, BitVec.toNat_add] at hcarry
    have : (1 : BitVec 64).toNat = 1 := rfl
    omega
  · simp only [hcarry, ↓reduceIte, BitVec.toNat_add]
    simp only [BitVec.lt_def, BitVec.toNat_add] at hcarry
    have : (0 : BitVec 64).toNat = 0 := rfl
    omega

theorem toNat_neg : u.neg.toNat = (2 ^ 128 - u.toNat) % 2 ^ 128 := by
  have h1 := u.lo.isLt
  have h3 := u.hi.isLt
  unfold neg inc compl toNat
  by_cases hzero : ~~~u.lo + 1 = 0
  · have hlo : u.lo.toNat = 0 := by
      have := congrArg BitVec.toNat hzero
      simp only [BitVec.toNat_add, BitVec.toNat_not] at this
      simp at this
      omega
    simp only [hzero, ↓reduceIte, BitVec.toNat_add, BitVec.toNat_not]
    simp
    omega
  · have hlo : u.lo.toNat ≠ 0 := by
      intro h0
      apply hzero
      apply BitVec.eq_of_toNat_eq
      simp [h0]
    simp only [hzero, ↓reduceIte, BitVec.toNat_add, BitVec.toNat_not]
    simp
    omega

theorem toNat_sub : (l.sub r).toNat = (l.toNat + (2 ^ 128 - r.toNat)) % 2 ^ 128 := by
  rw [sub, toNat_add, toNat_neg, add_mod_mod]

theorem toNat_sub_of_le (h : r.toNat ≤ l.toNat) : (l.sub r).toNat = l.toNat - r.toNat := by
  have hl := l.toNat_lt
  rw [toNat_sub]
  omega

theorem toNat_orAssign : (l.orAssign r).toNat = l.toNat ||| r.toNat := by
  rw [← toNat_bits, ← toNat_bits l, ← toNat_bits r, ← BitVec.toNat_or]
  rw [bits, bits, bits, BitVec.or_append]
  rfl

theorem toNat_and : (l.and r).toNat = l.toNat &&& r.toNat := by
  rw [← toNat_bits, ← toNat_bits l, ← toNat_bits r, ← BitVec.toNat_and]
  rw [bits, bits, bits, BitVec.and_append]
  rfl

theorem toNat_xor : (l.xor r).toNat = l.toNat ^^^ r.toNat := by
  rw [← toNat_bits, ← toNat_bits l, ← toNat_bits r, ← BitVec.toNat_xor]
  rw [bits, bits, bits, BitVec.xor_append]
  rfl

theorem toNat_ofInt64_128 : (ofInt64 128#64).toNat = 128 := by decide

@[simp] theorem toNat_zero : (ofInt32 0#32).toNat = 0 := by decide

@[simp] theorem toNat_one : (ofInt32 1#32).toNat = 1 := by decide

theorem toInteger_of_lt (h : r.toNat < 128) : r.toInteger = .ok r.low32Bits := by
  have hhi : r.hi = 0 := by
    apply BitVec.eq_of_toNat_eq
    simp only [toNat] at h
    simp
    omega
  have hlo : r.lo = r.low32Bits.setWidth 64 := by
    apply BitVec.eq_of_toNat_eq
    simp only [toNat] at h
    simp [low32Bits]
    omega
  simp [toInteger, hhi, ← hlo, fcAssert, ensure]

theorem toNat_low32Bits (h : r.toNat < 128) : r.low32Bits.toNat = r.toNat := by
  simp only [toNat] at h ⊢
  simp only [low32Bits, BitVec.toNat_setWidth]
  omega

theorem bits_shlWords {n : Nat} (h : n < 64) : (u.shlWords n).bits = u.bits <<< n := by
  unfold shlWords bits
  split_ifs with hzero
  · ext i hi
    simp only [BitVec.getElem_append, BitVec.getElem_shiftLeft]
    by_cases h64 : i < 64
    · by_cases hn : i < n
      · simp [h64, hn]
      · simp [h64, hn]
        grind
    · by_cases hn : i - 64 < n
      · simp [h64, hn]
        grind
      · simp [h64, hn]
        grind
  · rw [not_not.1 hzero, BitVec.shiftLeft_zero]

theorem bits_shrWords {n : Nat} (h : n < 64) : (u.shrWords n).bits = u.bits >>> n := by
  unfold shrWords bits
  split_ifs with hzero
  · ext i hi
    simp only [BitVec.getElem_append, BitVec.getElem_ushiftRight, BitVec.getLsbD_append]
    by_cases h64 : i < 64
    · by_cases hn : i + n < 64
      · simp [h64]
        grind
      · simp [h64]
        grind
    · simp [h64]
      grind
  · rw [not_not.1 hzero, BitVec.ushiftRight_zero]

theorem bits_shl : (l.shl r).bits = l.bits <<< r.toNat := by
  unfold shl
  by_cases hbig : 128 ≤ r.toNat
  · rw [if_pos (ge_iff.2 (by rwa [toNat_ofInt64_128])), BitVec.shiftLeft_eq_zero hbig]
    rfl
  · rw [if_neg (by rwa [ge_iff, toNat_ofInt64_128])]
    simp only [toNat_low32Bits (r := r) (by omega)]
    split_ifs with h64
    · have hword : (⟨l.lo, 0⟩ : Uint128).bits = l.bits <<< 64 := by
        unfold bits
        ext i hi
        simp
        grind
      rw [bits_shlWords (by omega), hword, ← BitVec.shiftLeft_add, Nat.add_sub_cancel' h64]
    · exact bits_shlWords (by omega)

theorem bits_shr : (l.shr r).bits = l.bits >>> r.toNat := by
  unfold shr
  by_cases hbig : 128 ≤ r.toNat
  · rw [if_pos (ge_iff.2 (by rwa [toNat_ofInt64_128])), BitVec.ushiftRight_eq_zero hbig]
    rfl
  · rw [if_neg (by rwa [ge_iff, toNat_ofInt64_128])]
    simp only [toNat_low32Bits (r := r) (by omega)]
    split_ifs with h64
    · have hword : (⟨0, l.hi⟩ : Uint128).bits = l.bits >>> 64 := by
        unfold bits
        ext i hi
        simp
        grind
      rw [bits_shrWords (by omega), hword, ← BitVec.shiftRight_add, Nat.add_sub_cancel' h64]
    · exact bits_shrWords (by omega)

theorem toNat_shl : (l.shl r).toNat = l.toNat <<< r.toNat % 2 ^ 128 := by
  rw [← toNat_bits, bits_shl, BitVec.toNat_shiftLeft, toNat_bits]

theorem toNat_shr : (l.shr r).toNat = l.toNat >>> r.toNat := by
  rw [← toNat_bits, bits_shr, BitVec.toNat_ushiftRight, toNat_bits]

theorem mul32 {x y : BitVec 64} (hx : x.toNat < 2 ^ 32) (hy : y.toNat < 2 ^ 32) :
    (x * y).toNat = x.toNat * y.toNat := by
  have hlt : x.toNat * y.toNat < 2 ^ 32 * 2 ^ 32 := mul_lt_mul'' hx hy
  rw [BitVec.toNat_mul, mod_eq_of_lt (by omega)]

theorem toNat_mul : (l.mul r).toNat = l.toNat * r.toNat % 2 ^ 128 := by
  have hlow (w : BitVec 64) : ((w.setWidth 32).setWidth 64).toNat = w.toNat % 2 ^ 32 := by
    simp
    omega
  have hhigh (w : BitVec 64) : (((w >>> 0x20).setWidth 32).setWidth 64).toNat = w.toNat / 2 ^ 32 := by
    have hw := w.isLt
    simp [shiftRight_eq_div_pow]
    omega
  have hhalf (w : BitVec 64) : ((w.setWidth 32).setWidth 64).toNat < 2 ^ 32 := by
    rw [hlow]
    exact mod_lt _ (by decide)
  have hsplit (u : Uint128) : u.toNat = (u.hi.toNat / 2 ^ 32 * 2 ^ 32 + u.hi.toNat % 2 ^ 32) * 2 ^ 64 +
      (u.lo.toNat / 2 ^ 32 * 2 ^ 32 + u.lo.toNat % 2 ^ 32) := by
    rw [div_add_mod', div_add_mod', toNat]
  have hshift : (ofInt32 0x20#32).toNat = 32 := by decide
  have hinit (w : BitVec 64) : (⟨0, w⟩ : Uint128).toNat = w.toNat := toNat_ofUint64 w
  unfold mul
  simp only [toNat_add, toNat_shl, toNat_ofUint64, hshift, hinit, mul32 (hhalf _) (hhalf _)]
  simp only [hhigh]
  simp only [hlow]
  rw [hsplit l, hsplit r]
  generalize l.lo.toNat % 2 ^ 32 = a0
  generalize l.lo.toNat / 2 ^ 32 = a1
  generalize l.hi.toNat % 2 ^ 32 = a2
  generalize l.hi.toNat / 2 ^ 32 = a3
  generalize r.lo.toNat % 2 ^ 32 = b0
  generalize r.lo.toNat / 2 ^ 32 = b1
  generalize r.hi.toNat % 2 ^ 32 = b2
  generalize r.hi.toNat / 2 ^ 32 = b3
  simp only [shiftLeft_eq, mod_add_mod, mod_mul_mod]
  have hproduct : ((a3 * 2 ^ 32 + a2) * 2 ^ 64 + (a1 * 2 ^ 32 + a0)) *
      ((b3 * 2 ^ 32 + b2) * 2 ^ 64 + (b1 * 2 ^ 32 + b0)) =
      ((((a3 * b0 + a2 * b1 + a1 * b2 + a0 * b3) * 2 ^ 32 + a2 * b0 + a1 * b1 + a0 * b2) * 2 ^ 32 +
        a1 * b0 + a0 * b1) * 2 ^ 32 + a0 * b0) +
      2 ^ 128 * (a1 * b3 + a2 * b2 + a3 * b1 + (a2 * b3 + a3 * b2) * 2 ^ 32 + a3 * b3 * 2 ^ 64) := by
    ring
  rw [hproduct, add_mul_mod_self_left]

/-! ### Division -/

theorem wide_eq_bits : u.hi.setWidth 128 <<< 64 + u.lo.setWidth 128 = u.bits := by
  have hhi := u.hi.isLt
  have hlo := u.lo.isLt
  apply BitVec.eq_of_toNat_eq
  rw [toNat_bits, toNat]
  simp [shiftLeft_eq]
  omega

theorem toNat_narrow (q : BitVec 128) :
    (⟨(q >>> 64).setWidth 64, ((q <<< 64) >>> 64).setWidth 64⟩ : Uint128).toNat = q.toNat := by
  have hlt := q.isLt
  simp only [toNat, BitVec.toNat_setWidth, BitVec.toNat_ushiftRight, BitVec.toNat_shiftLeft,
    shiftRight_eq_div_pow, shiftLeft_eq]
  omega

theorem div_ok (h : r.toNat ≠ 0) : ∃ q, l.div r = .ok q ∧ q.toNat = l.toNat / r.toNat := by
  have hne : r.bits ≠ 0 := fun hzero => h (by rw [← toNat_bits, hzero]; rfl)
  unfold div
  simp only [wide_eq_bits, hne, ↓reduceIte]
  refine ⟨_, rfl, ?_⟩
  rw [toNat_narrow, BitVec.toNat_udiv, toNat_bits, toNat_bits]

theorem toNat_double (h : u.toNat < 2 ^ 127) : (u.shl (ofInt32 1#32)).toNat = u.toNat * 2 := by
  rw [toNat_shl, toNat_one, shiftLeft_eq]
  omega

theorem toNat_halve : (u.shr (ofInt32 1#32)).toNat = u.toNat / 2 := by
  rw [toNat_shr, toNat_one, shiftRight_eq_div_pow]

theorem topBit_iff :
    ((u.shr (ofInt32 127#32)).and (ofInt32 1#32)).eq (ofInt32 0#32) = true ↔ u.toNat < 2 ^ 127 := by
  have hlt := u.toNat_lt
  rw [eq_iff, toNat_and, toNat_shr, show (ofInt32 127#32).toNat = 127 by decide, toNat_one, toNat_zero,
    and_one_is_mod, shiftRight_eq_div_pow]
  omega

/-- The first loop ends with the divisor shifted until it is above half of the dividend. -/
theorem alignLoop_ok {n d : Uint128} (hd : d.toNat ≠ 0) :
    ∃ j x d', alignLoop n (ofInt32 1#32, d) = some (x, d') ∧ j < 128 ∧ x.toNat = 2 ^ j ∧
      d'.toNat = d.toNat * 2 ^ j ∧ n.toNat < d.toNat * 2 ^ (j + 1) := by
  -- after `j` rounds `x` is `2 ^ j`, which is not above `d`
  let I (k : Nat) (s : Uint128 × Uint128) : Prop :=
    ∃ j, j + k = 128 ∧ s.1.toNat = 2 ^ j ∧ s.2.toNat = d.toNat * 2 ^ j
  have hle (j : Nat) : 2 ^ j ≤ d.toNat * 2 ^ j := Nat.le_mul_of_pos_left _ (Nat.pos_of_ne_zero hd)
  have hzero : ∀ s, I 0 s →
      (n.ge s.2 && ((s.2.shr (ofInt32 127#32)).and (ofInt32 1#32)).eq (ofInt32 0#32)) = false := by
    rintro s ⟨j, hj, -, hd'⟩
    have hlt := s.2.toNat_lt
    obtain rfl : j = 128 := by omega
    have := hle 128
    omega
  have hstep : ∀ k s, I (k + 1) s →
      (n.ge s.2 && ((s.2.shr (ofInt32 127#32)).and (ofInt32 1#32)).eq (ofInt32 0#32)) = true →
      I k (s.1.shl (ofInt32 1#32), s.2.shl (ofInt32 1#32)) := by
    rintro k s ⟨j, hj, hx, hd'⟩ hc
    have htop := topBit_iff.1 (Bool.and_eq_true_iff.1 hc).2
    refine ⟨j + 1, by omega, ?_, ?_⟩
    · rw [toNat_double (by rw [hx]; have := hle j; omega), hx, pow_succ]
    · rw [toNat_double htop, hd', pow_succ, mul_assoc]
  obtain ⟨k, ⟨x, d'⟩, hend, ⟨j, hj, hx, hd'⟩, hcond⟩ :=
    whileLoop_spec I (k := 128) (s := (ofInt32 1#32, d)) ⟨0, rfl, toNat_one, by simp⟩ (le_refl 128)
      hzero hstep
  have hlt := d'.toNat_lt
  have hn := n.toNat_lt
  refine ⟨j, x, d', hend, ?_, hx, hd', ?_⟩
  · have hpow : 2 ^ j < 2 ^ 128 := lt_of_le_of_lt (hle j) (hd' ▸ hlt)
    exact (Nat.pow_lt_pow_iff_right (by decide)).1 hpow
  · rw [pow_succ, ← mul_assoc, ← hd']
    rcases Bool.and_eq_false_iff.1 hcond with hless | htop
    · have := mt ge_iff.2 (by rw [hless]; decide)
      omega
    · have := mt topBit_iff.2 (by rw [htop]; decide)
      omega

/-- The state of the second loop when `k` bits of the quotient are still open. -/
structure Dividing (num den k : Nat) (s : Uint128 × Uint128 × Uint128 × Uint128) : Prop where
  split : num = s.2.1.toNat * den + s.1.toNat
  rest : s.1.toNat < den * 2 ^ k
  closed : 2 ^ k ∣ s.2.1.toNat
  x : s.2.2.1.toNat = 2 ^ k / 2
  d : k ≠ 0 → s.2.2.2.toNat = den * (2 ^ k / 2)

theorem Dividing.step {n answer x d : Uint128} (h : Dividing num den (k + 1) (n, answer, x, d)) :
    Dividing num den k (if n.ge d then
        (n.sub d, answer.orAssign x, x.shr (ofInt32 1#32), d.shr (ofInt32 1#32))
      else (n, answer, x.shr (ofInt32 1#32), d.shr (ofInt32 1#32))) := by
  have hhalf : 2 ^ (k + 1) / 2 = 2 ^ k := by omega
  have hx : x.toNat = 2 ^ k := h.x.trans hhalf
  have hd : d.toNat = den * 2 ^ k := by rw [h.d (Nat.succ_ne_zero k), hhalf]
  have hxs : (x.shr (ofInt32 1#32)).toNat = 2 ^ k / 2 := by rw [toNat_halve, hx]
  have hds (hk : k ≠ 0) : (d.shr (ofInt32 1#32)).toNat = den * (2 ^ k / 2) := by
    obtain ⟨i, rfl⟩ := Nat.exists_eq_succ_of_ne_zero hk
    rw [toNat_halve, hd, Nat.mul_div_assoc _ ⟨2 ^ i, pow_succ' 2 i⟩]
  obtain ⟨c, hc⟩ := h.closed
  dsimp only at hc
  have hsplit := h.split
  have hrest := h.rest
  dsimp only at hsplit hrest
  split_ifs with hge
  · have hle : den * 2 ^ k ≤ n.toNat := by
      rw [← hd]
      exact ge_iff.1 hge
    -- the bits of `answer` are above that of `x`
    have hor : (answer.orAssign x).toNat = answer.toNat + 2 ^ k := by
      have hlt : 2 ^ k < 2 ^ (k + 1) := Nat.pow_lt_pow_right (by decide) (Nat.lt_succ_self k)
      rw [toNat_orAssign, hc, hx, ← Nat.two_pow_add_eq_or_of_lt hlt]
    have hsub : (n.sub d).toNat = n.toNat - den * 2 ^ k := by rw [toNat_sub_of_le (ge_iff.1 hge), hd]
    refine ⟨?_, ?_, ?_, hxs, hds⟩
    · rw [hor, hsub, add_mul, hsplit]
      have := mul_comm den (2 ^ k)
      omega
    · rw [hsub]
      rw [pow_succ, ← mul_assoc] at hrest
      omega
    · rw [hor, hc]
      exact ⟨2 * c + 1, by ring⟩
  · have hlt : n.toNat < den * 2 ^ k := by
      rw [← hd]
      exact not_le.1 (mt ge_iff.2 hge)
    refine ⟨hsplit, hlt, ?_, hxs, hds⟩
    rw [hc]
    exact ⟨2 * c, by ring⟩

/-- The second loop ends with all bits of the quotient. -/
theorem subtractLoop_ok {s : Uint128 × Uint128 × Uint128 × Uint128} (h : Dividing num den k s)
    (hk : k ≤ 128) : ∃ s', subtractLoop s = some s' ∧ Dividing num den 0 s' := by
  obtain ⟨k, s', hend, hs, hcond⟩ : ∃ k s', subtractLoop s = some s' ∧ Dividing num den k s' ∧
      s'.2.2.1.ne (ofInt32 0#32) = false := by
    refine whileLoop_spec (Dividing num den) h hk (fun s hs => ?_) fun k s hs _ => hs.step
    simpa [Bool.eq_false_iff, ne_iff] using hs.x
  have hx : s'.2.2.1.toNat = 0 := by simpa [Bool.eq_false_iff, ne_iff] using hcond
  -- `x` is not zero as long as a bit is open
  cases k with
  | zero => exact ⟨s', hend, hs⟩
  | succ k =>
    have hpow := hs.x
    have hpos := Nat.two_pow_pos k
    omega

theorem divide_ok (h : r.toNat ≠ 0) :
    ∃ q m, l.divide r = .ok (q, m) ∧ q.toNat = l.toNat / r.toNat ∧ m.toNat = l.toNat % r.toNat := by
  obtain ⟨j, x, d, halign, hj, hx, hd, hlt⟩ := alignLoop_ok (n := l) h
  have hstart : Dividing l.toNat r.toNat (j + 1) (l, ofInt32 0#32, x, d) :=
    ⟨by simp, hlt, by simp, by simp [hx, pow_succ], fun _ => by simp [hd, pow_succ]⟩
  obtain ⟨⟨m, q, x', d'⟩, hend, hs⟩ := subtractLoop_ok hstart hj
  have hsplit : l.toNat = q.toNat * r.toNat + m.toNat := hs.split
  have hrest : m.toNat < r.toNat := by simpa using hs.rest
  refine ⟨q, m, ?_, ?_, ?_⟩
  · have hne : ¬r.eq (ofInt32 0#32) = true := by simpa [eq_iff] using h
    unfold divide
    rw [if_neg hne, halign]
    simp only [Option.bind_eq_bind, Option.bind_some, hend]
    rfl
  · rw [hsplit, add_comm, add_mul_div_right _ _ (pos_of_ne_zero h), div_eq_of_lt hrest,
      zero_add]
  · rw [hsplit, add_comm, add_mul_mod_self_right, mod_eq_of_lt hrest]

theorem mod_ok (h : r.toNat ≠ 0) : ∃ m, l.mod r = .ok m ∧ m.toNat = l.toNat % r.toNat := by
  obtain ⟨q, m, hdivide, -, hm⟩ := divide_ok (l := l) h
  exact ⟨m, by rw [mod, hdivide]; rfl, hm⟩

/-- The operators on `l` and `r` are the exact ones, modulo `2 ^ 128` where these leave the range. Without
a quotient, `/` and `%` throw. A count of a shift below 128 passes the assertions of `to_integer`. -/
structure OperatorsAgree (l r : Uint128) : Prop where
  add : (l.add r).toNat = (l.toNat + r.toNat) % 2 ^ 128
  sub : ((l.sub r).toNat : Int) = ((l.toNat : Int) - r.toNat) % 2 ^ 128
  mul : (l.mul r).toNat = l.toNat * r.toNat % 2 ^ 128
  div : r.toNat ≠ 0 → ∃ q, l.div r = .ok q ∧ q.toNat = l.toNat / r.toNat
  mod : r.toNat ≠ 0 → ∃ m, l.mod r = .ok m ∧ m.toNat = l.toNat % r.toNat
  undefined : r.toNat = 0 → (∃ e, l.div r = .error e) ∧ ∃ e, l.mod r = .error e
  shl : (l.shl r).toNat = l.toNat <<< r.toNat % 2 ^ 128
  shr : (l.shr r).toNat = l.toNat >>> r.toNat
  count : r.toNat < 128 → r.toInteger = .ok r.low32Bits
  and : (l.and r).toNat = l.toNat &&& r.toNat
  or : (l.or r).toNat = l.toNat ||| r.toNat
  orAssign : (l.orAssign r).toNat = l.toNat ||| r.toNat
  xor : (l.xor r).toNat = l.toNat ^^^ r.toNat
  eq : l.eq r = true ↔ l.toNat = r.toNat
  ne : l.ne r = true ↔ l.toNat ≠ r.toNat
  lt : l.lt r = true ↔ l.toNat < r.toNat
  gt : l.gt r = true ↔ r.toNat < l.toNat
  le : l.le r = true ↔ l.toNat ≤ r.toNat
  ge : l.ge r = true ↔ r.toNat ≤ l.toNat

theorem sub_agrees : ((l.sub r).toNat : Int) = ((l.toNat : Int) - r.toNat) % 2 ^ 128 := by
  have hl := l.toNat_lt
  have hr := r.toNat_lt
  rw [toNat_sub]
  omega

theorem undefined_of_zero (h : r.toNat = 0) : (∃ e, l.div r = .error e) ∧ ∃ e, l.mod r = .error e := by
  obtain rfl : r = ofInt32 0#32 := eq_of_toNat (by rw [h, toNat_zero])
  exact ⟨⟨_, rfl⟩, ⟨_, rfl⟩⟩

theorem or_agrees_iff :
    (l.or r).toNat = l.toNat ||| r.toNat ↔ ∀ i, l.toNat.testBit i = true → r.toNat.testBit i = true := by
  constructor
  · intro h i hi
    rw [show r.toNat = l.toNat ||| r.toNat from h, testBit_or, hi, Bool.true_or]
  · intro h
    apply eq_of_testBit_eq
    intro i
    have := h i
    rw [testBit_or, or]
    cases hl : l.toNat.testBit i <;> simp_all

/-- The operators are exact on two operands if and only if the right one has all bits of the left one, for
the sake of `|`. -/
theorem operators_agree_iff :
    OperatorsAgree l r ↔ ∀ i, l.toNat.testBit i = true → r.toNat.testBit i = true := by
  rw [← or_agrees_iff]
  refine ⟨OperatorsAgree.or, fun hor => ?_⟩
  exact ⟨toNat_add, sub_agrees, toNat_mul, div_ok, mod_ok, undefined_of_zero, toNat_shl, toNat_shr,
    toInteger_of_lt, toNat_and, hor, toNat_orAssign, toNat_xor, eq_iff, ne_iff, lt_iff, lt_iff, le_iff,
    ge_iff⟩

/-- `1 | 2` is `2`. -/
theorem or_drops_left : ¬OperatorsAgree (ofInt32 1#32) (ofInt32 2#32) := by
  intro h
  exact absurd h.or (by decide)

end Uint128

end Fc
