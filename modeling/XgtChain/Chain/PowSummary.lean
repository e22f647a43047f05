import XgtChain.Base.BigEndian
import XgtChain.Chain.Genesis

/-!
# Summaries of work

`sha256::approx_log_32` as it works on the bytes of a hash (`Fc.approxLog32`). It is the number
`Sha256.approxLog32` of the objects' model (`toNat_approxLog32`), in the order of the hashes
(`approxLog32_mono`).
-/

namespace Fc

open Base Xgt List BitVec

/-- The bytes of `_hash`. -/
def data (h : Sha256) : Bytes := (leBytes 32 h.toNat).reverse

/-- The table in `clz`: leading zero bits of a byte. -/
def char2lzbits : List Nat :=
  [8, 7] ++ .replicate 2 6 ++ .replicate 4 5 ++ .replicate 8 4 ++ .replicate 16 3 ++ .replicate 32 2 ++
    .replicate 64 1 ++ .replicate 128 0

/-- The loop of `clz` over the bytes from `my_bytes[i]` on. -/
def clzLoop (lzbits : Nat) : Bytes → BitVec 16
  | [] => 0x100
  | c :: rest =>
    let lzbits := lzbits + char2lzbits.getD c.toNat 0
    if c ≠ 0 then BitVec.ofNat 16 lzbits else clzLoop lzbits rest

def clz (h : Sha256) : BitVec 16 := clzLoop 0 (data h)

def approxLog32 (h : Sha256) : BitVec 32 :=
  let lzbits := clz h
  if 0x100 ≤ lzbits then 0
  else
    let nzbits := (0xFF - lzbits).setWidth 8
    let offset := (lzbits >>> 3).toNat
    -- a byte past the end counts as zero
    let byte (i : Nat) : BitVec 32 := ((data h).getD i 0).toBitVec.setWidth 32
    let y := byte offset <<< 0x18 ||| byte (offset + 1) <<< 0x10 ||| byte (offset + 2) <<< 0x08 |||
      byte (offset + 3)
    let y := y >>> (nzbits &&& 7#8)
    let y := y ^^^ 1#32 <<< 0x18
    y ||| nzbits.setWidth 32 <<< 0x18

theorem beNat_data (h : Sha256) : beNat (data h) = h.toNat := by
  rw [beNat, data, reverse_reverse, leNat_leBytes, Nat.mod_eq_of_lt]
  exact h.isLt

theorem char2lzbits_eq {c : Nat} (h : c < 256) (hne : c ≠ 0) : char2lzbits.getD c 0 + c.log2 = 7 := by
  have htable : ∀ c < 256, c ≠ 0 → char2lzbits.getD c 0 + c.log2 = 7 := by decide +kernel
  exact htable c h hne

theorem log2_beNat_cons {c : UInt8} (h : c.toNat ≠ 0) (l : Bytes) :
    (beNat (c :: l)).log2 = c.toNat.log2 + 8 * l.length := by
  have h256 : 256 ^ l.length = 2 ^ (8 * l.length) := by rw [pow_mul]; rfl
  have hl := beNat_lt l
  have hlow := Nat.mul_le_mul_right (2 ^ (8 * l.length)) (Nat.log2_self_le h)
  have hhigh : (c.toNat + 1) * 2 ^ (8 * l.length) ≤ 2 ^ (c.toNat.log2 + 1) * 2 ^ (8 * l.length) :=
    Nat.mul_le_mul_right _ Nat.lt_log2_self
  rw [← pow_add] at hlow hhigh
  rw [Nat.add_mul, Nat.add_right_comm] at hhigh
  rw [h256] at hl
  rw [beNat_cons, h256, Nat.log2_eq_iff]
  · omega
  · have := Nat.two_pow_pos (c.toNat.log2 + 8 * l.length)
    omega

theorem clzLoop_eq (acc : Nat) (l : Bytes) :
    clzLoop acc l = if beNat l = 0 then 0x100
      else BitVec.ofNat 16 (acc + (8 * l.length - 1 - (beNat l).log2)) := by
  induction l generalizing acc with
  | nil => rfl
  | cons c l ih =>
    rw [clzLoop]
    by_cases hc : c = 0
    · subst hc
      have hbytes : beNat (0 :: l) = beNat l := by simp [beNat_cons]
      rw [if_neg (by simp), ih, hbytes]
      split_ifs with hzero
      · rfl
      · have hlog : (beNat l).log2 < 8 * l.length := by
          rw [Nat.log2_lt hzero, pow_mul]
          exact beNat_lt l
        rw [length_cons, show char2lzbits.getD (0 : UInt8).toNat 0 = 8 from rfl]
        congr 1
        omega
    · have hne : c.toNat ≠ 0 := fun hzero => hc (UInt8.toNat_inj.1 hzero)
      have hlog := log2_beNat_cons hne l
      have htable := char2lzbits_eq c.toNat_lt hne
      have hpos : beNat (c :: l) ≠ 0 := by
        have := Nat.mul_pos (Nat.pos_of_ne_zero hne) (Nat.pow_pos (n := l.length) (by decide : 0 < 256))
        rw [beNat_cons]
        omega
      rw [if_pos hc, if_neg hpos, hlog, length_cons]
      congr 1
      omega

theorem length_data (h : Sha256) : (data h).length = 32 := by simp [data]

theorem toNat_clz (h : Sha256) : (clz h).toNat = Sha256.clz h := by
  rw [clz, clzLoop_eq, beNat_data, length_data, Sha256.clz]
  split_ifs with hzero
  · rfl
  · have hlog : h.toNat.log2 < 256 := (Nat.log2_lt hzero).2 h.isLt
    simp
    omega

theorem getD_leBytes {k j : Nat} (n : Nat) (h : j < k) : (leBytes k n).getD j 0 = UInt8.ofNat
    (n / 256 ^ j) := by
  induction k generalizing n j with
  | zero => omega
  | succ k ih =>
    cases j with
    | zero => simp [leBytes]
    | succ j =>
      have hj := ih (n / 256) (Nat.lt_of_succ_lt_succ h)
      rw [Nat.div_div_eq_div_mul, ← pow_succ'] at hj
      simpa [leBytes] using hj

theorem toNat_getD_data (h : Sha256) (i : Nat) : ((data h).getD i 0).toNat = Sha256.byteAt h i := by
  unfold Sha256.byteAt
  split_ifs with hi
  · have hget : (data h)[i]? = (leBytes 32 h.toNat)[31 - i]? := by
      rw [data, getElem?_reverse (by simpa using hi), length_leBytes]
    rw [getD_eq_getElem?_getD, hget, ← getD_eq_getElem?_getD, getD_leBytes _ (by omega),
      UInt8.toNat_ofNat']
  · rw [getD_eq_getElem?_getD, getElem?_eq_none (by rw [length_data]; omega)]
    rfl

theorem toNat_word (b0 b1 b2 b3 : BitVec 8) :
    (b0.setWidth 32 <<< 0x18 ||| b1.setWidth 32 <<< 0x10 ||| b2.setWidth 32 <<< 0x08 |||
      b3.setWidth 32).toNat =
      b0.toNat * 2 ^ 24 + b1.toNat * 2 ^ 16 + b2.toNat * 2 ^ 8 + b3.toNat := by
  have hshift {n : Nat} (b : BitVec 8) (hn : n ≤ 24) : (b.setWidth 32 <<< n).toNat = 2 ^ n * b.toNat := by
    have hpow : 2 ^ n ≤ 2 ^ 24 := Nat.pow_le_pow_right (by decide) hn
    have hmul := Nat.mul_le_mul hpow (Nat.le_of_lt_succ b.isLt)
    rw [toNat_shiftLeft, toNat_setWidth, Nat.shiftLeft_eq, Nat.mul_comm,
      Nat.mod_eq_of_lt (by omega : b.toNat < 2 ^ 32), Nat.mod_eq_of_lt (by omega)]
  have hlow : (b3.setWidth 32).toNat = b3.toNat := by simp; omega
  -- the four shifted bytes have no bit in common
  rw [toNat_or, toNat_or, toNat_or, hshift b0 (by decide), hshift b1 (by decide),
    hshift b2 (by decide), hlow, ← Nat.two_pow_add_eq_or_of_lt (by omega),
    show 2 ^ 24 * b0.toNat + 2 ^ 16 * b1.toNat = 2 ^ 16 * (2 ^ 8 * b0.toNat + b1.toNat) by omega,
    ← Nat.two_pow_add_eq_or_of_lt (by omega),
    show 2 ^ 16 * (2 ^ 8 * b0.toNat + b1.toNat) + 2 ^ 8 * b2.toNat =
      2 ^ 8 * (2 ^ 8 * (2 ^ 8 * b0.toNat + b1.toNat) + b2.toNat) by omega,
    ← Nat.two_pow_add_eq_or_of_lt b3.isLt]
  omega

theorem toNat_approxLog32 (h : Sha256) : (approxLog32 h).toNat = Sha256.approxLog32 h := by
  have hclz := toNat_clz h
  have hbyte (i : Nat) : ((data h).getD i 0).toBitVec.toNat = Sha256.byteAt h i := toNat_getD_data h i
  unfold approxLog32 Sha256.approxLog32
  by_cases hbig : 256 ≤ Sha256.clz h
  · rw [if_pos hbig, if_pos (by rw [le_def, hclz]; exact hbig)]
    rfl
  · have hnz : ((0xFF - clz h).setWidth 8).toNat = 255 - Sha256.clz h := by
      simp [toNat_sub, hclz]
      omega
    have hoffset : (clz h >>> 3).toNat = Sha256.clz h / 8 := by
      simp [hclz, Nat.shiftRight_eq_div_pow]
    rw [if_neg hbig, if_neg (by rw [le_def, hclz]; exact hbig)]
    have hseven : ((0xFF - clz h).setWidth 8 &&& 7#8).toNat = (255 - Sha256.clz h) % 8 := by
      rw [toNat_and, hnz]
      exact Nat.and_two_pow_sub_one_eq_mod _ 3
    have htop : (((0xFF - clz h).setWidth 8).setWidth 32 <<< 0x18).toNat = (255 - Sha256.clz h) * 2 ^ 24 := by
      rw [toNat_shiftLeft, toNat_setWidth, hnz, Nat.shiftLeft_eq]
      omega
    simp only [hoffset]
    rw [toNat_or, toNat_xor, ushiftRight_eq', toNat_ushiftRight, toNat_word,
      hbyte, hbyte, hbyte, hbyte, hseven, htop]
    rfl

/-! ## The order of summaries -/

/-- Also past the end, the bytes are those of the hash with three zero bytes added. -/
theorem byteAt_eq (h : Sha256) {offset j : Nat} (hoffset : offset ≤ 31) (hj : j ≤ 3) :
    Sha256.byteAt h (offset + j) = h.toNat * 256 ^ 3 / 256 ^ (31 - offset) / 256 ^ (3 - j) % 256 := by
  rw [Nat.div_div_eq_div_mul, ← pow_add, Sha256.byteAt]
  split_ifs with hin
  · rw [show 31 - offset + (3 - j) = 31 - (offset + j) + 3 by omega, pow_add,
      Nat.mul_div_mul_right _ _ (by decide)]
  · obtain ⟨i, hi⟩ : ∃ i, 3 = i + 1 + (31 - offset + (3 - j)) := ⟨offset + j - 32, by omega⟩
    rw [show 256 ^ 3 = 256 * 256 ^ i * 256 ^ (31 - offset + (3 - j)) by
        rw [← pow_succ', ← pow_add, ← hi], ← mul_assoc, Nat.mul_div_cancel _ (Nat.pow_pos (by decide)),
      mul_left_comm, Nat.mul_mod_right]

/-- Flipping the first bit of the window and putting a number above it. -/
theorem pack_eq {k y : Nat} (hlow : 2 ^ 24 ≤ y) (hhigh : y < 2 ^ 25) :
    (y ^^^ 2 ^ 24) ||| k * 2 ^ 24 = k * 2 ^ 24 + (y - 2 ^ 24) := by
  obtain ⟨z, rfl⟩ := Nat.exists_eq_add_of_le hlow
  have hz : z < 2 ^ 24 := by omega
  have hflip : 2 ^ 24 + z ^^^ 2 ^ 24 = z := by
    have hor := Nat.two_pow_add_eq_or_of_lt hz 1
    rw [Nat.mul_one] at hor
    apply Nat.eq_of_testBit_eq
    intro i
    rw [hor, Nat.testBit_xor, Nat.testBit_or, Nat.testBit_two_pow]
    by_cases hi : 24 = i
    · subst hi
      simp [Nat.testBit_lt_two_pow hz]
    · simp [hi]
  rw [hflip, Nat.or_comm, Nat.mul_comm, ← Nat.two_pow_add_eq_or_of_lt hz, Nat.add_sub_cancel_left]

/-- The 25 bits of a number from its first one on. -/
theorem leading_bounds {n : Nat} (hne : n ≠ 0) :
    2 ^ 24 ≤ n * 2 ^ 24 / 2 ^ n.log2 ∧ n * 2 ^ 24 / 2 ^ n.log2 < 2 ^ 25 := by
  have hpos := Nat.two_pow_pos n.log2
  have hlow := Nat.log2_self_le hne
  have hhigh := Nat.lt_log2_self (n := n)
  rw [pow_succ] at hhigh
  rw [Nat.le_div_iff_mul_le hpos, Nat.div_lt_iff_lt_mul hpos]
  omega

/-- The binary logarithm, followed by the 24 bits after the first one. -/
theorem approxLog32_eq {h : Sha256} (hne : h.toNat ≠ 0) :
    Sha256.approxLog32 h =
      h.toNat.log2 * 2 ^ 24 + (h.toNat * 2 ^ 24 / 2 ^ h.toNat.log2 - 2 ^ 24) := by
  have hlog : h.toNat.log2 < 256 := (Nat.log2_lt hne).2 h.isLt
  have hclz : Sha256.clz h = 255 - h.toNat.log2 := if_neg hne
  have hbyte {j : Nat} (hj : j ≤ 3) := byteAt_eq h (show Sha256.clz h / 8 ≤ 31 by omega) hj
  have hpow (e : Nat) : 256 ^ e = 2 ^ (8 * e) := by rw [pow_mul]; rfl
  -- the shift of the window by `nzbits & 7` leaves the first 25 bits of the hash
  have hshift : h.toNat * 256 ^ 3 / 256 ^ (31 - Sha256.clz h / 8) / 2 ^ (h.toNat.log2 % 8) =
      h.toNat * 2 ^ 24 / 2 ^ h.toNat.log2 := by
    rw [hpow, hpow, Nat.div_div_eq_div_mul, ← pow_add,
      show 8 * (31 - Sha256.clz h / 8) + h.toNat.log2 % 8 = h.toNat.log2 by omega]
  have hwindow : h.toNat * 256 ^ 3 / 256 ^ (31 - Sha256.clz h / 8) < 2 ^ 32 := by
    rw [hpow, hpow, Nat.div_lt_iff_lt_mul (Nat.two_pow_pos _)]
    calc h.toNat * 2 ^ (8 * 3) < 2 ^ (h.toNat.log2 + 1) * 2 ^ (8 * 3) :=
          Nat.mul_lt_mul_of_pos_right Nat.lt_log2_self (Nat.two_pow_pos _)
      _ ≤ 2 ^ 32 * 2 ^ (8 * (31 - Sha256.clz h / 8)) := by
        rw [← pow_add, ← pow_add]
        exact Nat.pow_le_pow_right (by decide) (by omega)
  unfold Sha256.approxLog32
  rw [if_neg (by omega)]
  simp only [show 255 - Sha256.clz h = h.toNat.log2 by omega]
  rw [hbyte (by decide : 1 ≤ 3), hbyte (by decide : 2 ≤ 3), hbyte (by decide : 3 ≤ 3),
    ← Nat.add_zero (Sha256.clz h / 8), hbyte (by decide : 0 ≤ 3), Nat.add_zero]
  generalize h.toNat * 256 ^ 3 / 256 ^ (31 - Sha256.clz h / 8) = w at hshift hwindow ⊢
  have hbytes : w / 256 ^ (3 - 0) % 256 * 2 ^ 24 + w / 256 ^ (3 - 1) % 256 * 2 ^ 16 +
      w / 256 ^ (3 - 2) % 256 * 2 ^ 8 + w / 256 ^ (3 - 3) % 256 = w := by omega
  rw [hbytes, Nat.shiftRight_eq_div_pow, hshift]
  exact pack_eq (leading_bounds hne).1 (leading_bounds hne).2

theorem approxLog32_bounds {h : Sha256} (hne : h.toNat ≠ 0) :
    h.toNat.log2 * 2 ^ 24 ≤ Sha256.approxLog32 h ∧
      Sha256.approxLog32 h < (h.toNat.log2 + 1) * 2 ^ 24 := by
  have hleading := leading_bounds hne
  rw [approxLog32_eq hne]
  omega

theorem approxLog32_mono {a b : Sha256} (h : a.toNat ≤ b.toNat) :
    Sha256.approxLog32 a ≤ Sha256.approxLog32 b := by
  by_cases ha : a.toNat = 0
  · have hzero : Sha256.approxLog32 a = 0 := by simp [Sha256.approxLog32, Sha256.clz, ha]
    omega
  have hb : b.toNat ≠ 0 := by omega
  have hlog : a.toNat.log2 ≤ b.toNat.log2 :=
    (Nat.le_log2 hb).2 ((Nat.log2_self_le ha).trans h)
  rcases Nat.lt_or_eq_of_le hlog with hlt | heq
  · have hbelow := (approxLog32_bounds ha).2
    have habove := (approxLog32_bounds hb).1
    omega
  · have hdiv : a.toNat * 2 ^ 24 / 2 ^ b.toNat.log2 ≤ b.toNat * 2 ^ 24 / 2 ^ b.toNat.log2 :=
      Nat.div_le_div_right (Nat.mul_le_mul_right _ h)
    rw [approxLog32_eq ha, approxLog32_eq hb, heq]
    omega

/-- The summaries are in the order of the hashes as big endian numbers, so that work with a summary
below that of the target has its proof below the target. -/
theorem pow_summary_ordered :
    (∀ a b : Sha256, beNat (data a) ≤ beNat (data b) → approxLog32 a ≤ approxLog32 b) ∧
      ∀ (cr : Crypto) (s : Objects) (w : Sha2Pow), w.isValid cr = true →
        w.powSummary < s.getPowSummaryTarget → beNat (data w.proof) < beNat (data s.getPowTarget) := by
  refine ⟨fun a b h => ?_, fun cr s w hvalid hbelow => ?_⟩
  · rw [beNat_data, beNat_data] at h
    rw [le_def, toNat_approxLog32, toNat_approxLog32]
    exact approxLog32_mono h
  · obtain ⟨-, hsummary⟩ : w.proof = proofOf cr w.input ∧ w.powSummary = Sha256.approxLog32 w.proof := by
      simpa [Sha2Pow.isValid] using hvalid
    rw [hsummary, Objects.getPowSummaryTarget] at hbelow
    rw [beNat_data, beNat_data]
    by_contra hnot
    have := approxLog32_mono (Nat.le_of_not_lt hnot)
    omega

theorem pow_summary_ordered_genesis : ∃ w : Sha2Pow, w.isValid toyParams.toCrypto = true ∧
    w.powSummary < (genesis toyParams.initPublicKey).getPowSummaryTarget ∧
      beNat (data w.proof) < beNat (data (genesis toyParams.initPublicKey).getPowTarget) := by
  let w : Sha2Pow := { input := ⟨xgtInitMinerName, .zero, 5⟩, proof := 5, prevBlock := .zero,
                       powSummary := Sha256.approxLog32 5 }
  have hvalid : w.isValid toyParams.toCrypto = true := by decide
  have hbelow : w.powSummary < (genesis toyParams.initPublicKey).getPowSummaryTarget := by decide
  exact ⟨w, hvalid, hbelow, pow_summary_ordered.2 _ _ w hvalid hbelow⟩

end Fc
