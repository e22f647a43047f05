import XgtChain.Chain.ResourceDynamics

/-!
# Energy bars

`energybar` (`chain/util/energybar.hpp`): a signed amount of energy that regenerates over time and is
spent.
-/

open Base BitVec

namespace Xgt

def signedSatAdd {w : Nat} (x y : BitVec w) : BitVec w :=
  let res := x + y
  let sat := if 0 ≤ x.toInt then intMax w else intMin w
  if (~~~(x ^^^ y) &&& (x ^^^ res)).toInt < 0 then sat else res

def signedSatSub {w : Nat} (x y : BitVec w) : BitVec w :=
  let res := x - y
  let sat := if 0 ≤ x.toInt then intMax w else intMin w
  if ((x ^^^ y) &&& (x ^^^ res)).toInt < 0 then sat else res

def clamp64 (n : Int) : Int :=
  max (-2 ^ 63) (min n (2 ^ 63 - 1))

theorem toInt_range (x : BitVec 64) : -2 ^ 63 ≤ x.toInt ∧ x.toInt < 2 ^ 63 :=
  ⟨le_toInt x, toInt_lt⟩

variable {w : Nat}

theorem toInt_neg_iff (x : BitVec w) : x.toInt < 0 ↔ x.msb = true := by
  rw [msb_eq_toInt, decide_eq_true_iff]

theorem toInt_and_neg (x y : BitVec w) : (x &&& y).toInt < 0 ↔ x.toInt < 0 ∧ y.toInt < 0 := by
  simp only [toInt_neg_iff, msb_and, Bool.and_eq_true]

theorem toInt_xor_neg (x y : BitVec w) : (x ^^^ y).toInt < 0 ↔ ¬(x.toInt < 0 ↔ y.toInt < 0) := by
  rw [toInt_neg_iff, toInt_neg_iff, toInt_neg_iff, msb_xor, bne_iff_ne, ne_eq, Bool.eq_iff_iff]

theorem toInt_not_neg (x : BitVec 64) : (~~~x).toInt < 0 ↔ ¬x.toInt < 0 := by
  simp only [toInt_neg_iff, msb_not, Nat.zero_lt_succ, decide_true, Bool.true_and, Bool.not_eq_true']
  exact Bool.not_eq_true _ ▸ Iff.rfl

theorem toInt_saturated {x res : BitVec 64} {n : Int} (hres : res.toInt = n.bmod (2 ^ 64)) (hlow : -2 ^ 64 ≤ n)
    (hhigh : n < 2 ^ 64) {p : Prop} [Decidable p] (hp : p ↔ (n < -2 ^ 63 ∨ 2 ^ 63 ≤ n))
    (hx : n < -2 ^ 63 ∨ 2 ^ 63 ≤ n → (0 ≤ x.toInt ↔ 0 ≤ n)) :
    (if p then (if 0 ≤ x.toInt then intMax 64 else intMin 64) else res).toInt = clamp64 n := by
  have hmax : (intMax 64).toInt = 2 ^ 63 - 1 := by decide
  have hmin : (intMin 64).toInt = -2 ^ 63 := by decide
  unfold clamp64
  by_cases h : p
  · have hside := hx (hp.1 h)
    have hout := hp.1 h
    rw [if_pos h]
    split_ifs with hsign <;> omega
  · rw [if_neg h, hres, Int.bmod_def]
    rw [hp] at h
    omega

theorem toInt_signedSatAdd (x y : BitVec 64) : (signedSatAdd x y).toInt = clamp64 (x.toInt + y.toInt) := by
  have hx := toInt_range x
  have hy := toInt_range y
  refine toInt_saturated (toInt_add x y) (by omega) (by omega) ?_ (by omega)
  rw [toInt_and_neg, toInt_not_neg, toInt_xor_neg, toInt_xor_neg, toInt_add, Int.bmod_def]
  omega

theorem toInt_signedSatSub (x y : BitVec 64) : (signedSatSub x y).toInt = clamp64 (x.toInt - y.toInt) := by
  have hx := toInt_range x
  have hy := toInt_range y
  refine toInt_saturated toInt_sub (by omega) (by omega) ?_ (by omega)
  rw [toInt_and_neg, toInt_xor_neg, toInt_xor_neg, toInt_sub, Int.bmod_def]
  omega

/-! ## The bar -/

structure EnergybarParams where
  maxEnergy : BitVec 64
  regenTime : BitVec 32

def EnergybarParams.validate (params : EnergybarParams) : Result Unit :=
  fcAssert (0 ≤ params.maxEnergy.toInt) "max_energy >= 0"

structure Energybar where
  currentEnergy : BitVec 64
  lastUpdateTime : BitVec 32

namespace Energybar

variable (bar : Energybar) (skipCapRegen : Bool) (params : EnergybarParams) (now : BitVec 32)

def regenerateEnergy :
    Result Energybar := do
  params.validate
  fcAssert (bar.lastUpdateTime ≤ now) "now >= last_update_time"
  let dt := now - bar.lastUpdateTime
  if bar.currentEnergy.toInt ≥ params.maxEnergy.toInt then
    pure ⟨params.maxEnergy, now⟩
  else
    let dt := if !skipCapRegen && dt > params.regenTime then params.regenTime else dt
    let maxEnergyDt := (if 0 ≤ params.maxEnergy.toInt then params.maxEnergy.toNat else 0) * dt.toNat % 2 ^ 128
    -- the wide integers of the library throw
    if params.regenTime = 0 then .error ⟨.other, "Division by zero."⟩ else
    let uRegen ← toUint64 (maxEnergyDt / params.regenTime.toNat)
    fcAssert (uRegen ≤ 2 ^ 63 - 1) "u_regen <= std::numeric_limits< int64_t >::max()"
    let newCurrentEnergy := signedSatAdd bar.currentEnergy (BitVec.ofNat 64 uRegen)
    pure ⟨if newCurrentEnergy.toInt > params.maxEnergy.toInt then params.maxEnergy else newCurrentEnergy, now⟩

def hasEnergy (energyNeeded : BitVec 64) : Bool :=
  energyNeeded.toInt ≤ 0 || bar.currentEnergy.toInt ≥ energyNeeded.toInt

def useEnergy (energyUsed : BitVec 64) (minEnergy : BitVec 64 := 0) : Energybar :=
  let current := signedSatSub bar.currentEnergy energyUsed
  { bar with currentEnergy := if current.toInt < minEnergy.toInt then minEnergy else current }

def regenerated : Nat :=
  let dt := (now - bar.lastUpdateTime).toNat
  params.maxEnergy.toNat * (if skipCapRegen then dt else min dt params.regenTime.toNat) / params.regenTime.toNat

variable {bar} {bar' : Energybar} {params} {skip : Bool} {now} {now' : BitVec 32} {n : BitVec 64}
  (signed : Bool)

theorem pure_ok_iff {e : BitVec 64} : (pure ⟨e, now⟩ : Result Energybar) = .ok bar' ↔
    bar'.lastUpdateTime = now ∧ bar'.currentEnergy.toInt = e.toInt := by
  obtain ⟨e', now'⟩ := bar'
  constructor
  · rintro ⟨⟩
    exact ⟨rfl, rfl⟩
  · rintro ⟨rfl, h⟩
    obtain rfl := eq_of_toInt_eq h
    rfl

theorem quotient_eq (hmax : 0 ≤ params.maxEnergy.toInt) :
    (if 0 ≤ params.maxEnergy.toInt then params.maxEnergy.toNat else 0) *
      (if !skip && now - bar.lastUpdateTime > params.regenTime then params.regenTime
        else now - bar.lastUpdateTime).toNat % 2 ^ 128 / params.regenTime.toNat =
    bar.regenerated skip params now := by
  unfold regenerated
  generalize now - bar.lastUpdateTime = dt
  have htime : (if !skip && dt > params.regenTime then params.regenTime else dt).toNat =
      if skip then dt.toNat else min dt.toNat params.regenTime.toNat := by
    cases skip
    · simp only [Bool.not_false, Bool.true_and, decide_eq_true_iff, gt_iff_lt, lt_def,
        Bool.false_eq_true, if_false]
      split_ifs <;> omega
    · rfl
  have hcut : params.maxEnergy.toNat * (if skip then dt.toNat else min dt.toNat params.regenTime.toNat) <
      2 ^ 128 :=
    calc _ ≤ params.maxEnergy.toNat * 2 ^ 32 := Nat.mul_le_mul_left _ (by split_ifs <;> omega)
      _ < 2 ^ 128 := by omega
  rw [htime, if_pos hmax, Nat.mod_eq_of_lt hcut]

theorem toInt_cut {e max : BitVec 64} {q : Nat} (hq : q < 2 ^ 63) :
    (if (signedSatAdd e (BitVec.ofNat 64 q)).toInt > max.toInt then max else signedSatAdd e
      (BitVec.ofNat 64 q)).toInt =
      min max.toInt (e.toInt + q) := by
  have he := toInt_range e
  have hmax := toInt_range max
  have hsum := toInt_signedSatAdd e (BitVec.ofNat 64 q)
  rw [BitVec.toInt_ofNat', Int.bmod_def, clamp64] at hsum
  split_ifs <;> omega

theorem regenerateEnergy_ok_iff (hvalid : params.validate = .ok ()) :
    bar.regenerateEnergy skip params now = .ok bar' ↔ bar.lastUpdateTime ≤ now ∧
      (params.maxEnergy.toInt ≤ bar.currentEnergy.toInt ∨ params.regenTime ≠ 0 ∧
        bar.regenerated skip params now < 2 ^ 63) ∧ bar'.lastUpdateTime = now ∧ bar'.currentEnergy.toInt =
        min params.maxEnergy.toInt (bar.currentEnergy.toInt + bar.regenerated skip params now) := by
  have hmax : 0 ≤ params.maxEnergy.toInt := of_fcAssert hvalid
  simp only [regenerateEnergy, hvalid, ok_bind, bind_ok_iff, fcAssert_ok_iff, decide_eq_true_iff, exists_const,
    quotient_eq hmax, and_congr_right_iff]
  intro hlast
  generalize bar.regenerated skip params now = q
  split_ifs with hfull hzero
  · rw [min_eq_left (by omega)]
    simpa only [ge_iff_le.1 hfull, true_or, true_and] using pure_ok_iff
  · simp [hfull, hzero]
  by_cases hfits : q < 2 ^ 63
  · rw [toUint64_of_lt (by omega), ok_bind, decide_eq_true (by omega)]
    refine pure_ok_iff.trans ?_
    rw [toInt_cut hfits]
    exact (and_iff_right (.inr ⟨hzero, hfits⟩)).symm
  · refine iff_of_false (fun h => ?_) fun h => h.1.elim hfull fun h => hfits h.2
    obtain ⟨u, hu, h⟩ := of_bind h
    obtain ⟨_, -, hu⟩ := of_bind hu
    cases hu
    obtain ⟨_, hle, -⟩ := of_bind h
    have := of_fcAssert hle
    omega

theorem regenerated_mono (hlast : bar.lastUpdateTime ≤ now) (h : now ≤ now') :
    bar.regenerated skip params now ≤ bar.regenerated skip params now' := by
  have hdt : (now - bar.lastUpdateTime).toNat ≤ (now' - bar.lastUpdateTime).toNat := by bv_omega
  refine Nat.div_le_div_right (Nat.mul_le_mul_left _ ?_)
  split_ifs
  · exact hdt
  · exact min_le_min_right _ hdt

theorem regenerated_le : bar.regenerated false params now ≤ params.maxEnergy.toNat :=
  Nat.div_le_of_le_mul (Nat.mul_comm _ _ ▸ Nat.mul_le_mul_right _ (min_le_right _ _))

theorem regenerateEnergy_returns (hvalid : params.validate = .ok ()) (skip : Bool) (now : BitVec 32) :
    (∃ bar', bar.regenerateEnergy skip params now = .ok bar') ↔ bar.lastUpdateTime ≤ now ∧
      (params.maxEnergy.toInt ≤ bar.currentEnergy.toInt ∨ params.regenTime ≠ 0 ∧
        (skip = true → bar.regenerated true params now < 2 ^ 63)) := by
  have hmax : 0 ≤ params.maxEnergy.toInt := of_fcAssert hvalid
  have hrange := toInt_range params.maxEnergy
  have hcurrent := toInt_range bar.currentEnergy
  have hcap : bar.regenerated skip params now < 2 ^ 63 ↔
      (skip = true → bar.regenerated true params now < 2 ^ 63) := by
    cases skip with
    | true => simp
    | false =>
      have hle : bar.regenerated false params now ≤ _ := regenerated_le
      rw [BitVec.toInt_eq_toNat_cond] at hmax
      simp only [Bool.false_eq_true, false_imp_iff, iff_true]
      omega
  simp only [regenerateEnergy_ok_iff hvalid, hcap, exists_and_left, and_congr_right_iff, and_iff_left_iff_imp]
  intro _ _
  generalize bar.regenerated skip params now = q
  refine ⟨⟨BitVec.ofInt 64 (min params.maxEnergy.toInt (bar.currentEnergy.toInt + q)), now⟩, rfl, ?_⟩
  rw [BitVec.toInt_ofInt, Int.bmod_def]
  omega

def amount (n : BitVec 64) : Int :=
  if signed then n.toInt else n.toNat

theorem amount_eq (n : BitVec 64) :
    amount signed n = if signed = true ∨ 0 ≤ n.toInt then n.toInt else n.toInt + 2 ^ 64 := by
  have hcast := n.toInt_eq_toNat_cond
  unfold amount
  cases signed with
  | true => simp
  | false =>
    simp only [Bool.false_eq_true, if_false, false_or]
    split_ifs at hcast ⊢ <;> omega

/-- Regeneration raises the energy with time, up to the maximum; use never raises it. -/
structure Laws (bar : Energybar) (params : EnergybarParams) (signed : Bool) (n : BitVec 64) : Prop where
  kept : ∀ skip now bar', bar.regenerateEnergy skip params now = .ok bar' →
    bar.currentEnergy.toInt ≤ params.maxEnergy.toInt → bar.currentEnergy.toInt ≤ bar'.currentEnergy.toInt
  capped : ∀ skip now bar', bar.regenerateEnergy skip params now = .ok bar' →
    bar'.currentEnergy.toInt ≤ params.maxEnergy.toInt
  monotone : ∀ skip now now' bar1 bar2, now ≤ now' → bar.regenerateEnergy skip params now = .ok bar1 →
    bar.regenerateEnergy skip params now' = .ok bar2 → bar1.currentEnergy.toInt ≤ bar2.currentEnergy.toInt
  has : bar.hasEnergy n = true ↔ amount signed n ≤ bar.currentEnergy.toInt
  use : (bar.useEnergy n).currentEnergy.toInt ≤ bar.currentEnergy.toInt

theorem useEnergy_le_iff {minEnergy : BitVec 64} :
    (bar.useEnergy n minEnergy).currentEnergy.toInt ≤ bar.currentEnergy.toInt ↔
      minEnergy.toInt ≤ bar.currentEnergy.toInt ∧ (0 ≤ n.toInt ∨ bar.currentEnergy.toInt = 2 ^ 63 - 1) := by
  have hn := toInt_range n
  have hcurrent := toInt_range bar.currentEnergy
  have hdifference := toInt_signedSatSub bar.currentEnergy n
  unfold useEnergy
  rw [clamp64] at hdifference
  dsimp only
  split_ifs <;> omega

theorem energybar_laws_iff (hvalid : params.validate = .ok ()) (signed : Bool) :
    (∀ skip now, (∃ bar', bar.regenerateEnergy skip params now = .ok bar') ↔ bar.lastUpdateTime ≤ now ∧
      (params.maxEnergy.toInt ≤ bar.currentEnergy.toInt ∨ params.regenTime ≠ 0 ∧
        (skip = true → bar.regenerated true params now < 2 ^ 63))) ∧
    (Laws bar params signed n ↔ 0 ≤ bar.currentEnergy.toInt ∧
      (0 ≤ n.toInt ∨ signed = true ∧ bar.currentEnergy.toInt = 2 ^ 63 - 1)) := by
  refine ⟨regenerateEnergy_returns hvalid, fun h => ?_, fun ⟨hpos, hn⟩ => ?_⟩
  · obtain ⟨hpos, hn⟩ := useEnergy_le_iff.1 h.use
    refine ⟨hpos, or_iff_not_imp_left.2 fun hneg => ⟨?_, hn.resolve_left hneg⟩⟩
    by_contra hunsigned
    have hle := h.has.1 (by simp [hasEnergy]; omega)
    rw [amount_eq, if_neg (by tauto)] at hle
    have hlow := toInt_range n
    have hhigh := toInt_range bar.currentEnergy
    omega
  · refine ⟨fun skip now bar' hok hle => ?_, fun skip now bar' hok =>
      ?_, fun skip now now' bar1 bar2 hnow hok hok' => ?_,
      ?_, useEnergy_le_iff.2 ⟨hpos, hn.imp_right And.right⟩⟩
    · obtain ⟨-, -, -, heq⟩ := (regenerateEnergy_ok_iff hvalid).1 hok
      omega
    · obtain ⟨-, -, -, heq⟩ := (regenerateEnergy_ok_iff hvalid).1 hok
      exact heq ▸ min_le_left _ _
    · obtain ⟨hlast, -, -, heq⟩ := (regenerateEnergy_ok_iff hvalid).1 hok
      obtain ⟨-, -, -, heq'⟩ := (regenerateEnergy_ok_iff hvalid).1 hok'
      have hmono : bar.regenerated skip params _ ≤ _ := regenerated_mono hlast hnow
      omega
    · rw [hasEnergy, Bool.or_eq_true, decide_eq_true_eq, decide_eq_true_eq, amount_eq,
        if_pos (hn.elim .inr fun h => .inl h.1)]
      omega

theorem energybar_laws_three : Laws ⟨3, 0⟩ ⟨10, 5⟩ false 2 :=
  (@energybar_laws_iff ⟨3, 0⟩ ⟨10, 5⟩ 2 rfl false).2.2 ⟨by decide, .inl (by decide)⟩

theorem energy_of_largest : hasEnergy ⟨0, 0⟩ (.allOnes 64) = true ∧
    (useEnergy ⟨0, 0⟩ (.allOnes 64)).currentEnergy = 1 ∧ ∀ params, ¬Laws ⟨0, 0⟩ params false (.allOnes 64) :=
  ⟨by decide, by decide, fun _ h => absurd h.use (by decide)⟩

end Energybar

end Xgt
