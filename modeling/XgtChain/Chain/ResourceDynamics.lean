import Mathlib.Algebra.Order.Floor.Div
import XgtChain.Protocol.Types

/-!
# Resource dynamics

A resource pool grows by a budget and decays by a part of itself in each step.
-/

namespace Xgt

open Base Nat

def rdMinBudget : Int := 1

def rdMaxBudget : Int := 2 ^ 28 - 1

def rdMinDecay : Nat := 2 ^ 6

def rdMaxDecay : Nat := 2 ^ 32 - 1

def rdDecayDenomShift : Nat := 36

structure RdUserParams where
  budgetPerTimeUnit : Int
  decayPerTimeUnit : Nat

structure RdSystemParams where
  resourceUnit : Nat
  decayPerTimeUnitDenomShift : Nat

structure RdDecayParams where
  decayPerTimeUnit : Nat
  decayPerTimeUnitDenomShift : Nat

structure RdDynamicsParams where
  resourceUnit : Nat
  budgetPerTimeUnit : Int
  poolEq : Nat
  maxPoolSize : Nat
  decayParams : RdDecayParams
  minDecay : Int

variable (user : RdUserParams) (params : RdDecayParams) (rd : RdDynamicsParams)

def rdValidateUserParams : Result Unit := do
  fcAssert (rdMinBudget ≤ user.budgetPerTimeUnit) "user_params.budget_per_time_unit >= XGT_RD_MIN_BUDGET"
  fcAssert (user.budgetPerTimeUnit ≤ rdMaxBudget) "user_params.budget_per_time_unit <= XGT_RD_MAX_BUDGET"
  fcAssert (rdMinDecay ≤ user.decayPerTimeUnit) "user_params.decay_per_time_unit >= XGT_RD_MIN_DECAY"
  fcAssert (user.decayPerTimeUnit ≤ rdMaxDecay) "user_params.decay_per_time_unit <= XGT_RD_MAX_DECAY"

def toUint64 (n : Nat) : Result Nat := do
  fcAssert (n / 2 ^ 64 = 0) "hi == 0"
  pure n

def poolDecay (pool dt : Nat) : Result Nat := do
  let decayAmount := params.decayPerTimeUnit * dt % 2 ^ 64 * pool % 2 ^ 128
  let result ← toUint64 (decayAmount / 2 ^ params.decayPerTimeUnitDenomShift)
  pure (if pool < result then pool else result)

def rdComputePoolDecay (currentPool : Int) (dt : Nat) : Result Int := do
  let decay ← poolDecay params currentPool.natAbs dt
  pure (if currentPool < 0 then -(decay : Int) else decay)

def rdApply (pool : Int) : Result Int := do
  let decay ← rdComputePoolDecay rd.decayParams pool 1
  let decay := max decay rd.minDecay
  let newPool := ((pool + rd.budgetPerTimeUnit).bmod (2 ^ 64) - decay).bmod (2 ^ 64)
  pure (max (min newPool ((rd.maxPoolSize : Int).bmod (2 ^ 64))) 0)

def checkPoolEq (pool : Nat) : Result Bool := do
  let decay ← rdComputePoolDecay rd.decayParams ((pool : Int).bmod (2 ^ 64)) 1
  pure (rd.budgetPerTimeUnit ≤ decay)

def rdSetupDynamicsParams (system : RdSystemParams) (out : RdDynamicsParams) :
    Result RdDynamicsParams := do
  let shift := system.decayPerTimeUnitDenomShift
  let decay := user.decayPerTimeUnit
  fcAssert (shift = rdDecayDenomShift)
    "system_params.decay_per_time_unit_denom_shift == XGT_RD_DECAY_DENOM_SHIFT"
  -- the conversion of an `int32_t` to 128 bits extends its sign
  let temp := (user.budgetPerTimeUnit % 2 ^ 128).toNat * 2 ^ shift % 2 ^ 128
  let temp := (temp + (decay + (2 ^ 32 - 1)) % 2 ^ 32) % 2 ^ 128
  let poolEq ← toUint64 (temp / decay)
  let out := { out with
    resourceUnit := system.resourceUnit
    budgetPerTimeUnit := user.budgetPerTimeUnit
    decayParams := ⟨decay, shift % 2 ^ 8⟩
    poolEq := poolEq
    maxPoolSize := poolEq }
  let balanced ← checkPoolEq out poolEq
  fcAssert balanced "check_pool_eq( dparams_out, dparams_out.pool_eq )"
  let balanced ← checkPoolEq out ((poolEq + (2 ^ 64 - 1)) % 2 ^ 64)
  fcAssert (!balanced) "!check_pool_eq( dparams_out, dparams_out.pool_eq-1 )"
  pure out

def rdSteps (rd : RdDynamicsParams) : Nat → Int → Result Int
  | 0, pool => pure pool
  | n + 1, pool => do rdSteps rd n (← rdApply rd pool)

theorem rdValidateUserParams_ok_iff {user : RdUserParams} :
    rdValidateUserParams user = .ok () ↔ 1 ≤ user.budgetPerTimeUnit ∧ user.budgetPerTimeUnit < 2 ^ 28 ∧
      2 ^ 6 ≤ user.decayPerTimeUnit ∧ user.decayPerTimeUnit < 2 ^ 32 := by
  simp only [rdValidateUserParams, bind_ok_iff, fcAssert_ok_iff, exists_const, decide_eq_true_iff]
  unfold rdMinBudget rdMaxBudget rdMinDecay rdMaxDecay
  omega

theorem toUint64_of_lt {n : Nat} (h : n < 2 ^ 64) : toUint64 n = .ok n := by
  rw [toUint64, decide_eq_true (div_eq_of_lt h)]
  rfl

theorem poolDecay_one {d pool : Nat} (hd : d < 2 ^ 32) (hpool : pool < 2 ^ 63) :
    poolDecay ⟨d, 36⟩ pool 1 = .ok (d * pool / 2 ^ 36) := by
  have hproduct : d * pool ≤ 2 ^ 32 * pool := mul_le_mul_right pool hd.le
  have hfits : d * 1 % 2 ^ 64 * pool % 2 ^ 128 = d * pool := by
    rw [mul_one, mod_eq_of_lt (show d < 2 ^ 64 by omega), mod_eq_of_lt (by omega)]
  have hle : d * pool / 2 ^ 36 ≤ pool := by omega
  have hhigh : d * pool / 2 ^ 36 < 2 ^ 64 := by omega
  rw [poolDecay, hfits, toUint64_of_lt hhigh]
  exact congrArg Except.ok (if_neg hle.not_gt)

theorem rdComputePoolDecay_one {d : Nat} {pool : Int} (hd : d < 2 ^ 32) (hlow : -2 ^ 63 < pool)
    (hhigh : pool < 2 ^ 63) : rdComputePoolDecay ⟨d, 36⟩ pool 1 =
      .ok (if pool < 0 then -((d * pool.natAbs / 2 ^ 36 : Nat) : Int) else
        (d * pool.natAbs / 2 ^ 36 : Nat)) := by
  rw [rdComputePoolDecay, poolDecay_one hd (by omega)]
  rfl

/-! ## The pool in balance -/

def balancedPool : Nat :=
  (user.budgetPerTimeUnit.toNat * 2 ^ 36) ⌈/⌉ user.decayPerTimeUnit

section Setup

variable {user} {system : RdSystemParams} {rd} {out : RdDynamicsParams} {p q : Int}

def setUp (user : RdUserParams) (system : RdSystemParams) (out : RdDynamicsParams) : RdDynamicsParams where
  resourceUnit := system.resourceUnit
  budgetPerTimeUnit := user.budgetPerTimeUnit
  poolEq := balancedPool user
  maxPoolSize := balancedPool user
  decayParams := ⟨user.decayPerTimeUnit, 36⟩
  minDecay := out.minDecay

theorem numerator_eq {b : Int} {d : Nat} (hb : 0 ≤ b) (hb' : b < 2 ^ 28) (hd : 0 < d) (hd' : d < 2 ^ 32) :
    ((b % 2 ^ 128).toNat * 2 ^ 36 % 2 ^ 128 + (d + (2 ^ 32 - 1)) % 2 ^ 32) % 2 ^ 128 =
      b.toNat * 2 ^ 36 + d - 1 := by
  rw [Int.emod_eq_of_lt hb (by omega)]
  omega

theorem shift_of_setup (hrd : rdSetupDynamicsParams user system out = .ok rd) :
    system.decayPerTimeUnitDenomShift = rdDecayDenomShift := by
  obtain ⟨_, hshift, -⟩ := of_bind hrd
  exact of_fcAssert hshift

theorem decay_sub_le {d x y : Nat} (hd : d < 2 ^ 32) (hxy : x ≤ y) : d * y / 2 ^ 36 ≤
    d * x / 2 ^ 36 + (y - x) := by
  obtain ⟨z, rfl⟩ := Nat.exists_eq_add_of_le hxy
  have hproduct : d * z ≤ 2 ^ 32 * z := Nat.mul_le_mul_right z hd.le
  rw [Nat.mul_add]
  omega

section

variable (h : rdValidateUserParams user = .ok ())
include h

theorem budget_le_decay_iff (pool : Nat) :
    user.budgetPerTimeUnit.toNat ≤ user.decayPerTimeUnit * pool / 2 ^ 36 ↔ balancedPool user ≤ pool := by
  obtain ⟨-, -, hdecay, -⟩ := rdValidateUserParams_ok_iff.1 h
  rw [balancedPool, ceilDiv_le_iff_le_mul (by omega), le_div_iff_mul_le (by decide)]

theorem balancedPool_bounds :
    0 < balancedPool user ∧ balancedPool user < 2 ^ 58 := by
  obtain ⟨hlow, hhigh, hdecay, -⟩ := rdValidateUserParams_ok_iff.1 h
  have hzero : ¬balancedPool user ≤ 0 := by
    rw [← budget_le_decay_iff h, Nat.mul_zero, Nat.zero_div]
    omega
  have hlarge : balancedPool user ≤ 2 ^ 58 - 1 := by
    rw [← budget_le_decay_iff h, Nat.le_div_iff_mul_le (by decide)]
    refine le_trans ?_ (Nat.mul_le_mul_right (2 ^ 58 - 1) hdecay)
    omega
  omega

theorem checkPoolEq_setUp {pool : Nat} (hpool : pool < 2 ^ 63) :
    checkPoolEq (setUp user system out) pool = .ok (balancedPool user ≤ pool) := by
  obtain ⟨hlow, -, -, hdecay⟩ := rdValidateUserParams_ok_iff.1 h
  have hcast : (pool : Int).bmod (2 ^ 64) = pool := Int.bmod_eq_of_le (by omega) (by omega)
  have hcheck := budget_le_decay_iff h pool
  rw [checkPoolEq, hcast]
  dsimp only [setUp]
  rw [rdComputePoolDecay_one hdecay (by omega) (by omega), if_neg (by omega), Int.natAbs_natCast, ok_bind]
  refine congrArg Except.ok (decide_eq_decide.2 ?_)
  rw [← hcheck]
  omega

theorem rdSetupDynamicsParams_ok
    (hshift : system.decayPerTimeUnitDenomShift = rdDecayDenomShift) :
    rdSetupDynamicsParams user system out = .ok (setUp user system out) := by
  obtain ⟨hlow, hhigh, hmin, hmax⟩ := rdValidateUserParams_ok_iff.1 h
  obtain ⟨hpos, hlarge⟩ := balancedPool_bounds h
  have hpool : ((user.budgetPerTimeUnit % 2 ^ 128).toNat * 2 ^ 36 % 2 ^ 128 +
      (user.decayPerTimeUnit + (2 ^ 32 - 1)) % 2 ^ 32) % 2 ^ 128 / user.decayPerTimeUnit =
        balancedPool user := by
    rw [balancedPool, ceilDiv_eq_add_pred_div, numerator_eq (by omega) hhigh (by omega) hmax]
  have hhere : checkPoolEq (setUp user system out) (balancedPool user) = .ok true := by
    rw [checkPoolEq_setUp h (by omega), decide_eq_true le_rfl]
  have hpred : (balancedPool user + (2 ^ 64 - 1)) % 2 ^ 64 = balancedPool user - 1 := by omega
  have hbelow : checkPoolEq (setUp user system out) ((balancedPool user + (2 ^ 64 - 1)) % 2 ^ 64) =
    .ok false := by
    rw [hpred, checkPoolEq_setUp h (by omega), decide_eq_false (by omega)]
  have hout : setUp user system out = { out with
      resourceUnit := system.resourceUnit
      budgetPerTimeUnit := user.budgetPerTimeUnit
      decayParams := ⟨user.decayPerTimeUnit, system.decayPerTimeUnitDenomShift % 2 ^ 8⟩
      poolEq := balancedPool user
      maxPoolSize := balancedPool user } := by
    rw [hshift]
    rfl
  refine bind_ok (fcAssert_ok hshift) (bind_ok_iff.2 ⟨balancedPool user, ?_, ?_⟩)
  · rw [hshift]
    exact (congrArg toUint64 hpool).trans (toUint64_of_lt (by omega))
  · refine bind_ok (hout ▸ hhere) (bind_ok rfl ?_)
    exact bind_ok (hout ▸ hbelow) (bind_ok rfl (congrArg Except.ok hout.symm))

theorem rd_eq_setUp (hrd : rdSetupDynamicsParams user system out = .ok rd) :
    rd = setUp user system out := by
  rw [rdSetupDynamicsParams_ok h (shift_of_setup hrd)] at hrd
  exact (Except.ok.inj hrd).symm

theorem rdApply_spec (hmin : out.minDecay < 2 ^ 63) (hp : 0 ≤ p)
    (hp' : p ≤ balancedPool user) : rdApply (setUp user system out) p =
      .ok (max (min (p + user.budgetPerTimeUnit -
        max ((user.decayPerTimeUnit * p.natAbs / 2 ^ 36 : Nat) : Int) out.minDecay)
          (balancedPool user)) 0) := by
  obtain ⟨hlow, hhigh, -, hmax⟩ := rdValidateUserParams_ok_iff.1 h
  obtain ⟨-, hlarge⟩ := balancedPool_bounds h
  have hproduct : user.decayPerTimeUnit * p.natAbs ≤ 2 ^ 32 * p.natAbs := mul_le_mul_right _ hmax.le
  rw [rdApply]
  dsimp only [setUp]
  rw [rdComputePoolDecay_one hmax (by omega) (by omega), if_neg (by omega), ok_bind]
  have hdecay : user.decayPerTimeUnit * p.natAbs / 2 ^ 36 ≤ p.natAbs := by omega
  generalize user.decayPerTimeUnit * p.natAbs / 2 ^ 36 = decay at hdecay ⊢
  rw [Int.bmod_eq_of_le (n := p + _) (by omega) (by omega), Int.bmod_eq_of_le (by omega) (by omega),
    Int.bmod_eq_of_le (by omega) (by omega)]
  rfl

theorem rdApply_ordered (hmin : out.minDecay < 2 ^ 63) (hp : 0 ≤ p)
    (hpq : p ≤ q) (hq : q ≤ balancedPool user) :
    ∃ p' q', rdApply (setUp user system out) p = .ok p' ∧ rdApply (setUp user system out) q = .ok q' ∧
      0 ≤ p' ∧ p' ≤ q' ∧ q' ≤ balancedPool user := by
  refine ⟨_, _, rdApply_spec h hmin hp (hpq.trans hq), rdApply_spec h hmin (hp.trans hpq) hq, ?_⟩
  obtain ⟨-, -, -, hmax⟩ := rdValidateUserParams_ok_iff.1 h
  have hdecay := decay_sub_le (x := p.natAbs) (y := q.natAbs) hmax (by omega)
  omega

end

theorem rdSetup_least_pool (user : RdUserParams) (system : RdSystemParams) (out : RdDynamicsParams)
    (h : rdValidateUserParams user = .ok ()) :
    (system.decayPerTimeUnitDenomShift ≠ rdDecayDenomShift →
      ∃ e, rdSetupDynamicsParams user system out = .error e) ∧
    (system.decayPerTimeUnitDenomShift = rdDecayDenomShift →
      user.budgetPerTimeUnit * 2 ^ 36 + (user.decayPerTimeUnit - 1) < 2 ^ 64 ∧
      ∃ rd, rdSetupDynamicsParams user system out = .ok rd ∧ rd.poolEq < 2 ^ 63 ∧
        ∀ pool : Int, -2 ^ 63 < pool → pool < 2 ^ 63 →
          ∃ decay, rdComputePoolDecay rd.decayParams pool 1 = .ok decay ∧
          (user.budgetPerTimeUnit ≤ decay ↔ rd.poolEq ≤ pool)) := by
  obtain ⟨hlow, hhigh, hmin, hmax⟩ := rdValidateUserParams_ok_iff.1 h
  have hbounds := balancedPool_bounds h
  constructor
  · intro hshift
    cases hrd : rdSetupDynamicsParams user system out with
    | error e => exact ⟨e, rfl⟩
    | ok rd => exact absurd (shift_of_setup hrd) hshift
  · intro hshift
    refine ⟨by omega, _, rdSetupDynamicsParams_ok h hshift, ?_, fun pool hpool hpool' => ?_⟩
    · dsimp only [setUp]
      omega
    · refine ⟨_, rdComputePoolDecay_one hmax hpool hpool', ?_⟩
      have hcheck := budget_le_decay_iff h pool.natAbs
      dsimp only [setUp]
      split_ifs <;> omega

theorem rdSetup_least_pool_witness :
    ∃ rd, rdSetupDynamicsParams ⟨1, 64⟩ ⟨1, 36⟩ ⟨0, 0, 0, 0, ⟨0, 0⟩, 0⟩ = .ok rd ∧ rd.poolEq < 2 ^ 63 :=
  have ⟨_, rd, hrd, hpool, _⟩ := (rdSetup_least_pool ⟨1, 64⟩ ⟨1, 36⟩ ⟨0, 0, 0, 0, ⟨0, 0⟩, 0⟩ (by decide)).2 rfl
  ⟨rd, hrd, hpool⟩

theorem rdSetup_other_shift :
    rdValidateUserParams ⟨1, 64⟩ = .ok () ∧
      rdSetupDynamicsParams ⟨1, 64⟩ ⟨1, 35⟩ ⟨0, 0, 0, 0, ⟨0, 0⟩, 0⟩ = .error ⟨.assertException,
        "system_params.decay_per_time_unit_denom_shift == XGT_RD_DECAY_DENOM_SHIFT"⟩ :=
  ⟨by decide, rfl⟩

theorem rdSteps_ordered (user : RdUserParams) (system : RdSystemParams) (out rd : RdDynamicsParams)
    (h : rdValidateUserParams user = .ok ()) (hrd : rdSetupDynamicsParams user system out = .ok rd)
    (hmin : -2 ^ 63 ≤ out.minDecay ∧ out.minDecay < 2 ^ 63) (p q : Int) (hp : 0 ≤ p) (hpq : p ≤ q)
    (hq : q ≤ rd.maxPoolSize) :
    (∃ p' q', rdApply rd p = .ok p' ∧ rdApply rd q = .ok q' ∧ 0 ≤ p' ∧ p' ≤ q' ∧ q' ≤ rd.maxPoolSize) ∧
      ∀ n, ∃ p' q', rdSteps rd n p = .ok p' ∧ rdSteps rd n q = .ok q' ∧ 0 ≤ p' ∧ p' ≤ q' ∧
        q' ≤ rd.maxPoolSize := by
  obtain rfl := rd_eq_setUp h hrd
  have step {p q : Int} := @rdApply_ordered user system out p q h hmin.2
  refine ⟨step hp hpq hq, fun n => ?_⟩
  induction n generalizing p q with
  | zero => exact ⟨p, q, rfl, rfl, hp, hpq, hq⟩
  | succ n ih =>
    obtain ⟨p1, q1, hp1, hq1, hlow, horder, hhigh⟩ := step hp hpq hq
    obtain ⟨p', q', hp', hq', hrest⟩ := ih p1 q1 hlow horder hhigh
    exact ⟨p', q', bind_ok hp1 hp', bind_ok hq1 hq', hrest⟩

theorem rdSteps_ordered_witness :
    ∃ p' q', rdSteps (setUp ⟨1, 64⟩ ⟨1, 36⟩ ⟨0, 0, 0, 0, ⟨0, 0⟩, 0⟩) 3 0 = .ok p' ∧
      rdSteps (setUp ⟨1, 64⟩ ⟨1, 36⟩ ⟨0, 0, 0, 0, ⟨0, 0⟩, 0⟩) 3 5 = .ok q' ∧ p' ≤ q' :=
  have ⟨p', q', hp', hq', _, hle, _⟩ := (rdSteps_ordered ⟨1, 64⟩ ⟨1, 36⟩ ⟨0, 0, 0, 0, ⟨0, 0⟩, 0⟩ _ (by decide)
    (rdSetupDynamicsParams_ok (by decide) rfl) (by decide) 0 5 (by decide) (by decide) (by decide)).2 3
  ⟨p', q', hp', hq', hle⟩

end Setup

end Xgt
