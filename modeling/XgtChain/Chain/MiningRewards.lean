import Mathlib.Data.Rat.Floor
import XgtChain.Chain.IdleChain
import XgtChain.Chain.Money

/-!
# Mining rewards

Before block 2116800 the reward is paid by `pow_evaluator`, once for each pow operation of a worker that
is a witness or that is new and names a key (`earnsReward`).
-/

namespace Xgt

open Base ObjectIndex List

namespace Objects

variable {s s' : Objects} {w : WalletName}
variable {o : PowOperation} {worker name : WalletName} {n : Nat}

def walletXgt (s : Objects) (w : WalletName) : Int :=
  ((s.findAccount w).map fun r => r.2.balance.amount).getD 0

theorem adjustBalance_walletXgt {n : Int} (h : s.adjustBalance name (.xgt n) = .ok s') :
    s'.walletXgt w = s.walletXgt w + if w = name then n else 0 := by
  rcases adjustBalance_cases (mem_singleton_self _) h with ⟨hne, -⟩ | ⟨-, hmod⟩
  · exact absurd rfl hne
  · obtain ⟨r, wallets, hr, -, -, hwallet, rfl⟩ := modifyBalance_ok hmod
    have hfind : s.findAccount name = some r := getRow_ok_iff.1 hr
    obtain ⟨hrow, hname⟩ := of_find? hfind
    have hname : r.2.name = name := of_decide_eq_true hname
    unfold walletXgt findAccount
    split_ifs with hw
    · subst hw
      rw [find?_modify?_self hwallet hfind (decide_eq_true hname)]
      rw [show s.wallets.find? (fun x => x.name = w) = some r from hfind]
      rfl
    · rw [Int.add_zero, find?_modify?_other hwallet hrow]
      · exact decide_eq_false fun heq => hw (heq.symm.trans hname)
      · exact decide_eq_false fun heq => hw (heq.symm.trans hname)

theorem keepsBalance_amount {c : RowCall WalletObject} {t t' : ObjectIndex WalletObject}
    (hc : Call.KeepsBalance c) (h : c.Runs t t') :
    ((t'.find? fun x => x.name = w).map fun r => r.2.balance.amount).getD 0 =
      ((t.find? fun x => x.name = w).map fun r => r.2.balance.amount).getD 0 := by
  cases h with
  | create hnew =>
    cases hfind : t.find? fun x => x.name = w with
    | some r => rw [find?_create? hnew hfind]
    | none =>
      cases hfind' : t'.find? fun x => x.name = w with
      | none => rfl
      | some r =>
        obtain ⟨hrow, hname⟩ := of_find? hfind'
        rcases (mem_create? hnew).1 (mem_objects.2 ⟨_, hrow⟩) with hold | hr
        · exact absurd hname (by rw [find?_eq_none.1 hfind _ hold]; exact Bool.false_ne_true)
        · exact congrArg Asset.amount (hr ▸ hc)
  | modify hrow hmod hkeys =>
    rw [find?_modify? hmod hrow (by rw [name_eq_of_sameKeys hkeys]), Option.map_map]
    cases hfind : t.find? fun x => x.name = w with
    | none => rfl
    | some r =>
      simp only [Option.map_some, Function.comp_apply, Option.getD_some, setRow]
      split_ifs with hid
      · rw [congrArg Prod.snd (eq_of_mem (of_find? hfind).1 hrow hid)]
        exact congrArg Asset.amount hc
      · rfl
  | remove hrow => exact hc.elim

theorem Does.walletXgt (h : Does Call.Still s s') : s'.walletXgt w = s.walletXgt w := by
  refine h.keeps (fun s => s.walletXgt w) fun hc hrun => ?_
  cases hrun with
  | wallet h => exact keepsBalance_amount hc h
  | _ => rfl

theorem miningReward_early (h : n < 2116800) : miningReward n = .xgt 4166166 := by
  have hhalvings : n / 30150000 % 64 = 0 := by omega
  rw [miningReward, hhalvings]
  rfl

theorem applyPow_walletXgt {env : Env} (h : s.applyPow env o = .ok s') :
    s'.walletXgt w = s.walletXgt w + if s.earnsReward o ∧ w = o.getWorkerName then 4166166 else 0 := by
  obtain ⟨u, hstill, hpaid⟩ := applyPow_rewards h
  rw [← hstill.all.walletXgt]
  split_ifs at hpaid with hearns
  · have hnum : s.headBlockNum < 2116800 := by
      simp only [earnsReward, Bool.and_eq_true, decide_eq_true_eq] at hearns
      exact hearns.1
    rw [miningReward_early hnum] at hpaid
    simpa only [hearns, true_and] using adjustBalance_walletXgt hpaid
  · simp [hpaid, hearns]

/-! ## The reward at every height -/

def rewardDivisor (n : Nat) : Int :=
  if n / 30150000 % 64 = 63 then -2 ^ 63 else 2 ^ (n / 30150000 % 64)

/-- The reward halves every 30150000 blocks and never grows. -/
structure FollowsHalvings (n : Nat) : Prop where
  amount : (miningReward n).amount = 4166166 / 2 ^ (n / 30150000)
  nonneg : 0 ≤ (miningReward n).amount
  le_base : (miningReward n).amount ≤ 4166166
  antitone : ∀ m ≤ n, (miningReward n).amount ≤ (miningReward m).amount

theorem miningReward_amount (n : Nat) : (miningReward n).amount = Int.fdiv 4166166 (rewardDivisor n) := rfl

theorem miningReward_floor (n : Nat) :
    (miningReward n).amount = ⌊(4166166 : ℚ) * (1 / (rewardDivisor n : ℚ))⌋ := by
  rw [miningReward_amount, mul_one_div]
  unfold rewardDivisor
  split_ifs
  · have hfdiv : Int.fdiv 4166166 (-2 ^ 63) = -1 := rfl
    rw [hfdiv]
    norm_num
  · rw [Int.fdiv_eq_ediv_of_nonneg _ (by positivity)]
    exact (Rat.floor_intCast_div_natCast 4166166 (2 ^ (n / 30150000 % 64))).symm.trans (by push_cast; rfl)

theorem miningReward_below (h : n < 63 * 30150000) :
    (miningReward n).amount = 4166166 / 2 ^ (n / 30150000) := by
  have hcount : n / 30150000 % 64 = n / 30150000 := by omega
  have hdivisor : rewardDivisor n = 2 ^ (n / 30150000) := by
    rw [rewardDivisor, hcount, if_neg (by omega)]
  rw [miningReward_amount, hdivisor, Int.fdiv_eq_ediv_of_nonneg _ (by positivity)]

theorem miningReward_negative (h : n / 30150000 % 64 = 63) : (miningReward n).amount = -1 := by
  rw [miningReward_amount, rewardDivisor, if_pos h]
  rfl

theorem followsHalvings_iff (n : Nat) : FollowsHalvings n ↔ n < 63 * 30150000 := by
  constructor
  · intro h
    by_contra hlate
    have hfirst : (miningReward (63 * 30150000)).amount = -1 := miningReward_negative rfl
    have hle := h.antitone (63 * 30150000) (by omega)
    have hnonneg := h.nonneg
    omega
  · intro h
    have hamount := miningReward_below h
    refine ⟨hamount, ?_, ?_, fun m hm => ?_⟩
    · rw [hamount]
      positivity
    · rw [hamount]
      exact Int.ediv_le_self _ (by decide)
    · rw [hamount, miningReward_below (hm.trans_lt h)]
      have hpow : 2 ^ (m / 30150000) ≤ 2 ^ (n / 30150000) :=
        Nat.pow_le_pow_right (by decide) (Nat.div_le_div_right hm)
      have hdiv : 4166166 / 2 ^ (n / 30150000) ≤ 4166166 / 2 ^ (m / 30150000) :=
        Nat.div_le_div_left hpow (by positivity)
      exact_mod_cast hdiv

theorem rewardWorker_credits
    (hwitness : (s.findWitness worker).isSome = true) (h : s.rewardWorker o worker = .ok s') :
    s'.walletXgt worker = s.walletXgt worker + (miningReward s.headBlockNum).amount := by
  rcases rewardWorker_ok h with ⟨hnone, -⟩ | ⟨-, witnesses, -, hpaid⟩
  · rw [hwitness] at hnone
    cases hnone
  · have hcredit := adjustBalance_walletXgt (w := worker) hpaid
    rw [if_pos rfl] at hcredit
    exact hcredit

theorem rewardMiner_credits {b : SignedBlock} (hnum : 2116800 ≤ s.headBlockNum)
    (ho : firstPow b = some o) (h : s.rewardMiner b = .ok s') :
    s'.walletXgt o.getWorkerName = s.walletXgt o.getWorkerName + (miningReward s.headBlockNum).amount := by
  rw [rewardMiner, if_pos hnum, ho] at h
  obtain ⟨work, hwork, h⟩ := of_bind h
  have hname : o.getWorkerName = work.input.workerAccount := by
    unfold getSha2Pow at hwork
    unfold PowOperation.getWorkerName
    split at hwork
    · next heq =>
      cases hwork
      rw [heq]
      rfl
    · cases hwork
  iterate 5 obtain ⟨_, -, h⟩ := of_bind h
  have hcredit := adjustBalance_walletXgt (w := work.input.workerAccount) h
  rw [if_pos rfl] at hcredit
  rw [hname]
  exact hcredit

theorem mining_reward_iff (n : Nat) :
    (∀ (s s' : Objects) (o : PowOperation) (worker : WalletName), s.headBlockNum = n →
      (s.findWitness worker).isSome = true → s.rewardWorker o worker = .ok s' →
      s'.walletXgt worker = s.walletXgt worker + (miningReward n).amount) ∧
    (∀ (s s' : Objects) (b : SignedBlock) (o : PowOperation), s.headBlockNum = n → 2116800 ≤ n →
      firstPow b = some o → s.rewardMiner b = .ok s' →
      s'.walletXgt o.getWorkerName = s.walletXgt o.getWorkerName + (miningReward n).amount) ∧
    (miningReward n).amount = ⌊(4166166 : ℚ) * (1 / (rewardDivisor n : ℚ))⌋ ∧
    (FollowsHalvings n ↔ n < 63 * 30150000) := by
  refine ⟨?_, ?_, miningReward_floor n, followsHalvings_iff n⟩
  · rintro s s' o worker rfl hwitness h
    exact rewardWorker_credits hwitness h
  · rintro s s' b o rfl hnum ho h
    exact rewardMiner_credits hnum ho h

example : (miningReward 60300001).amount = 1041541 := rfl

theorem mining_reward_wraps :
    63 * 30150000 < 2 ^ 32 ∧ (miningReward (63 * 30150000)).amount = -1 ∧
      64 * 30150000 < 2 ^ 32 ∧ (miningReward (64 * 30150000)).amount = 4166166 :=
  ⟨by decide, rfl, by decide, rfl⟩

/-! ## The rewards of a block -/

section Blocks

variable {P : Params} {cr : Crypto} {env : Env} {b : SignedBlock}
variable {step : OpStep}

def creditsReward (cr : Crypto) (env : Env) (w : WalletName) (step : OpStep) : Bool :=
  step.2.pow?.isSome && (step.1.applyOperation cr env step.2).toOption.any fun s' =>
    decide (step.1.walletXgt w < s'.walletXgt w)

def earnsFor (w : WalletName) (step : OpStep) : Bool :=
  step.2.pow?.any fun o => step.1.earnsReward o && decide (w = o.getWorkerName)

def rewardsCredited (P : Params) (env : Env) (s : Objects) (b : SignedBlock) (w : WalletName) : Nat :=
  (s.blockSteps P env b).countP (creditsReward P.toCrypto env w) +
    if 2116800 ≤ b.blockNum ∧ (firstPow b).any (fun o => o.getWorkerName = w) then 1 else 0

theorem creditsReward_eq (h : step.1.applyOperation cr env step.2 = .ok s') :
    creditsReward cr env w step = earnsFor w step := by
  obtain ⟨u, op⟩ := step
  unfold creditsReward earnsFor
  rw [h]
  cases op with
  | pow o =>
    have hpaid := applyPow_walletXgt (w := w) h
    rw [Bool.eq_iff_iff]
    simp only [Operation.pow?, Option.isSome_some, Bool.true_and, Except.toOption, Option.any_some,
      decide_eq_true_eq, Bool.and_eq_true, hpaid]
    split_ifs with hearns
    · simp [hearns]
    · simp [hearns]
  | _ => rfl

theorem operationSteps_accepted {ops : List Operation} (h : s.applyOperations cr env ops = .ok s')
    (hstep : step ∈ operationSteps cr env s ops) : ∃ u, step.1.applyOperation cr env step.2 = .ok u := by
  induction ops generalizing s with
  | nil => cases hstep
  | cons op ops ih =>
    obtain ⟨s1, hop, hrest⟩ := foldlM_cons_ok_iff.1 h
    rw [plainError_ok_iff] at hop
    rw [operationSteps, hop] at hstep
    rcases mem_cons.1 hstep with rfl | hstep
    · exact ⟨s1, hop⟩
    · exact ih hrest hstep

theorem transactionSteps_accepted {txs : List SignedTransaction}
    (h : s.applyTransactions cr env txs = .ok s') (hstep : step ∈ transactionSteps cr env s txs) :
    ∃ u, step.1.applyOperation cr env step.2 = .ok u := by
  induction txs generalizing s with
  | nil => cases hstep
  | cons t txs ih =>
    obtain ⟨s1, htx, hrest⟩ := foldlM_cons_ok_iff.1 h
    obtain ⟨u, hrecord, hops⟩ := applyTransaction_run htx
    rw [transactionSteps, hrecord, htx] at hstep
    rcases mem_append.1 hstep with hstep | hstep
    · exact operationSteps_accepted hops hstep
    · exact ih hrest hstep

theorem blockSteps_accepted (h : s.applyBlock P env b = .ok s') (hstep : step ∈ s.blockSteps P env b) :
    ∃ u, step.1.applyOperation P.toCrypto env step.2 = .ok u := by
  obtain ⟨s1, s2, hheader, -, htxs, -⟩ := applyBlock_ok h
  rw [blockSteps, hheader] at hstep
  exact transactionSteps_accepted htxs hstep

theorem applyBlock_rewards_iff (h : s.applyBlock P env b = .ok s') (hnum : b.blockNum < 2116800) :
    (∀ w, s.rewardsCredited P env b w ≤ 1) ↔ ∀ w, (s.blockSteps P env b).countP (earnsFor w) ≤ 1 := by
  refine forall_congr' fun w => ?_
  have hcount : (s.blockSteps P env b).countP (creditsReward P.toCrypto env w) =
      (s.blockSteps P env b).countP (earnsFor w) := by
    refine countP_congr fun step hstep => ?_
    obtain ⟨u, hu⟩ := blockSteps_accepted h hstep
    rw [creditsReward_eq hu]
  rw [rewardsCredited, hcount, if_neg fun hlate => absurd hlate.1 (Nat.not_le.2 hnum)]
  rfl

end Blocks

end Objects

def idleEnv (k : Nat) : Env :=
  { toyEnv with fetchBlockById := fun id => if id = idleId k then some (idleBlock k) else none }

def minedBlock (k count : Nat) : SignedBlock :=
  toyBlock (idleId k) (k + 1)
    ((range count).map fun i => toyTransaction i
      [.pow (toyPow (idleId k) (idleId (k - 1)))] [1] (xgtGenesisTime + k + 60))

theorem minedBlock_once :
    ∃ s' : Objects, (idleState 1000000).applyBlock toyParams (idleEnv 1000000) (minedBlock 1000000 1) = .ok s' ∧
      (minedBlock 1000000 1).blockNum = 1000001 ∧
      (idleState 1000000).rewardsCredited toyParams (idleEnv 1000000)
        (minedBlock 1000000 1) xgtInitMinerName = 1 ∧
      ∀ w, (idleState 1000000).rewardsCredited toyParams (idleEnv 1000000) (minedBlock 1000000 1) w ≤ 1 := by
  obtain ⟨s', hs', -⟩ := exists_ok_of_any (p := fun _ => true)
    (x := (idleState 1000000).applyBlock toyParams (idleEnv 1000000) (minedBlock 1000000 1)) (by decide +kernel)
  refine ⟨s', hs', by decide +kernel, by decide +kernel, ?_⟩
  refine (Objects.applyBlock_rewards_iff hs' (by decide +kernel)).2 fun w => ?_
  exact countP_le_length.trans (by decide +kernel)

theorem minedBlock_twice :
    ∃ (n : Node toyParams) (blocks : List SignedBlock) (s' : Objects),
      n = (Node.init toyParams).pushBlocks blocks ∧
      n.objects.applyBlock toyParams (idleEnv 1000000) (minedBlock 1000000 2) = .ok s' ∧
      907200 ≤ (minedBlock 1000000 2).blockNum ∧ (minedBlock 1000000 2).blockNum < 2116800 ∧
      n.objects.rewardsCredited toyParams (idleEnv 1000000) (minedBlock 1000000 2) xgtInitMinerName = 2 ∧
      s'.walletXgt xgtInitMinerName = n.objects.walletXgt xgtInitMinerName + 2 * 4166166 := by
  obtain ⟨n, blocks, hrun, -, hobjects⟩ := idleNode_reaches (k := 1000000) (by omega)
  obtain ⟨s', hs', hpaid⟩ := exists_ok_of_any
    (x := (idleState 1000000).applyBlock toyParams (idleEnv 1000000) (minedBlock 1000000 2))
    (p := fun s' => s'.walletXgt xgtInitMinerName =
      (idleState 1000000).walletXgt xgtInitMinerName + 2 * 4166166) (by decide +kernel)
  refine ⟨n, blocks, s', hrun.symm, ?_⟩
  rw [hobjects]
  exact ⟨hs', by decide +kernel, by decide +kernel, by decide +kernel, of_decide_eq_true hpaid⟩

end Xgt
