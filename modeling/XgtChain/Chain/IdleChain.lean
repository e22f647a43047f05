import XgtChain.Chain.EnvReads
import XgtChain.Chain.LinearChain

/-!
# The idle chain

A chain of empty blocks by the initial miner, under the toy parameters: one concrete chain that reaches
every height, on which closed examples about high blocks stand.
-/

namespace Xgt

open Base Node

variable {k : Nat} {n : Node toyParams} {env : Env}

def idleId : Nat → BlockId
  | 0 => .zero
  | k + 1 => ⟨k + 1, (xgtGenesisTime + (k + 1)) * 1000 + 1⟩

def idleBlock (k : Nat) : SignedBlock :=
  toyBlock (idleId (k - 1)) k

def idleSummaries : Nat → Nat → BlockId
  | 0, _ => .zero
  | k + 1, i => if i = (k + 1) % 2 ^ 16 then idleId (k + 1) else idleSummaries k i

def idleState (k : Nat) : Objects :=
  { genesis ⟨1⟩ with
    dgp := { (genesis ⟨1⟩).dgp with
      headBlockNumber := k
      headBlockId := idleId k
      time := xgtGenesisTime + k
      lastIrreversibleBlockNum := k - xgtMaxWitnesses }
    blockSummaries := idleSummaries k }

theorem idleId_num (k : Nat) : (idleId k).num = k := by
  cases k <;> rfl

section

variable (hk : k + 1 < 2 ^ 32)
include hk

theorem idleBlock_blockNum : (idleBlock (k + 1)).blockNum = k + 1 := by
  change ((idleId k).num + 1) % 2 ^ 32 = k + 1
  rw [idleId_num, Nat.mod_eq_of_lt hk]

theorem idleBlock_id : toyParams.blockId (idleBlock (k + 1)).toSignedBlockHeader = idleId (k + 1) := by
  rw [Crypto.blockId, idleBlock_blockNum hk]
  rfl

theorem idleState_adjustDifficulty (henv : SeesLog toyParams skipNothing (k - xgtMaxWitnesses) env) :
    (idleState (k + 1)).adjustDifficulty toyParams env (idleBlock (k + 1)) =
      .ok (idleState (k + 1)) := by
  have hten : xgtMaxWitnesses = 10 := rfl
  unfold Objects.adjustDifficulty
  rw [idleBlock_blockNum hk]
  split_ifs
  · rfl
  · obtain ⟨prior, hprior⟩ := Option.isSome_iff_exists.1
      (henv.fetchPriorBlock (k + 1 - 302400) (by omega) (by omega))
    rw [hprior]
    rfl
  · rfl

theorem idleState_head :
    ((idleState k).setHead toyParams.toCrypto
        (idleBlock (k + 1))).updateLastIrreversibleBlock.createBlockSummary
      toyParams.toCrypto (idleBlock (k + 1)) = idleState (k + 1) := by
  have hten : xgtMaxWitnesses = 10 := rfl
  unfold Objects.setHead Objects.createBlockSummary Objects.updateLastIrreversibleBlock
  rw [idleBlock_blockNum hk, idleBlock_id hk]
  unfold Objects.headBlockNum
  dsimp only
  split_ifs with hlow
  · rfl
  · have hlib : k - xgtMaxWitnesses = k + 1 - xgtMaxWitnesses := by omega
    simp only [idleState, hlib]
    rfl

theorem idleState_step (henv : SeesLog toyParams skipNothing (k - xgtMaxWitnesses) env) :
    (idleState k).applyBlock toyParams env (idleBlock (k + 1)) = .ok (idleState (k + 1)) := by
  have hten : xgtMaxWitnesses = 10 := rfl
  have hclear : (idleState (k + 1)).clearExpiredTransactions.clearNullWalletBalance =
      .ok (idleState (k + 1)) := rfl
  have hreward : (idleState (k + 1)).rewardMiner (idleBlock (k + 1)) = .ok (idleState (k + 1)) := by
    unfold Objects.rewardMiner
    split_ifs <;> rfl
  have hfork : (idleState (k + 1)).processHardforks = .ok (idleState (k + 1)) := rfl
  have hhead := Objects.updateGlobalDynamicData_recent (s := idleState k) (b := idleBlock (k + 1))
    toyParams.toCrypto env <| by
      rw [idleBlock_blockNum hk]
      change (k + 1 + 2 ^ 32 - (k - xgtMaxWitnesses)) % 2 ^ 32 < 151200
      omega
  unfold Objects.applyBlock
  rw [henv.skip]
  -- An empty block passes the checks and has no transactions.
  change (idleState k).finishBlock toyParams env (idleBlock (k + 1)) = _
  simp only [Objects.finishBlock, bind, Except.bind, hhead,
    idleState_head hk, hclear, hreward, idleState_adjustDifficulty hk henv, hfork]

theorem idleNode_push (hlinear : n.Linear) (hobjects : n.objects = idleState k) :
    (n.pushBlock skipNothing 0 (idleBlock (k + 1))).2 = .ok false ∧
      (n.pushBlock skipNothing 0 (idleBlock (k + 1))).1.Linear ∧
      (n.pushBlock skipNothing 0 (idleBlock (k + 1))).1.db =
        (n.db.start.set (idleState (k + 1))).commit
          (idleState (k + 1)).lib := by
  have hlog : n.logHeadNum = k - xgtMaxWitnesses := by
    rw [hlinear.written, hobjects]
    rfl
  have hprevious : (idleBlock (k + 1)).previous = n.headBlockId := by
    rw [headBlockId, hobjects]
    rfl
  have hroom : n.objects.headBlockNum + 1 < 2 ^ 32 := by
    rw [hobjects]
    exact hk
  refine pushBlock_linear 0 hlinear rfl rfl hprevious hroom fun env henv => ?_
  rw [hobjects]
  exact idleState_step hk (hlog ▸ henv)

end

theorem idleNode_reaches (hk : k < 2 ^ 32) :
    ∃ (n : Node toyParams) (blocks : List SignedBlock),
      (init toyParams).pushBlocks blocks = n ∧
      n.Linear ∧ n.objects = idleState k := by
  induction k with
  | zero => exact ⟨_, [], rfl, linear_init _, rfl⟩
  | succ k ih =>
    obtain ⟨n, blocks, hrun, hlinear, hobjects⟩ := ih (by omega)
    obtain ⟨-, hlinear', hdb⟩ := idleNode_push hk hlinear hobjects
    refine ⟨_, blocks ++ [idleBlock (k + 1)], ?_, hlinear', ?_⟩
    · rw [pushBlocks_concat, hrun]
    · rw [objects, hdb]
      rfl

theorem pushBlock_toy {b : SignedBlock} {s : Objects} (hlinear : n.Linear) (hb : b.previous = n.headBlockId)
    (hroom : n.objects.headBlockNum + 1 < 2 ^ 32) (hpow : 2116800 ≤ n.objects.headBlockNum)
    (hperiod : b.blockNum = 1 ∨ b.blockNum % 302400 ≠ 1)
    (hs : n.objects.applyBlock toyParams toyEnv b = .ok s) :
    (n.pushBlock skipNothing 0 b).2 = .ok false ∧ (n.pushBlock skipNothing 0 b).1.Linear ∧
      (n.pushBlock skipNothing 0 b).1.objects = s := by
  have hsame (env : Env) (henv : SeesLog toyParams skipNothing n.logHeadNum env) :
      n.objects.applyBlock toyParams env b = .ok s := by
    obtain ⟨d, hrandom⟩ := henv.random
    have hagrees : env.Agrees toyEnv :=
      ⟨henv.skip, henv.producing, henv.pendingTx, hrandom⟩
    rw [Objects.applyBlock_agrees hagrees (fun _ => hpow) hperiod, hs]
  obtain ⟨hok, hlinear', hdb⟩ := pushBlock_linear 0 hlinear rfl rfl hb hroom hsame
  refine ⟨hok, hlinear', ?_⟩
  rw [objects, hdb]
  rfl

end Xgt
