import XgtChain.Chain.IdleChain

/-!
# Work

Since block 2116800 a block is rewarded for its first pow operation, and the checks on work are made on
that operation only.
-/

namespace Xgt

open Base Objects

namespace Node

variable {P : Params} {n n' : Node P} {pinned : List ForkItem} {b : SignedBlock} {u : Unit}

/-- The witness's work is in the block and below the target. -/
def HasWork (cr : Crypto) (target : Sha256) (b : SignedBlock) : Prop :=
  ∃ t ∈ b.transactions, ∃ o w, Operation.pow o ∈ t.operations ∧ o.work = .sha2Pow w ∧
    o.getWorkerName = b.witness ∧ w.proof = proofOf cr w.input ∧
    w.powSummary < Sha256.approxLog32 target

theorem applyBlock_hasWork_iff (h : n.applyBlock skipNothing pinned b = (n', .ok u))
    (hnum : 2116800 ≤ b.blockNum) :
    HasWork P.toCrypto n.objects.dgp.miningTarget b ↔ ∃ t ∈ b.transactions, t.hasPowOp = true := by
  obtain ⟨s, hs, -⟩ := applyBlock_ok h
  constructor
  · rintro ⟨t, ht, o, w, ho, -⟩
    exact ⟨t, ht, List.any_eq_true.2 ⟨_, ho, rfl⟩⟩
  · intro hpow
    obtain ⟨o, ho⟩ := firstPow_isSome_iff.2 hpow
    obtain ⟨w, hw, htarget, -, hwitness⟩ := applyBlock_firstPow hs hnum ho
    obtain ⟨t, ht, hmem⟩ := mem_of_firstPow ho
    obtain ⟨v, v', -, htx⟩ := applyBlock_transaction hs ht
    obtain ⟨hvalid, -⟩ := applyTransaction_ok rfl htx
    obtain ⟨hproof, -⟩ := Transaction.validate_pow hvalid hmem hw
    exact ⟨t, ht, o, w, hmem, hw, hwitness.symm, hproof, htarget⟩

def idleNode (k : Nat) : Node toyParams :=
  { db := ⟨idleState k, k, []⟩, blockLog := [idleBlock (k + 1 - xgtMaxWitnesses)] }

def workBlock (parent : BlockId) (seconds num : Nat) (hashed : BlockId) : SignedBlock :=
  toyBlock parent seconds [toyTransaction num [.pow (toyPow hashed parent)] [1] (xgtGenesisTime + seconds + 60)]

theorem idleNode_works : ((idleNode 2116801).applyBlock skipNothing [] (workBlock (idleId 2116801)
    2116802 0 (idleId 2116801))).2 = .ok () := by
  decide +kernel

theorem workBlock_hasWork :
    ∃ n' : Node toyParams,
      (idleNode 2116801).applyBlock skipNothing [] (workBlock (idleId 2116801)
        2116802 0 (idleId 2116801)) = (n', .ok ()) ∧
      HasWork toyParams.toCrypto (idleNode 2116801).objects.dgp.miningTarget
        (workBlock (idleId 2116801) 2116802 0 (idleId 2116801)) := by
  refine ⟨_, Prod.ext rfl idleNode_works, ?_⟩
  exact (applyBlock_hasWork_iff (Prod.ext rfl idleNode_works) (by decide +kernel)).2
    ⟨_, .head _, by decide +kernel⟩

end Node

theorem idleBlock_without_work :
    ∃ (blocks : List SignedBlock) (n : Node toyParams),
      n = (Node.init toyParams).pushBlocks blocks ∧
      (n.pushBlock skipNothing 0 (idleBlock 2116800)).2 = .ok false ∧
      (n.pushBlock skipNothing 0 (idleBlock 2116800)).1.headBlockId = idleId 2116800 ∧
      (idleBlock 2116800).blockNum = 2116800 ∧
      ¬Node.HasWork toyParams.toCrypto n.objects.dgp.miningTarget (idleBlock 2116800) := by
  obtain ⟨n, blocks, hrun, hlinear, hobjects⟩ := idleNode_reaches (k := 2116799) (by omega)
  obtain ⟨hok, -, hdb⟩ := idleNode_push (by omega) hlinear hobjects
  refine ⟨blocks, n, hrun.symm, hok, ?_, idleBlock_blockNum (by omega), ?_⟩
  · rw [Node.headBlockId, Node.objects, hdb]
    rfl
  · rintro ⟨t, ht, -⟩
    cases ht

namespace Node

variable {P : Params} {b b1 b2 : SignedBlock} {w w1 w2 : Sha2Pow}

/-! ## Work and its parent -/

/-- The work is the first in the block, the one that is paid. -/
def RewardedFor (b : SignedBlock) (w : Sha2Pow) : Prop :=
  ∃ o, Objects.firstPow b = some o ∧ o.work = .sha2Pow w

theorem RewardedFor.prevBlock_eq {n n' : Node P} {skip : SkipFlags} {pinned : List ForkItem}
    {u : Unit} (hw : RewardedFor b w) (h : n.applyBlock skip pinned b = (n', .ok u))
    (hnum : 2116800 ≤ b.blockNum) : w.prevBlock = b.previous := by
  obtain ⟨o, ho, hwork⟩ := hw
  obtain ⟨s, hs, -⟩ := applyBlock_ok h
  obtain ⟨w', hw', -, hprevious, -⟩ := applyBlock_firstPow hs hnum ho
  rw [hwork] at hw'
  cases hw'
  exact hprevious

theorem rewarded_inputs_iff {n1 n1' n2 n2' : Node P} {skip1 skip2 : SkipFlags}
    {pinned1 pinned2 : List ForkItem} {u1 u2 : Unit}
    (h1 : n1.applyBlock skip1 pinned1 b1 = (n1', .ok u1)) (hnum1 : 2116800 ≤ b1.blockNum)
    (h2 : n2.applyBlock skip2 pinned2 b2 = (n2', .ok u2)) (hnum2 : 2116800 ≤ b2.blockNum)
    (hparents : b1.previous ≠ b2.previous) (hw1 : RewardedFor b1 w1) (hw2 : RewardedFor b2 w2) :
    (w1.input.prevBlock = b1.previous ∧ w2.input.prevBlock = b2.previous ∧ w1.input ≠ w2.input) ↔
      (w1.input.prevBlock = w1.prevBlock ∧ w2.input.prevBlock = w2.prevBlock) := by
  rw [hw1.prevBlock_eq h1 hnum1, hw2.prevBlock_eq h2 hnum2]
  constructor
  · rintro ⟨hinput1, hinput2, -⟩
    exact ⟨hinput1, hinput2⟩
  · rintro ⟨hinput1, hinput2⟩
    refine ⟨hinput1, hinput2, fun hsame => hparents ?_⟩
    rw [← hinput1, ← hinput2, hsame]

theorem workBlock_inputs :
    ∃ w1 w2 : Sha2Pow,
      RewardedFor (workBlock (idleId 2116801) 2116802 0 (idleId 2116801)) w1 ∧
      RewardedFor (workBlock (idleId 2116802) 2116803 0 (idleId 2116802)) w2 ∧
      w1.input.prevBlock = idleId 2116801 ∧ w2.input.prevBlock = idleId 2116802 ∧
      w1.input ≠ w2.input := by
  have hok : ((idleNode 2116802).applyBlock skipNothing [] (workBlock (idleId 2116802)
    2116803 0 (idleId 2116802))).2 = .ok () := by decide +kernel
  refine ⟨_, _, ⟨_, rfl, rfl⟩, ⟨_, rfl, rfl⟩, ?_⟩
  exact (rewarded_inputs_iff (Prod.ext rfl idleNode_works) (by decide +kernel) (Prod.ext rfl hok)
    (by decide +kernel) (by decide +kernel) ⟨_, rfl, rfl⟩ ⟨_, rfl, rfl⟩).2 ⟨rfl, rfl⟩

def minerBalance (s : Objects) : Option Asset :=
  (s.findAccount xgtInitMinerName).map fun r => r.2.balance

theorem workBlock_reused :
    ∃ (blocks : List SignedBlock) (b1 b2 : SignedBlock) (n n1 n2 : Node toyParams) (w1 w2 : Sha2Pow),
      n = (init toyParams).pushBlocks blocks ∧
      n.pushBlock skipNothing 0 b1 = (n1, .ok false) ∧
      n1.pushBlock skipNothing 0 b2 = (n2, .ok false) ∧
      b1.blockNum = 2116802 ∧ b2.blockNum = 2116803 ∧ b1.previous ≠ b2.previous ∧
      RewardedFor b1 w1 ∧ RewardedFor b2 w2 ∧ w1.input = w2.input ∧
      minerBalance n.objects = some (.xgt xgtInitSupply) ∧
      minerBalance n2.objects = some (.xgt (xgtInitSupply + 2 * 4166166)) := by
  let b1 := workBlock (idleId 2116801) 2116802 1 .zero
  let b2 := workBlock (toyId b1) 2116803 2 .zero
  obtain ⟨n, blocks, hrun, hlinear, hobjects⟩ := idleNode_reaches (k := 2116801) (by omega)
  obtain ⟨s2, hs, hbalance⟩ := exists_ok_of_any (x := do
      let s ← (idleState 2116801).applyBlock toyParams toyEnv b1
      s.applyBlock toyParams toyEnv b2)
    (p := fun s => minerBalance s = some (.xgt (xgtInitSupply + 2 * 4166166)))
    (by decide +kernel)
  obtain ⟨s1, hs1, hs2⟩ := of_bind hs
  have htip := applyBlock_tip hs1
  obtain ⟨hok1, hlinear1, hobjects1⟩ := pushBlock_toy (b := b1) hlinear
    (by rw [headBlockId, hobjects]; rfl) (by rw [hobjects]; decide) (by rw [hobjects]; decide)
    (by decide +kernel) (hobjects ▸ hs1)
  have hnum1 : s1.headBlockNum = 2116802 := congrArg Prod.fst htip
  have hid1 : s1.headBlockId = toyId b1 := congrArg (fun t => t.2.1) htip
  obtain ⟨hok2, -, hobjects2⟩ := pushBlock_toy (b := b2) hlinear1
    (by rw [headBlockId, hobjects1, hid1]; rfl) (by rw [hobjects1, hnum1]; decide)
    (by rw [hobjects1, hnum1]; decide) (by decide +kernel) (hobjects1 ▸ hs2)
  refine ⟨blocks, b1, b2, n, _, _, _, _, hrun.symm, Prod.ext rfl hok1, Prod.ext rfl hok2,
    by decide +kernel, by decide +kernel, by decide +kernel, ⟨_, rfl, rfl⟩, ⟨_, rfl, rfl⟩, rfl, ?_, ?_⟩
  · rw [hobjects]
    decide +kernel
  · rw [hobjects2]
    exact of_decide_eq_true hbalance

end Node

end Xgt
