import XgtChain.Base.UndoStack
import XgtChain.Chain.ForkDatabase
import XgtChain.Chain.ApplyBlock

/-!
# Pushing blocks

A node (`Node`), and what `push_block` does to it.
-/

namespace Xgt

open Base

structure Node (P : Params) where
  db : UndoStack Objects
  forkDb : ForkDatabase P.toCrypto := {}
  blockLog : List SignedBlock := []
  pendingTx : List SignedTransaction := []
  pendingState : Option Objects := none
  poppedTx : List SignedTransaction := []
  checkpoints : List (Nat × BlockId) := []
  draws : Nat := 0
  handed : List (BlockId × SignedBlock) := []

namespace Node

variable {P : Params} (n : Node P) (skip : SkipFlags) (pinned : List ForkItem) (b : SignedBlock)
  (blocks : List SignedBlock) (num : Nat) (xs : List ForkItem) (budget : Nat)

def objects : Objects := n.db.state

def pendingObjects : Objects := n.pendingState.getD n.objects

def headBlockId : BlockId := n.objects.headBlockId

def readBlockByNum : Option SignedBlock := n.blockLog.find? fun b => b.blockNum = num

def fetchBlockById (id : BlockId) : Option SignedBlock :=
  match n.forkDb.fetchBlock id with
  | some x => some x.data
  | none => (n.readBlockByNum (numFromId id)).filter fun b => P.blockId b.toSignedBlockHeader = id

def fetchPriorBlock : Option SignedBlock :=
  (n.readBlockByNum num).or ((n.forkDb.fetchBlockByNumber num).head?.map ForkItem.data)

def env (pending : Bool) : Env where
  skip := skip
  producing := pending
  pendingTx := pending
  random := P.random n.draws
  fetchBlockById := n.fetchBlockById
  fetchPriorBlock := n.fetchPriorBlock

def logHeadNum : Nat :=
  match n.blockLog.getLast? with
  | some b => b.blockNum
  | none => 0

def mainBranchBlock : Result SignedBlock :=
  match n.forkDb.fetchBlockOnMainBranchByNumber pinned num with
  | some x => .ok x.data
  | none => .error ⟨.assertException,
      "Current fork in the fork database does not contain the last_irreversible_block"⟩

def blocksToWrite : Result (List SignedBlock) :=
  if skip.skipBlockLog then .ok []
  else (List.range' (n.logHeadNum + 1)
    (n.objects.lib - n.logHeadNum)).mapM (n.mainBranchBlock pinned)

def checkForkHead : Result Unit :=
  match n.forkDb.head with
  | some h => fcAssert (h.num = n.objects.headBlockNum) "Fork Head"
  | none => .ok ()

def migrateIrreversibleState : Result (Node P) := do
  n.checkForkHead
  let blocks ← n.blocksToWrite skip pinned
  let lib := n.objects.lib
  let size := (n.objects.headBlockNum + 2 ^ 32 - lib + 1) % 2 ^ 32
  pure { n with
    blockLog := n.blockLog ++ blocks
    forkDb := (n.forkDb.setMaxSize size).setMaxSize xgtForkDbMaxSize
    db := n.db.commit lib }

def applyBlock : Node P × Result Unit :=
  let n0 := { n with draws := n.draws + 1, handed := (n.headBlockId, b) :: n.handed }
  match n.objects.applyBlock P (n.env skip false) b with
  | .error e => (n0, .error e)
  | .ok s =>
    match { n0 with db := n.db.start.set s }.migrateIrreversibleState skip pinned with
    | .error e => (n0, .error e)
    | .ok n1 => (n1, .ok ())

def clearPending : Node P := { n with pendingTx := [], pendingState := none }

def popBlock : Node P × Result Unit :=
  let n := { n with pendingState := none }
  match n.fetchBlockById n.headBlockId with
  | none => (n, .error ⟨.popEmptyChain, "there are no blocks to pop"⟩)
  | some b =>
    match n.forkDb.popBlock pinned with
    | .error e => (n, .error e)
    | .ok forkDb => ({ n with
        forkDb := forkDb
        db := n.db.undo
        poppedTx := b.transactions ++ n.poppedTx }, .ok ())

def popUntil (pinned : List ForkItem) (id : BlockId) : Nat → Node P → Node P × Result Unit
  | 0, n => (n, .error ⟨.assertException, "popping head block would leave fork DB empty"⟩)
  | fuel + 1, n =>
    if n.headBlockId = id then (n, .ok ())
    else match n.popBlock pinned with
      | (n, .error e) => (n, .error e)
      | (n, .ok _) => popUntil pinned id fuel n

def popFuel : Nat := n.forkDb.head.elim 0 ForkItem.num + 1

def applyBranch (skip : SkipFlags) (pinned : List ForkItem) :
    List ForkItem → Node P → Node P × Option (Exc × List ForkItem)
  | [], n => (n, none)
  | x :: xs, n =>
    match { n with forkDb := n.forkDb.setHead x }.applyBlock skip pinned x.data with
    | (n, .ok _) => applyBranch skip pinned xs n
    | (n, .error e) => (n, some (e, x :: xs))

def removeItems : Node P :=
  { n with forkDb := xs.foldl (fun f x => f.remove (x.id P.toCrypto)) n.forkDb }

def restoreBranch (pinned second : List ForkItem) (point : BlockId) (e : Exc) : Node P × Result Bool :=
  match popUntil pinned point n.popFuel n with
  | (n, .error e) => (n, .error e)
  | (n, .ok _) =>
    match applyBranch skip pinned second.reverse n with
    | (n, none) => (n, .error e)
    | (n, some (e, _)) => (n, .error e)

def switchBranch (pinned first second : List ForkItem) (point : BlockId) : Node P × Result Bool :=
  match popUntil pinned point n.popFuel n with
  | (n, .error e) => (n, .error e)
  | (n, .ok _) =>
    match applyBranch skip pinned first.reverse n with
    | (n, none) => (n, .ok true)
    | (n, some (e, rest)) => (n.removeItems rest).restoreBranch skip pinned second point e

def branchPoint : BlockId := xs.getLast?.elim .zero fun x => x.data.previous

def switchForks (newHead : ForkItem) : Node P × Result Bool :=
  match n.forkDb.fetchBranchFrom (newHead.id P.toCrypto) n.headBlockId with
  | .error e => (n, .error e)
  | .ok (first, second) =>
    n.switchBranch skip (newHead :: first ++ second) first second (branchPoint second)

/-! ## `push_block` -/

def extend : Node P × Result Bool :=
  match n.applyBlock skip [] b with
  | (n, .ok _) => (n, .ok false)
  | (n, .error e) =>
    ({ n with forkDb := n.forkDb.remove (P.blockId b.toSignedBlockHeader) }, .error e)

def pushBlockCore : Node P × Result Bool :=
  if skip.skipForkDb then n.extend skip b
  else match n.forkDb.pushBlock b with
    | (forkDb, .error e) => ({ n with forkDb := forkDb }, .error e)
    | (forkDb, .ok newHead) =>
      let n := { n with forkDb := forkDb }
      if newHead.data.previous = n.headBlockId then n.extend skip b
      else if n.objects.headBlockNum < newHead.num then n.switchForks skip newHead
      else (n, .ok false)

def pushTransactionCore (pending : Bool) (t : SignedTransaction) : Node P × Result Unit :=
  let s := n.pendingObjects
  let n0 := { n with pendingState := some s, draws := n.draws + 1 }
  match s.applyTransaction P.toCrypto t (n.env skip pending) with
  | .error e => (n0, .error e)
  | .ok s => ({ n0 with pendingState := some s, pendingTx := n.pendingTx ++ [t] }, .ok ())

def pushTransaction (t : SignedTransaction) : Node P × Result Unit :=
  if P.transactionSize t ≤ n.pendingObjects.dgp.maximumBlockSize - 256 then
    n.pushTransactionCore skip true t
  else (n, .error ⟨.assertException, "pack_size"⟩)

def restoreTransaction (r : Node P × Nat) (t : SignedTransaction) : Node P × Nat :=
  if (2116800 < r.1.pendingObjects.headBlockNum ∧ t.hasPowOp) ∨
      r.1.pendingObjects.isKnownTransaction (P.transactionId t.toTransaction) then r
  else match r.2 with
    | 0 => ({ r.1 with pendingTx := r.1.pendingTx ++ [t] }, 0)
    | budget + 1 => ((r.1.pushTransactionCore skip false t).1, budget)

def restorePending (pending : List SignedTransaction) : Node P :=
  let r := n.poppedTx.foldl (restoreTransaction skip) (n, budget)
  (pending.foldl (restoreTransaction skip) ({ r.1 with poppedTx := [] }, r.2)).1

def checkpointSkip : SkipFlags where
  skipWitnessSignature := true
  skipTransactionSignatures := true
  skipTransactionDupeCheck := true
  skipBlockSizeCheck := true
  skipTaposCheck := true
  skipAuthorityCheck := true
  skipUndoHistoryCheck := true
  skipValidate := true
  skipValidateInvariants := true

def checkpointFlags : Result SkipFlags :=
  match n.checkpoints.getLast? with
  | none => .ok skip
  | some last =>
    if last.2 = BlockId.zero then .ok skip
    else do
      fcAssert (n.checkpoints.all fun c =>
        c.1 ≠ b.blockNum || P.blockId b.toSignedBlockHeader = c.2) "Block did not match checkpoint"
      pure (if b.blockNum ≤ last.1 then checkpointSkip else skip)

def pushBlock (b : SignedBlock) : Node P × Result Bool :=
  match n.checkpointFlags skip b with
  | .error e => (n, .error e)
  | .ok skip =>
    let r := n.clearPending.pushBlockCore skip b
    (r.1.restorePending skip budget n.pendingTx, r.2)

def pushBlocks : Node P :=
  blocks.foldl (fun n b => (n.pushBlock skipNothing 0 b).1) n

theorem pushBlocks_concat (b : SignedBlock) :
    n.pushBlocks (blocks ++ [b]) = ((n.pushBlocks blocks).pushBlock skipNothing 0 b).1 := by
  rw [pushBlocks, List.foldl_append]
  rfl

def init (P : Params) : Node P := { db := ⟨genesis P.initPublicKey, 0, []⟩ }

/-! ## One step at a time -/

section Steps

variable {n} {n' : Node P} {skip} {pinned} {b} {e : Exc}
  {r : Result Unit} {pending : List SignedTransaction} {u : Unit} {t : SignedTransaction} {budget}

theorem checkpointFlags_of_nil (skip : SkipFlags) (b : SignedBlock) (h : n.checkpoints = []) :
    n.checkpointFlags skip b = .ok skip := by
  rw [checkpointFlags, h]
  rfl

theorem checkpointFlags_eq {skip' : SkipFlags} (h : n.checkpointFlags skip b = .ok skip') :
    skip' = skip ∨ skip' = checkpointSkip := by
  unfold checkpointFlags at h
  split at h
  · cases h
    exact .inl rfl
  · split_ifs at h
    · cases h
      exact .inl rfl
    · obtain ⟨_, -, h⟩ := of_bind h
      cases h
      exact .inr rfl
    · obtain ⟨_, -, h⟩ := of_bind h
      cases h
      exact .inl rfl

def hand (n : Node P) (b : SignedBlock) : Node P :=
  { n with draws := n.draws + 1, handed := (n.headBlockId, b) :: n.handed }

theorem migrateIrreversibleState_ok (h : n.migrateIrreversibleState skip pinned = .ok n') :
    ∃ blocks, n.checkForkHead = .ok () ∧ n.blocksToWrite skip pinned = .ok blocks ∧
      n' = { n with
        blockLog := n.blockLog ++ blocks
        forkDb := (n.forkDb.setMaxSize ((n.objects.headBlockNum + 2 ^ 32 -
          n.objects.lib + 1) % 2 ^ 32)).setMaxSize xgtForkDbMaxSize
        db := n.db.commit n.objects.lib } := by
  obtain ⟨_, hhead, h⟩ := of_bind h
  obtain ⟨blocks, hblocks, h⟩ := of_bind h
  cases h
  exact ⟨blocks, hhead, hblocks, rfl⟩

theorem applyBlock_error (h : n.applyBlock skip pinned b = (n', .error e)) : n' = n.hand b := by
  unfold applyBlock at h
  dsimp only at h
  split at h
  · cases h
    rfl
  · split at h
    · cases h
      rfl
    · cases h

theorem applyBlock_ok (h : n.applyBlock skip pinned b = (n', .ok u)) :
    ∃ s, n.objects.applyBlock P (n.env skip false) b = .ok s ∧
      { n.hand b with db := n.db.start.set s }.migrateIrreversibleState skip pinned = .ok n' := by
  unfold applyBlock at h
  dsimp only at h
  split at h
  · cases h
  · next s hs =>
    split at h
    · cases h
    · next n1 hn1 =>
      cases h
      exact ⟨s, hs, hn1⟩

theorem applyBlock_objects (h : n.applyBlock skip pinned b = (n', .ok u)) :
    n.objects.applyBlock P (n.env skip false) b = .ok n'.objects := by
  obtain ⟨s, hs, hmigrate⟩ := applyBlock_ok h
  obtain ⟨blocks, -, -, rfl⟩ := migrateIrreversibleState_ok hmigrate
  exact hs

theorem applyBlock_of_ok {s : Objects} (hs : n.objects.applyBlock P (n.env skip false) b = .ok s)
    (hmigrate : { n.hand b with db := n.db.start.set s }.migrateIrreversibleState skip pinned = .ok n') :
    n.applyBlock skip pinned b = (n', .ok ()) := by
  rw [hand] at hmigrate
  unfold applyBlock
  simp only [hs, hmigrate]

theorem applyBlock_handed (h : n.applyBlock skip pinned b = (n', r)) :
    n'.handed = (n.headBlockId, b) :: n.handed := by
  cases r with
  | error e => rw [applyBlock_error h, hand]
  | ok u =>
    obtain ⟨s, -, hmigrate⟩ := applyBlock_ok h
    obtain ⟨blocks, -, -, rfl⟩ := migrateIrreversibleState_ok hmigrate
    rfl

theorem applyBlock_headBlockId (h : n.applyBlock skip pinned b = (n', .ok u)) :
    n'.headBlockId = P.blockId b.toSignedBlockHeader :=
  congrArg (fun t => t.2.1) (Objects.applyBlock_tip (applyBlock_objects h))

theorem popBlock_cases (h : n.popBlock pinned = (n', r)) :
    (∃ e, r = .error e ∧ n' = { n with pendingState := none }) ∨
    ∃ b p, r = .ok () ∧ n.fetchBlockById n.headBlockId = some b ∧ (n.forkDb.Holds p ∨ p ∈ pinned) ∧
      n' = { n with
        pendingState := none
        forkDb := n.forkDb.setHead p
        db := n.db.undo
        poppedTx := b.transactions ++ n.poppedTx } := by
  unfold popBlock at h
  dsimp only at h
  split at h
  · cases h
    exact .inl ⟨_, rfl, rfl⟩
  · next b hb =>
    split at h
    · cases h
      exact .inl ⟨_, rfl, rfl⟩
    · next F hpop =>
      cases h
      obtain ⟨p, hp, rfl⟩ := ForkDatabase.popBlock_ok hpop
      exact .inr ⟨b, p, rfl, hb, hp, rfl⟩

theorem popBlock_handed (h : n.popBlock pinned = (n', r)) : n'.handed = n.handed := by
  rcases popBlock_cases h with ⟨_, -, rfl⟩ | ⟨_, _, -, -, -, rfl⟩ <;> rfl

theorem popUntil_headBlockId {id : BlockId} {fuel : Nat}
    (h : popUntil pinned id fuel n = (n', .ok u)) : n'.headBlockId = id := by
  induction fuel generalizing n with
  | zero => cases h
  | succ fuel ih =>
    unfold popUntil at h
    split_ifs at h with hid
    · cases h
      exact hid
    · split at h
      · cases h
      · exact ih h

theorem restoreBranch_ne_ok {second : List ForkItem} {point : BlockId} {v : Bool} :
    n.restoreBranch skip pinned second point e ≠ (n', .ok v) := by
  intro h
  unfold restoreBranch at h
  split at h
  · cases h
  · split at h <;> cases h

abbrev Chain (P : Params) : Type :=
  UndoStack Objects × ForkDatabase P.toCrypto × List SignedBlock × List (Nat × BlockId) ×
    List (BlockId × SignedBlock)

def chain (n : Node P) : Chain P :=
  (n.db, n.forkDb, n.blockLog, n.checkpoints, n.handed)

theorem pushTransactionCore_chain {pending : Bool} :
    (n.pushTransactionCore skip pending t).1.chain = n.chain := by
  unfold pushTransactionCore
  dsimp only
  split <;> rfl

theorem restoreTransaction_chain {r : Node P × Nat} : (restoreTransaction skip r t).1.chain = r.1.chain := by
  unfold restoreTransaction
  split_ifs
  · rfl
  · split
    · rfl
    · exact pushTransactionCore_chain

theorem restorePending_chain : (n.restorePending skip budget pending).chain = n.chain := by
  have hfold (txs : List SignedTransaction) (r : Node P × Nat) :
      (txs.foldl (restoreTransaction skip) r).1.chain = r.1.chain := by
    induction txs generalizing r with
    | nil => rfl
    | cons t txs ih => exact (ih _).trans restoreTransaction_chain
  exact (hfold pending _).trans (hfold n.poppedTx (n, budget))

theorem restorePending_handed : (n.restorePending skip budget pending).handed = n.handed := by
  have h : (n.restorePending skip budget pending).chain = n.chain := restorePending_chain
  exact congrArg (fun c => c.2.2.2.2) h

end Steps

end Node

/-- A block, the given number of seconds after genesis. -/
def toyBlock (previous : BlockId) (seconds : Nat) (transactions : List SignedTransaction := [])
    (witness : WalletName := xgtInitMinerName) : SignedBlock :=
  let b : SignedBlock :=
    { previous := previous
      timestamp := xgtGenesisTime + seconds
      witness := witness
      transactionMerkleRoot := ⟨0⟩
      extensions := []
      witnessSignature := ⟨1⟩
      transactions := transactions }
  { b with transactionMerkleRoot := calculateMerkleRoot toyParams.toCrypto b }

theorem checkMerkleRoot_toyBlock (parent : BlockId) (seconds : Nat) (txs : List SignedTransaction) :
    checkMerkleRoot toyParams.toCrypto (toyBlock parent seconds txs) = .ok () :=
  fcAssert_ok_iff.2 (Bool.or_eq_true_iff.2 (.inl (decide_eq_true rfl)))

def toyId (b : SignedBlock) : BlockId := toyParams.blockId b.toSignedBlockHeader

def toyChain (parent : BlockId) (seconds : Nat) : Nat → List SignedBlock
  | 0 => []
  | k + 1 =>
    let b := toyBlock parent seconds
    b :: toyChain (toyId b) (seconds + 1) k

def toyRun (keys : List Nat) (parent : BlockId) (seconds : Nat) : List (List Operation) → List SignedBlock
  | [] => []
  | ops :: rest =>
    let b := toyBlock parent seconds [toyTransaction 0 ops keys (xgtGenesisTime + seconds + 30)]
    b :: toyRun keys (toyId b) (seconds + 3) rest

end Xgt
