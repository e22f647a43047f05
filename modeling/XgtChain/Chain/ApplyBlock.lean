import Mathlib.Data.List.Induction
import XgtChain.Chain.ApplyTransaction

/-!
# `_apply_block`

What a block does to the chain's objects: `_apply_block` up to `migrate_irreversible_state`.
-/

namespace Xgt

open Base List Call

def hashPairs (cr : Crypto) : List Sha256 → List Sha256
  | a :: b :: l => cr.hashPair a b :: hashPairs cr l
  | l => l

def merkleRounds (cr : Crypto) : Nat → List Sha256 → List Sha256
  | 0, l => l
  | fuel + 1, l => if l.length ≤ 1 then l else merkleRounds cr fuel (hashPairs cr l)

def calculateMerkleRoot (cr : Crypto) (b : SignedBlock) : Checksum :=
  match merkleRounds cr b.transactions.length (b.transactions.map cr.merkleDigest) with
  | [] => ⟨0⟩
  | d :: _ => cr.checksum d

def checkMerkleRoot (cr : Crypto) (b : SignedBlock) : Result Unit :=
  fcAssert (b.transactionMerkleRoot = calculateMerkleRoot cr b ||
    sharedDbMerkle.lookup b.blockNum = some (calculateMerkleRoot cr b)) "Merkle check failed"

namespace Objects

variable (s : Objects) (b : SignedBlock) (cr : Crypto) (P : Params) (env : Env)

def processHeaderExtension (witness : WalletName) : BlockHeaderExtension → Result Objects
  | .version v => do
    let w ← s.getWitness witness
    let witnesses ← dbModify s.witnesses w.1 { w.2 with runningVersion := v }
    pure { s with witnesses := witnesses }
  | .hardforkVersionVote v => do
    let w ← s.getWitness witness
    let witnesses ← dbModify s.witnesses w.1
      { w.2 with hardforkVersionVote := v.hfVersion.toHardfork, hardforkTimeVote := v.hfTime }
    pure { s with witnesses := witnesses }
  | _ => .ok s

def processHeaderExtensions : Result Objects :=
  b.extensions.foldlM (fun s e => s.processHeaderExtension b.witness e) s

def checkWitness : Result Unit := do
  let w ← s.getWitness b.witness
  fcAssert (s.hardforks.currentHardforkVersion.vNum ≤ w.2.runningVersion.vNum)
    "Block produced by witness that is not running current hardfork"

def applyTransactions (txs : List SignedTransaction) : Result Objects :=
  txs.foldlM (fun s t => s.applyTransaction cr t env) s

/-! ## After the transactions -/

def setHead (b : SignedBlock) : Objects :=
  { s with dgp := { s.dgp with
      headBlockNumber := b.blockNum
      headBlockId := cr.blockId b.toSignedBlockHeader
      time := b.timestamp } }

def updateGlobalDynamicData (b : SignedBlock) : Result Objects := do
  let s := s.setHead cr b
  unlessSkipped env.skip.skipUndoHistoryCheck
    (ensure ((s.headBlockNum + 2 ^ 32 - s.lib) % 2 ^ 32 < xgtMaxUndoHistory)
      ⟨.undoDatabase, "The database does not have enough undo history"⟩)
  pure s

theorem updateGlobalDynamicData_recent {s : Objects} {b : SignedBlock}
    (h : (b.blockNum + 2 ^ 32 - s.lib) % 2 ^ 32 < xgtMaxUndoHistory) :
    s.updateGlobalDynamicData cr env b = .ok (s.setHead cr b) := by
  have hcheck : ∀ e : Exc, ensure (decide (((s.setHead cr b).headBlockNum + 2 ^ 32 -
      (s.setHead cr b).lib) % 2 ^ 32 < xgtMaxUndoHistory)) e = .ok () :=
    fun e => ensure_ok h
  unfold updateGlobalDynamicData
  dsimp only
  rw [hcheck]
  cases env.skip.skipUndoHistoryCheck <;> rfl

def updateLastIrreversibleBlock : Objects :=
  if xgtMaxWitnesses < s.headBlockNum then
    { s with dgp := { s.dgp with lastIrreversibleBlockNum := s.headBlockNum - xgtMaxWitnesses } }
  else s

def createBlockSummary (b : SignedBlock) : Objects :=
  { s with blockSummaries := fun i =>
      if i = b.blockNum % 2 ^ 16 then cr.blockId b.toSignedBlockHeader else s.blockSummaries i }

def clearExpiredTransactions : Objects :=
  { s with transactions := s.transactions.removeIf fun t => t.expiration < s.headBlockTime }

def clearNullWalletBalance : Result Objects := do
  let w ← s.getAccount xgtNullWallet
  if 0 < w.2.balance.amount then
    let wallets ← dbModify s.wallets w.1 { w.2 with balance := { w.2.balance with amount := 0 } }
    pure { s with wallets := wallets }
  else pure s

def firstPow : Option PowOperation :=
  (b.transactions.flatMap fun t => t.operations).findSome? Operation.pow?

def rewardPow (o : PowOperation) : Result Objects := do
  let work ← getSha2Pow o.work
  fcAssert (work.powSummary < s.getPowSummaryTarget) "Insufficient work difficulty."
  fcAssert (work.prevBlock = b.previous) "Op prev block id doesn't match prev block id."
  fcAssert (b.witness = o.getWorkerName) "Block miner name and op miner name do not match."
  ensure (s.findAccount work.input.workerAccount).isSome ⟨.operationValidate, "no wallet"⟩
  ensure (s.findWitness work.input.workerAccount).isSome ⟨.operationValidate, "no witness"⟩
  s.adjustBalance work.input.workerAccount (miningReward s.headBlockNum)

def rewardMiner : Result Objects :=
  if 2116800 ≤ s.headBlockNum then
    match firstPow b with
    | some o => s.rewardPow b o
    | none => .ok s
  else .ok s

def adjustDifficulty (b : SignedBlock) : Result Objects :=
  if b.blockNum = 1 then
    .ok { s with dgp := { s.dgp with miningTarget := xgtMiningTargetStart } }
  else if b.blockNum % 302400 = 1 then
    match env.fetchPriorBlock (b.blockNum - 302400) with
    | none => .error ⟨.other, "no block at the start of the period"⟩
    | some prior =>
      let next := P.nextTarget s.dgp.miningTarget ((b.timestamp : Int) - prior.timestamp)
      .ok { s with dgp := { s.dgp with
        miningTarget := if maxTarget.toNat ≤ next.toNat then maxTarget else next } }
  else .ok s

def processHardforks : Result Objects := do
  fcAssert (¬(0 < s.hardforks.nextHardfork.vNum ∧ s.hardforks.nextHardforkTime ≤ s.headBlockTime))
    "unknown_hardfork_exception"
  pure s

def finishBlock (b : SignedBlock) : Result Objects := do
  let s ← s.updateGlobalDynamicData P.toCrypto env b
  let s := s.updateLastIrreversibleBlock
  let s := s.createBlockSummary P.toCrypto b
  let s := s.clearExpiredTransactions
  let s ← s.clearNullWalletBalance
  let s ← s.rewardMiner b
  let s ← s.adjustDifficulty P env b
  s.processHardforks

def applyBlock (b : SignedBlock) : Result Objects := do
  unlessSkipped env.skip.skipMerkleCheck (checkMerkleRoot P.toCrypto b)
  fcAssert (P.packSize b ≤ s.dgp.maximumBlockSize) "Block Size is too Big"
  let s ← s.processHeaderExtensions b
  s.checkWitness b
  let s ← s.applyTransactions P.toCrypto env b.transactions
  s.finishBlock P env b

/-! ## Inversion -/

section Inversion

variable {s s' : Objects} {P} {env} {b} {p : Call → Prop} {o : PowOperation}

theorem processHeaderExtension_idle {witness : WalletName} {e : BlockHeaderExtension}
    (h : s.processHeaderExtension witness e = .ok s') : Does (On [.witness] Idle) s s' := by
  unfold processHeaderExtension at h
  split at h
  · obtain ⟨w, hw, h⟩ := of_bind h
    obtain ⟨witnesses, hmod, h⟩ := of_bind h
    cases h
    exact .on (by simp) (.witness (.modify (of_getRow hw).1 (dbModify_ok_iff.1 hmod) fun _ => rfl)) trivial
  · obtain ⟨w, hw, h⟩ := of_bind h
    obtain ⟨witnesses, hmod, h⟩ := of_bind h
    cases h
    exact .on (by simp) (.witness (.modify (of_getRow hw).1 (dbModify_ok_iff.1 hmod) fun _ => rfl)) trivial
  · cases h
    exact .refl

section

variable (h : s.processHeaderExtensions b = .ok s')
include h

theorem processHeaderExtensions_on : Does (On [.witness] Idle) s s' :=
  foldlM_ok_of_step (P := fun u => Does (On [.witness] Idle) s u) h .refl
    fun _ _ _ _ hu hstep => hu.trans (processHeaderExtension_idle hstep)

theorem processHeaderExtensions_idle :
    Does Idle s s' := (processHeaderExtensions_on h).all

theorem processHeaderExtensions_outside : Does Outside s s' := by
  refine (processHeaderExtensions_on h).mono fun c hc => ?_
  have htable := mem_singleton.1 hc.1
  cases c <;> trivial

theorem processHeaderExtensions_frame :
    s'.frame = s.frame := (processHeaderExtensions_idle h).frame_of_idle

end

theorem applyTransactions_chainPart {txs : List SignedTransaction}
    (h : s.applyTransactions P.toCrypto env txs = .ok s') : s'.chainPart = s.chainPart :=
  foldlM_ok_of_step (P := fun u => u.chainPart = s.chainPart) h rfl fun _ _ _ _ hu hstep =>
    (applyTransaction_chainPart hstep).trans hu

theorem applyBlock_ok (h : s.applyBlock P env b = .ok s') :
    ∃ s1 s2, s.processHeaderExtensions b = .ok s1 ∧ s1.checkWitness b = .ok () ∧
      s1.applyTransactions P.toCrypto env b.transactions = .ok s2 ∧
      s2.finishBlock P env b = .ok s' := by
  unfold applyBlock at h
  iterate 2 obtain ⟨_, -, h⟩ := of_bind h
  simp only [bind_ok_iff] at h
  obtain ⟨s1, hheader, _, hwitness, s2, htxs, hfinish⟩ := h
  exact ⟨s1, s2, hheader, hwitness, htxs, hfinish⟩

def advance (b : SignedBlock) (s : Objects) : Objects :=
  { s with
    dgp := { s.dgp with
      headBlockNumber := b.blockNum
      headBlockId := cr.blockId b.toSignedBlockHeader
      time := b.timestamp
      lastIrreversibleBlockNum := if xgtMaxWitnesses < b.blockNum then b.blockNum - xgtMaxWitnesses
        else s.lib }
    blockSummaries := fun i =>
      if i = b.blockNum % 2 ^ 16 then cr.blockId b.toSignedBlockHeader else s.blockSummaries i
    transactions := s.transactions.removeIf fun t => t.expiration < b.timestamp }

theorem clearExpiredTransactions_eq_advance (b : SignedBlock) (s : Objects) :
    ((s.setHead cr b).updateLastIrreversibleBlock.createBlockSummary cr b).clearExpiredTransactions
      = s.advance cr b := by
  unfold updateLastIrreversibleBlock advance
  change Objects.clearExpiredTransactions (Objects.createBlockSummary (if xgtMaxWitnesses <
    b.blockNum then _ else _) cr b) = _
  split_ifs <;> rfl

theorem finishBlock_ok (h : s.finishBlock P env b = .ok s') :
    ∃ u1 u2, (s.advance P.toCrypto b).clearNullWalletBalance = .ok u1 ∧ u1.rewardMiner b = .ok u2 ∧
      u2.adjustDifficulty P env b = .ok s' := by
  unfold finishBlock at h
  obtain ⟨s1, hhead, h⟩ := of_bind h
  obtain ⟨_, -, hs1⟩ := of_bind hhead
  cases hs1
  obtain ⟨u1, hclear, h⟩ := of_bind h
  obtain ⟨u2, hreward, h⟩ := of_bind h
  obtain ⟨u3, hadjust, h⟩ := of_bind h
  obtain ⟨_, -, hfork⟩ := of_bind h
  cases hfork
  rw [clearExpiredTransactions_eq_advance] at hclear
  exact ⟨u1, u2, hclear, hreward, hadjust⟩

section

variable (h : s.clearNullWalletBalance = .ok s')
include h

theorem clearNullWalletBalance_ok :
    ∃ w, s.getAccount xgtNullWallet = .ok w ∧ (w.2.balance.amount ≤ 0 ∧ s' = s ∨
      ∃ wallets, s.wallets.modify? w.1 (WalletObject.withAmount w.2 0) = some wallets ∧
        s' = { s with wallets := wallets }) := by
  obtain ⟨w, hw, h⟩ := of_bind h
  refine ⟨w, hw, ?_⟩
  split_ifs at h with hpos
  · obtain ⟨wallets, hmod, h⟩ := of_bind h
    cases h
    exact .inr ⟨wallets, dbModify_ok_iff.1 hmod, rfl⟩
  · cases h
    exact .inl ⟨Int.not_lt.1 hpos, rfl⟩

theorem clearNullWalletBalance_does (hp : ∀ id old a, p (.wallet (.modify id old a))) : Does p s s' := by
  obtain ⟨w, hw, ⟨-, rfl⟩ | ⟨wallets, hmod, rfl⟩⟩ := clearNullWalletBalance_ok h
  · exact .refl
  · exact .call (.wallet (.modify (of_getRow hw).1 hmod fun _ => rfl)) (hp _ _ _)

theorem clearNullWalletBalance_liquid :
    Does Liquid s s' := clearNullWalletBalance_does h fun _ _ _ => trivial

end

section

variable (h : s.rewardMiner b = .ok s')
include h

theorem rewardMiner_ok :
    (2116800 ≤ s.headBlockNum ∧ ∃ o worker, firstPow b = some o ∧
        s.adjustBalance worker (miningReward s.headBlockNum) = .ok s') ∨
      ¬(2116800 ≤ s.headBlockNum ∧ (firstPow b).isSome) ∧ s' = s := by
  unfold rewardMiner at h
  split_ifs at h with hnum
  · split at h
    · next o ho =>
      unfold rewardPow at h
      iterate 6 obtain ⟨_, -, h⟩ := of_bind h
      exact .inl ⟨hnum, o, _, ho, h⟩
    · next hnone =>
      cases h
      refine .inr ⟨fun hpow => ?_, rfl⟩
      rw [hnone] at hpow
      cases hpow.2
  · cases h
    exact .inr ⟨fun hpow => hnum hpow.1, rfl⟩

theorem rewardMiner_does (hp : ∀ id old a, p (.wallet (.modify id old a))) : Does p s s' := by
  obtain ⟨-, o, worker, -, hpaid⟩ | ⟨-, rfl⟩ := rewardMiner_ok h
  · rcases adjustBalance_cases (mem_singleton_self _) hpaid with ⟨hsymbol, -⟩ | ⟨-, hmod⟩
    · exact absurd rfl hsymbol
    · obtain ⟨w, wallets, hw, -, -, hwallet, rfl⟩ := modifyBalance_ok hmod
      exact .call (.wallet (.modify (of_getRow hw).1 hwallet fun _ => rfl)) (hp _ _ _)
  · exact .refl

theorem rewardMiner_liquid : Does Liquid s s' :=
  rewardMiner_does h fun _ _ _ => trivial

end

theorem clearNullWalletBalance_frame (h : s.clearNullWalletBalance = .ok s') :
    s'.frame = s.frame := (clearNullWalletBalance_liquid h).plain.frame

theorem adjustDifficulty_eq (h : s.adjustDifficulty P env b = .ok s') :
    ∃ target, s' = { s with dgp := { s.dgp with miningTarget := target } } := by
  unfold adjustDifficulty at h
  split_ifs at h
  · cases h
    exact ⟨_, rfl⟩
  · split at h <;> cases h
    exact ⟨_, rfl⟩
  · cases h
    exact ⟨_, rfl⟩

theorem advance_does (hdgp : ∀ f, (∀ d, (f d).currentSupply = d.currentSupply) → p (.dgp f))
    (hsummaries : ∀ i id, p (.blockSummary i id))
    (htransactions : ∀ id old, p (.transaction (.remove id old))) : Does p s (s.advance cr b) := by
  have hhead : Does p s { s with dgp := (s.advance cr b).dgp } :=
    .call (.dgp fun d => { d with
      headBlockNumber := b.blockNum
      headBlockId := cr.blockId b.toSignedBlockHeader
      time := b.timestamp
      lastIrreversibleBlockNum := if xgtMaxWitnesses < b.blockNum then b.blockNum - xgtMaxWitnesses
        else d.lastIrreversibleBlockNum }) (hdgp _ fun _ => rfl)
  have hsummary : Does p s { s with
      dgp := (s.advance cr b).dgp, blockSummaries := (s.advance cr b).blockSummaries } :=
    hhead.trans (.call (.blockSummary (b.blockNum % 2 ^ 16) (cr.blockId b.toSignedBlockHeader))
      (hsummaries _ _))
  refine ObjectIndex.removeIf_induction (t := s.transactions) (Q := fun u => Does p s { s with
    dgp := (s.advance cr b).dgp
    blockSummaries := (s.advance cr b).blockSummaries
    transactions := u }) _ hsummary fun hrow hu => ?_
  exact hu.trans (.call (.transaction (.remove hrow)) (htransactions _ _))

theorem advance_still : Does Still s (s.advance cr b) :=
  advance_does cr (fun _ hf => hf) (fun _ _ => trivial) fun _ _ => trivial

theorem finishBlock_outside (h : s.finishBlock P env b = .ok s') : Does Outside s s' := by
  obtain ⟨u1, u2, hclear, hreward, hadjust⟩ := finishBlock_ok h
  obtain ⟨target, rfl⟩ := adjustDifficulty_eq hadjust
  have hadvance : Does Outside s (s.advance P.toCrypto b) :=
    advance_does P.toCrypto (fun _ _ => trivial) (fun _ _ => trivial) fun _ _ => trivial
  refine hadvance.trans <| (clearNullWalletBalance_does hclear fun _ _ _ => trivial).trans <|
    (rewardMiner_does hreward fun _ _ _ => trivial).trans ?_
  exact .call (.dgp fun d => { d with miningTarget := target }) trivial

theorem applyBlock_calls (h : s.applyBlock P env b = .ok s') : Does KeepsSupply s s' := by
  obtain ⟨s1, s2, hheader, -, htxs, hfinish⟩ := applyBlock_ok h
  obtain ⟨u1, u2, hclear, hreward, hadjust⟩ := finishBlock_ok hfinish
  obtain ⟨target, rfl⟩ := adjustDifficulty_eq hadjust
  have htransactions : Does KeepsSupply s1 s2 :=
    foldlM_ok_of_step (P := fun u => Does KeepsSupply s1 u) htxs .refl fun _ _ _ _ hu hstep =>
      hu.trans (applyTransaction_calls hstep)
  have hend : Does KeepsSupply s2 u2 := (advance_still P.toCrypto).calls_of_still.trans
    ((clearNullWalletBalance_liquid hclear).calls_of_liquid.trans (rewardMiner_liquid hreward).calls_of_liquid)
  refine (processHeaderExtensions_idle hheader).liquid.calls_of_liquid.trans
    (htransactions.trans (hend.trans ?_))
  exact .call (.dgp fun d => { d with miningTarget := target }) fun _ => rfl

theorem finishBlock_frame (h : s.finishBlock P env b = .ok s') :
    ∃ target, s'.frame = ({ s.advance P.toCrypto b with
      dgp := { (s.advance P.toCrypto b).dgp with miningTarget := target } } : Objects).frame := by
  obtain ⟨u1, u2, hclear, hreward, hadjust⟩ := finishBlock_ok h
  obtain ⟨target, rfl⟩ := adjustDifficulty_eq hadjust
  have hframe : u2.frame = (s.advance P.toCrypto b).frame :=
    (rewardMiner_liquid hreward).plain.frame.trans (clearNullWalletBalance_frame hclear)
  exact ⟨target, congrArg (fun f => ({ f.1 with miningTarget := target }, f.2)) hframe⟩

theorem finishBlock_escrows (h : s.finishBlock P env b = .ok s') : s'.escrows = s.escrows := by
  obtain ⟨u1, u2, hclear, hreward, hadjust⟩ := finishBlock_ok h
  obtain ⟨target, rfl⟩ := adjustDifficulty_eq hadjust
  exact ((clearNullWalletBalance_liquid hclear).trans (rewardMiner_liquid hreward)).escrows_of_liquid

theorem applyBlock_chainPart {s1 s2 : Objects} (hheader : s.processHeaderExtensions b = .ok s1)
    (htxs : s1.applyTransactions P.toCrypto env b.transactions = .ok s2) : s2.chainPart = s.chainPart :=
  (applyTransactions_chainPart htxs).trans (congrArg Prod.fst (processHeaderExtensions_frame hheader))

def tip (s : Objects) : Nat × BlockId × Nat :=
  (s.headBlockNum, s.headBlockId, s.lib)

section

variable (h : s.applyBlock P env b = .ok s')
include h

theorem applyBlock_tip :
    s'.tip = (b.blockNum, P.blockId b.toSignedBlockHeader,
      if xgtMaxWitnesses < b.blockNum then b.blockNum - xgtMaxWitnesses
      else s.lib) := by
  obtain ⟨s1, s2, hheader, -, htxs, hfinish⟩ := applyBlock_ok h
  obtain ⟨target, hframe⟩ := finishBlock_frame hfinish
  rw [← show s2.lib = s.lib from
    congrArg ChainPart.lastIrreversibleBlockNum (applyBlock_chainPart hheader htxs)]
  exact congrArg (fun f => (f.1.headBlockNumber, f.1.headBlockId, f.1.lastIrreversibleBlockNum)) hframe

theorem applyBlock_time : s'.headBlockTime = b.timestamp := by
  obtain ⟨_, s2, -, -, -, hfinish⟩ := applyBlock_ok h
  obtain ⟨target, hframe⟩ := finishBlock_frame hfinish
  exact congrArg (fun f => f.1.time) hframe

theorem applyBlock_firstPow (hnum : 2116800 ≤ b.blockNum) (ho : firstPow b = some o) :
    ∃ w, o.work = .sha2Pow w ∧ w.powSummary < Sha256.approxLog32 s.dgp.miningTarget ∧
      w.prevBlock = b.previous ∧ b.witness = o.getWorkerName := by
  obtain ⟨s1, s2, hheader, -, htxs, hfinish⟩ := applyBlock_ok h
  obtain ⟨u, u', hclear, hreward, -⟩ := finishBlock_ok hfinish
  have hframe := clearNullWalletBalance_frame hclear
  have hhead : u.dgp.headBlockNumber = b.blockNum := congrArg (fun f => f.1.headBlockNumber) hframe
  have hsummary : u.getPowSummaryTarget = Sha256.approxLog32 s.dgp.miningTarget := by
    have htarget : u.dgp.miningTarget = s.dgp.miningTarget :=
      (congrArg (fun f => f.1.miningTarget) hframe).trans
        (congrArg ChainPart.miningTarget (applyBlock_chainPart hheader htxs))
    rw [getPowSummaryTarget, getPowTarget, headBlockNum, hhead, if_neg (by omega),
      if_neg (by omega), htarget]
  unfold rewardMiner at hreward
  rw [headBlockNum, hhead, if_pos hnum, ho] at hreward
  obtain ⟨w, hw, hreward⟩ := of_bind hreward
  obtain ⟨_, hwork, hreward⟩ := of_bind hreward
  obtain ⟨_, hprev, hreward⟩ := of_bind hreward
  obtain ⟨_, hwitness, -⟩ := of_bind hreward
  refine ⟨w, ?_, ?_, by simpa using hprev, by simpa using hwitness⟩
  · unfold getSha2Pow at hw
    split at hw <;> cases hw
    assumption
  · rw [← hsummary]
    simpa using hwork

end

theorem mem_of_firstPow (ho : firstPow b = some o) :
    ∃ t ∈ b.transactions, Operation.pow o ∈ t.operations := by
  obtain ⟨op, hop, hpow⟩ := exists_of_findSome?_eq_some ho
  obtain ⟨t, ht, hmem⟩ := mem_flatMap.1 hop
  refine ⟨t, ht, ?_⟩
  cases op <;> cases hpow
  exact hmem

theorem firstPow_isSome_iff : (∃ o, firstPow b = some o) ↔ ∃ t ∈ b.transactions, t.hasPowOp = true := by
  constructor
  · rintro ⟨o, ho⟩
    obtain ⟨t, ht, hmem⟩ := mem_of_firstPow ho
    exact ⟨t, ht, any_eq_true.2 ⟨_, hmem, rfl⟩⟩
  · rintro ⟨t, ht, hpow⟩
    obtain ⟨op, hop, hsome⟩ := any_eq_true.1 hpow
    refine Option.isSome_iff_exists.1 (findSome?_isSome_iff.2 ⟨op, ?_, hsome⟩)
    exact mem_flatMap.2 ⟨t, ht, hop⟩

/-- The state in which the block applies the transaction. -/
def IsStateFor (P : Params) (env : Env) (s : Objects) (b : SignedBlock) (t : SignedTransaction)
    (u : Objects) : Prop :=
  ∃ s1 before after, s.processHeaderExtensions b = .ok s1 ∧ b.transactions = before ++ t :: after ∧
    s1.applyTransactions P.toCrypto env before = .ok u

theorem applyBlock_transaction {t : SignedTransaction} (h : s.applyBlock P env b = .ok s')
    (ht : t ∈ b.transactions) :
    ∃ u u' : Objects, IsStateFor P env s b t u ∧ u.applyTransaction P.toCrypto t env = .ok u' := by
  obtain ⟨s1, _, hheader, -, htxs, -⟩ := applyBlock_ok h
  obtain ⟨before, after, hsplit⟩ := append_of_mem ht
  unfold applyTransactions at htxs
  rw [hsplit, foldlM_append] at htxs
  obtain ⟨u, hbefore, hrest⟩ := of_bind htxs
  obtain ⟨u', hstep, -⟩ := foldlM_cons_ok_iff.1 hrest
  exact ⟨u, u', ⟨s1, before, after, hheader, hsplit, hbefore⟩, hstep⟩

theorem finishBlock_quiet (env : Env) {w : Nat × WalletObject} {prior : SignedBlock}
    (hhistory : (b.blockNum + 2 ^ 32 - s.lib) % 2 ^ 32 < xgtMaxUndoHistory)
    (hnull : s.findAccount xgtNullWallet = some w) (hbalance : w.2.balance.amount = 0)
    (hpow : firstPow b = none) (hprior : env.fetchPriorBlock (b.blockNum - 302400) = some prior)
    (hfork : s.hardforks.nextHardfork.vNum = 0) :
    ∃ target, s.finishBlock P env b = .ok { s.advance P.toCrypto b with
      dgp := { (s.advance P.toCrypto b).dgp with miningTarget := target } } := by
  have hclear : (s.advance P.toCrypto b).clearNullWalletBalance = .ok (s.advance P.toCrypto b) := by
    refine bind_ok (getRow_ok_iff.2 hnull) (if_neg ?_)
    rw [hbalance]
    exact lt_irrefl 0
  have hreward : (s.advance P.toCrypto b).rewardMiner b = .ok (s.advance P.toCrypto b) := by
    unfold rewardMiner
    rw [hpow]
    split_ifs <;> rfl
  obtain ⟨target, hadjust⟩ : ∃ target, (s.advance P.toCrypto b).adjustDifficulty P env b =
      .ok { s.advance P.toCrypto b with
        dgp := { (s.advance P.toCrypto b).dgp with miningTarget := target } } := by
    unfold adjustDifficulty
    rw [hprior]
    split_ifs <;> exact ⟨_, rfl⟩
  refine ⟨target, bind_ok (updateGlobalDynamicData_recent P.toCrypto env hhistory) ?_⟩
  dsimp only
  rw [clearExpiredTransactions_eq_advance]
  refine bind_ok hclear (bind_ok hreward (bind_ok hadjust (bind_ok (fcAssert_ok ?_) rfl)))
  rintro ⟨hpos, -⟩
  exact absurd hfork (Nat.ne_of_gt hpos)

end Inversion

end Objects

/-- A chain of blocks that all apply, with no check skipped. -/
inductive AcceptedChain (P : Params) : List SignedBlock → Objects → Prop where
  | genesis : AcceptedChain P [] (genesis P.initPublicKey)
  | block {blocks : List SignedBlock} {s s' : Objects} {env : Env} {b : SignedBlock}
      (h : AcceptedChain P blocks s) (hskip : env.skip = skipNothing) (hnum : 0 < b.blockNum)
      (hb : s.applyBlock P env b = .ok s') : AcceptedChain P (blocks ++ [b]) s'

def runBlocks (P : Params) (env : Env) (blocks : List SignedBlock) : Result Objects :=
  blocks.foldlM (fun s b => Objects.applyBlock s P env b) (genesis P.initPublicKey)

theorem acceptedChain_of_runBlocks {P : Params} {env : Env} {s : Objects} {blocks : List SignedBlock}
    (hskip : env.skip = skipNothing) (hnums : ∀ b ∈ blocks, 0 < b.blockNum)
    (hrun : runBlocks P env blocks = .ok s) : AcceptedChain P blocks s := by
  induction blocks using List.reverseRecOn generalizing s with
  | nil =>
    cases hrun
    exact .genesis
  | append_singleton blocks b ih =>
    rw [runBlocks, foldlM_append] at hrun
    obtain ⟨u, hbefore, hlast⟩ := of_bind hrun
    obtain ⟨u', hb, hend⟩ := foldlM_cons_ok_iff.1 hlast
    cases hend
    exact .block (ih (fun c hc => hnums c (mem_append_left _ hc)) hbefore) hskip
      (hnums b (by simp)) hb

end Xgt
