import Mathlib.Tactic.Simps.Basic
import XgtChain.Chain.ApplyBlock

/-!
# The table of known transactions

Every operation does the same whatever the table of known transactions holds.
-/

namespace Xgt

open Base ObjectIndex

namespace Objects

@[simps]
def withTransactions (x : ObjectIndex TransactionObject) (s : Objects) : Objects :=
  { s with transactions := x }

abbrev Blind (f : Objects → Result Objects) : Prop :=
  ∀ x s, f (s.withTransactions x) = withTransactions x <$> f s

variable (x : ObjectIndex TransactionObject) (s : Objects) (name : WalletName)

theorem Blind.ok {f : Objects → Result Objects} {s' : Objects} (hf : Blind f) (h : f s = .ok s') :
    f (s.withTransactions x) = .ok (s'.withTransactions x) := by
  rw [hf, h]
  rfl

theorem withTransactions_unbooked : Unbooked (withTransactions x) where
  wallets _ := rfl
  balances _ := rfl
  xttTokens _ := rfl
  setWallets _ _ := rfl
  setBalances _ _ := rfl
  setTokens _ _ := rfl

theorem adjustBalance_blind (delta : Asset) : Blind (adjustBalance · name delta) :=
  fun x _ => adjustBalance_unbooked (withTransactions_unbooked x) name delta

theorem createWallet_blind (memoKey : PublicKey) (auth : AccountAuthorityObject) :
    Blind (createWallet · name memoKey auth) := by
  intro x s
  simp only [createWallet, map_bind]
  rfl

@[simp] theorem withTransactions_findAccount :
    (s.withTransactions x).findAccount name = s.findAccount name := rfl

@[simp] theorem withTransactions_getAccount :
    (s.withTransactions x).getAccount name = s.getAccount name := rfl

@[simp] theorem withTransactions_getAuthority :
    (s.withTransactions x).getAuthority name = s.getAuthority name := rfl

section

variable (o : WalletUpdateOperation)
include o

theorem upsertWallet_blind : Blind (upsertWallet · o) := by
  intro x s
  dsimp only
  unfold upsertWallet
  rw [withTransactions_findAccount]
  cases s.findAccount o.wallet with
  | some r => rfl
  | none => simp only [map_bind, createWallet_blind]

theorem setRecovery_blind : Blind (setRecovery · o) := by
  intro x s
  dsimp only
  unfold setRecovery
  cases o.recovery with
  | none => rfl
  | some recovery =>
    simp only [updateRecoveryAuthority, map_bind]
    rfl

theorem setWalletData_blind : Blind (setWalletData · o) := by
  intro x s
  simp only [setWalletData, map_bind]
  refine bind_congr fun _ => bind_congr fun _ => ?_
  split
  · simp only [map_bind]
    rfl
  · rfl

theorem setMoneySocial_blind : Blind (setMoneySocial · o) := by
  intro x s
  unfold setMoneySocial
  split_ifs
  · simp only [map_bind]
    rfl
  · rfl

theorem applyWalletUpdate_blind : Blind (applyWalletUpdate · o) := by
  intro x s
  simp only [applyWalletUpdate, map_bind, upsertWallet_blind, bind_map_left, setRecovery_blind,
    setWalletData_blind, setMoneySocial_blind]
  rfl

end

variable (env : Env) (o : PowOperation) (worker : WalletName) (cr : Crypto) (sym : AssetSymbol)

theorem applyTransfer_blind (o : TransferOperation) : Blind (applyTransfer · env o) := by
  intro x s
  have hreceiver : (s.withTransactions x).createReceiver env o =
      withTransactions x <$> s.createReceiver env o := by
    unfold createReceiver
    rw [withTransactions_findAccount]
    cases s.findAccount o.toWallet with
    | some r => rfl
    | none => exact createWallet_blind _ _ _ x s
  simp only [applyTransfer, map_bind, hreceiver, bind_map_left, adjustBalance_blind]

theorem applyWitnessUpdate_blind (o : WitnessUpdateOperation) : Blind (applyWitnessUpdate · o) := by
  intro x s
  simp only [applyWitnessUpdate, map_bind, withTransactions_getAccount]
  iterate 5 refine bind_congr fun _ => ?_
  rw [findWitness, withTransactions_witnesses, ← findWitness]
  cases s.findWitness o.owner <;>
  · simp only [map_bind]
    rfl

theorem createWorker_blind (key : PublicKey) : Blind (createWorker · o worker key) := by
  intro x s
  simp only [createWorker, map_bind, createWallet_blind, bind_map_left]
  rfl

theorem rewardWorker_blind : Blind (rewardWorker · o worker) := by
  intro x s
  dsimp only
  unfold rewardWorker
  rw [findWitness, withTransactions_witnesses, ← findWitness]
  cases s.findWitness worker with
  | none => rfl
  | some w =>
    simp only [map_bind]
    refine bind_congr fun _ => bind_congr fun witnesses => ?_
    exact adjustBalance_blind _ _ x { s with witnesses := witnesses }

theorem creditWork_blind : Blind (creditWork · o worker) := by
  intro x s
  dsimp only
  unfold creditWork
  rw [withTransactions_findAccount]
  cases s.findAccount worker with
  | some r => exact rewardWorker_blind o worker x s
  | none =>
    cases o.newRecoveryKey with
    | none => rfl
    | some key => simp only [map_bind, createWorker_blind, bind_map_left, rewardWorker_blind]

theorem applyPow_blind : Blind (applyPow · env o) := by
  intro x s
  dsimp only
  rw [applyPow_eq, applyPow_eq, show (s.withTransactions x).headBlockNum = s.headBlockNum from rfl]
  split_ifs
  · rfl
  · simp only [map_bind]
    refine bind_congr fun work => bind_congr fun _ => ?_
    exact creditWork_blind o _ x s.countPow

theorem applyCustom_blind (o : CustomOperation) : Blind (applyCustom · env o) := by
  intro x s
  unfold applyCustom
  split_ifs <;>
  · simp only [map_bind]
    rfl

theorem applyCustomJson_blind (o : CustomJsonOperation) : Blind (applyCustomJson · env o) := by
  intro x s
  unfold applyCustomJson
  split_ifs <;>
  · simp only [map_bind]
    rfl

@[simp] theorem withTransactions_getComment (author : WalletName) (permlink : String) :
    (s.withTransactions x).getComment author permlink = s.getComment author permlink := rfl

theorem countInAncestors_blind (fuel : Nat) (parent : Option (Nat × CommentObject)) :
    Blind (countInAncestors · fuel parent) := by
  intro x s
  induction fuel generalizing s parent with
  | zero => cases parent <;> rfl
  | succ fuel ih =>
    cases parent with
    | none => rfl
    | some p =>
      simp only [countInAncestors, map_bind, withTransactions_comments]
      refine bind_congr fun comments => ?_
      split_ifs
      · rfl
      · simp only [map_bind]
        refine bind_congr fun next => ?_
        exact ih (some next) { s with comments := comments }

theorem createComment_blind (o : CommentOperation) (auth : Nat × WalletObject)
    (parent : Option (Nat × CommentObject)) : Blind (createComment · o auth parent) := by
  intro x s
  unfold createComment
  cases parent with
  | none =>
    simp only [map_bind]
    iterate 6 refine bind_congr fun _ => ?_
    exact countInAncestors_blind _ _ x { s with wallets := _, comments := _, commentContents := _ }
  | some p =>
    simp only [map_bind]
    iterate 8 refine bind_congr fun _ => ?_
    exact countInAncestors_blind _ _ x { s with wallets := _, comments := _, commentContents := _ }

theorem applyComment_blind (o : CommentOperation) : Blind (applyComment · cr o) := by
  intro x s
  simp only [applyComment, map_bind, withTransactions_getAccount]
  refine bind_congr fun _ => bind_congr fun auth => ?_
  rw [show (s.withTransactions x).commentParent o = s.commentParent o from rfl]
  refine bind_congr fun parent => bind_congr fun _ => ?_
  rw [show (s.withTransactions x).findComment o.author o.permlink =
    s.findComment o.author o.permlink from rfl]
  cases s.findComment o.author o.permlink with
  | none => exact createComment_blind o auth parent x s
  | some comment =>
    simp only [editComment, map_bind]
    rfl

theorem applyDeleteComment_blind (o : DeleteCommentOperation) : Blind (applyDeleteComment · o) := by
  intro x s
  simp only [applyDeleteComment, map_bind, withTransactions_getComment]
  refine bind_congr fun _ => bind_congr fun _ => ?_
  split_ifs
  · simp only [map_bind]
    rfl
  · rfl

theorem applyEscrowTransfer_blind (o : EscrowTransferOperation) : Blind (applyEscrowTransfer · o) := by
  intro x s
  simp only [applyEscrowTransfer, map_bind, adjustBalance_blind, bind_map_left]
  rfl

theorem applyEscrowApprove_blind (o : EscrowApproveOperation) : Blind (applyEscrowApprove · o) := by
  intro x s
  simp only [applyEscrowApprove, map_bind]
  refine bind_congr fun r => bind_congr fun _ => bind_congr fun _ => bind_congr fun _ => ?_
  refine bind_congr fun e => bind_congr fun escrows => ?_
  have hset : ({ s.withTransactions x with escrows := escrows } : Objects) =
    ({ s with escrows := escrows } : Objects).withTransactions x := rfl
  rw [hset]
  split_ifs
  · simp only [map_bind, adjustBalance_blind, bind_map_left]
    rfl
  · simp only [map_bind, adjustBalance_blind, bind_map_left]
    rfl
  · rfl

theorem applyEscrowRelease_blind (o : EscrowReleaseOperation) : Blind (applyEscrowRelease · o) := by
  intro x s
  simp only [applyEscrowRelease, map_bind, adjustBalance_blind, bind_map_left]
  iterate 11 refine bind_congr fun _ => ?_
  split_ifs
  · rfl
  · simp only [map_bind]
    rfl

@[simp] theorem withTransactions_findTokenAgnostic :
    (s.withTransactions x).findTokenAgnostic sym = s.findTokenAgnostic sym := rfl

theorem payOrResetXtt_blind (o : XttCreateOperation) (token : Option (Nat × XttTokenObject)) :
    (s.withTransactions x).payOrResetXtt o token =
      withTransactions x <$> s.payOrResetXtt o token := by
  unfold payOrResetXtt
  split_ifs
  · simp only [map_bind, adjustBalance_blind, bind_map_left]
    rfl
  · cases token with
    | none => rfl
    | some t =>
      simp only [map_bind]
      rfl

theorem removeFromNaiPool_blind :
    (s.withTransactions x).removeFromNaiPool sym =
      (s.removeFromNaiPool sym).withTransactions x := by
  simp only [removeFromNaiPool, withTransactions_naiPool]
  split_ifs <;> rfl

theorem refillNaisWith_blind (gen : Nat → Nai) (fuel : Nat) (p : NaiPoolObject) :
    (s.withTransactions x).refillNaisWith gen fuel p = s.refillNaisWith gen fuel p := by
  induction fuel generalizing p with
  | zero => rfl
  | succ fuel ih => simp only [refillNaisWith, withTransactions_findTokenAgnostic, ih]

theorem replenishNaiPool_blind : Blind replenishNaiPool := by
  intro x s
  unfold replenishNaiPool replenishNaiPoolWith
  rw [show (s.withTransactions x).currentNaiPool = s.currentNaiPool from rfl, refillNaisWith_blind]
  split_ifs
  · simp only [map_bind]
    rfl
  · rfl

theorem createXtt_blind (o : XttCreateOperation) : Blind (createXtt · o) := by
  intro x s
  simp only [createXtt, map_bind, withTransactions_findTokenAgnostic, payOrResetXtt_blind, bind_map_left]
  refine bind_congr fun token => bind_congr fun u => bind_congr fun tokens => ?_
  exact congrArg pure (removeFromNaiPool_blind x { u with xttTokens := tokens } o.symbol)

theorem applyXttCreate_blind (o : XttCreateOperation) : Blind (applyXttCreate · env o) := by
  intro x s
  simp only [applyXttCreate, map_bind, createXtt_blind o x s, bind_map_left]
  refine bind_congr fun u => ?_
  split_ifs
  · rfl
  · exact replenishNaiPool_blind x u

theorem pushRequiredAction_blind (a : RequiredAutomatedAction) (time : TimePointSec) :
    Blind (pushRequiredAction · env a time) := by
  intro x s
  simp only [pushRequiredAction, map_bind]
  refine bind_congr fun _ => ?_
  split_ifs
  · rfl
  · simp only [map_bind]
    rfl

theorem applyXttSetup_blind (o : XttSetupOperation) : Blind (applyXttSetup · env o) := by
  intro x s
  simp only [applyXttSetup, map_bind,
    show (s.withTransactions x).commonPreSetupEvaluation o.symbol o.controlAccount =
      s.commonPreSetupEvaluation o.symbol o.controlAccount from rfl,
    show (s.withTransactions x).xgtUnitsHardCap o.symbol = s.xgtUnitsHardCap o.symbol from rfl]
  refine bind_congr fun t => ?_
  split_ifs
  · cases s.xgtUnitsHardCap o.symbol <;>
    · simp only [map_bind]
      iterate 3 refine bind_congr fun _ => ?_
      exact pushRequiredAction_blind env _ _ x { s with xttTokens := _, xttIcos := _ }
  · simp only [map_bind]
    iterate 2 refine bind_congr fun _ => ?_
    exact pushRequiredAction_blind env _ _ x { s with xttTokens := _, xttIcos := _ }

theorem applyXttSetupIcoTier_blind (o : XttSetupIcoTierOperation) : Blind (applyXttSetupIcoTier · o) := by
  intro x s
  simp only [applyXttSetupIcoTier, map_bind, withTransactions_xttIcoTiers,
    show (s.withTransactions x).commonPreSetupEvaluation o.symbol o.controlAccount =
      s.commonPreSetupEvaluation o.symbol o.controlAccount from rfl]
  refine bind_congr fun t => ?_
  split_ifs
  · cases s.xttIcoTiers.find? fun y => y.symbol = t.2.liquidSymbol && y.xgtUnitsCap = o.xgtUnitsCap <;>
    rfl
  · simp only [map_bind]
    rfl

theorem applyXttContribute_blind (o : XttContributeOperation) : Blind (applyXttContribute · o) := by
  intro x s
  simp only [applyXttContribute, map_bind, withTransactions_xttTokens,
    show (s.withTransactions x).xgtUnitsHardCap o.symbol = s.xgtUnitsHardCap o.symbol from rfl]
  refine bind_congr fun t => bind_congr fun _ => bind_congr fun _ => ?_
  cases s.xgtUnitsHardCap o.symbol with
  | none => rfl
  | some cap =>
    simp only [map_bind, adjustBalance_blind, bind_map_left]
    rfl

/-! ## Every operation -/

theorem applyOperation_blind (env : Env) (op : Operation) : Blind (applyOperation · cr env op) := by
  cases op with
  | comment o => exact applyComment_blind cr o
  | transfer o => exact applyTransfer_blind env o
  | walletCreate o => exact createWallet_blind _ _ _
  | walletUpdate o => exact applyWalletUpdate_blind o
  | witnessUpdate o => exact applyWitnessUpdate_blind o
  | custom o => exact applyCustom_blind env o
  | deleteComment o => exact applyDeleteComment_blind o
  | customJson o => exact applyCustomJson_blind env o
  | escrowTransfer o => exact applyEscrowTransfer_blind o
  | escrowRelease o => exact applyEscrowRelease_blind o
  | pow o => exact applyPow_blind env o
  | escrowApprove o => exact applyEscrowApprove_blind o
  | xttSetup o => exact applyXttSetup_blind env o
  | xttSetupIcoTier o => exact applyXttSetupIcoTier_blind o
  | xttCreate o => exact applyXttCreate_blind env o
  | xttContribute o => exact applyXttContribute_blind o
  | commentOptions o | escrowDispute o | vote o | xttSetSetupParameters o | xttSetRuntimeParameters o
  | contractCreate o =>
    intro x s
    simp only [applyOperation, applyCommentOptions, applyEscrowDispute, applyVote,
      applyXttSetSetupParameters, applyXttSetRuntimeParameters, applyContractCreate, map_bind]
    rfl
  | _ => exact fun _ _ => rfl

theorem applyOperations_blind (env : Env) (ops : List Operation) :
    Blind (applyOperations · cr env ops) := by
  intro x s
  have hplain (y : Result Objects) :
      plainError (withTransactions x <$> y) = withTransactions x <$> plainError y := by
    cases y <;> rfl
  induction ops generalizing s with
  | nil => rfl
  | cons op ops ih =>
    unfold applyOperations at ih ⊢
    simp only [List.foldlM_cons, map_bind, applyOperation_blind, hplain, bind_map_left, ih]

variable {x s} {s' : Objects} {cr} {env} {t : SignedTransaction} {id : TransactionId}

theorem transactions_of_ok {y : ObjectIndex TransactionObject} {r : Result Objects}
    (h : r = withTransactions y <$> r) (hr : r = .ok s') : s'.transactions = y := by
  rw [hr] at h
  have hs' : s' = s'.withTransactions y := Except.ok.inj h
  exact congrArg transactions hs'

theorem applyOperations_transactions {ops : List Operation}
    (h : s.applyOperations cr env ops = .ok s') : s'.transactions = s.transactions :=
  transactions_of_ok (applyOperations_blind cr env ops s.transactions s) h

theorem isKnownTransaction_iff :
    s.isKnownTransaction id = true ↔ ∃ o ∈ s.transactions.objects, o.trxId = id := by
  unfold isKnownTransaction
  rw [Option.isSome_iff_exists]
  constructor
  · rintro ⟨r, hr⟩
    obtain ⟨hrow, hid⟩ := of_find? hr
    exact ⟨r.2, mem_objects.2 ⟨r.1, hrow⟩, of_decide_eq_true hid⟩
  · rintro ⟨o, ho, hid⟩
    refine Option.ne_none_iff_exists'.1 fun hnone => ?_
    exact absurd (decide_eq_true hid) (Bool.not_eq_true _ ▸ find?_eq_none.1 hnone o ho)

section

variable (h : s.applyTransaction cr t env = .ok s')
include h

theorem applyTransaction_unrecorded (hskip : env.skip.skipTransactionDupeCheck =
    true) : s'.transactions = s.transactions := by
  obtain ⟨s1, hrecord, hops⟩ := applyTransaction_run h
  rw [applyOperations_transactions hops]
  unfold recordTransaction at hrecord
  rw [if_pos hskip] at hrecord
  cases hrecord
  rfl

theorem applyTransaction_new (hskip : env.skip.skipTransactionDupeCheck = false) :
    s.transactions.create? { trxId := cr.transactionId t.toTransaction, expiration := t.expiration } =
      some s'.transactions := by
  obtain ⟨s1, hrecord, hops⟩ := applyTransaction_run h
  rw [applyOperations_transactions hops]
  unfold recordTransaction at hrecord
  rw [hskip] at hrecord
  obtain ⟨transactions, hcreate, hrecord⟩ := of_bind hrecord
  cases hrecord
  exact dbCreate_ok_iff.1 hcreate

theorem applyTransaction_recorded (hskip : env.skip = skipNothing) :
    s.transactions.create? { trxId := cr.transactionId t.toTransaction, expiration := t.expiration } =
      some s'.transactions := applyTransaction_new h (by rw [hskip]; rfl)

theorem applyTransaction_known (hskip : env.skip.skipTransactionDupeCheck = false) :
    s.isKnownTransaction (cr.transactionId t.toTransaction) = false ∧
      ∀ id, s'.isKnownTransaction id = true ↔
        s.isKnownTransaction id = true ∨ cr.transactionId t.toTransaction = id := by
  have hnew := applyTransaction_new h hskip
  constructor
  · unfold applyTransaction at h
    obtain ⟨_, -, h⟩ := of_bind h
    obtain ⟨_, hdupe, -⟩ := of_bind h
    have hdupe := fcAssert_ok_iff.1 hdupe
    rwa [hskip, Bool.false_or, Bool.not_eq_true'] at hdupe
  · intro id
    simp only [isKnownTransaction_iff, mem_create? hnew]
    constructor
    · rintro ⟨o, ho | rfl, hid⟩
      · exact .inl ⟨o, ho, hid⟩
      · exact .inr hid
    · rintro (⟨o, ho, hid⟩ | hid)
      · exact ⟨o, .inl ho, hid⟩
      · exact ⟨_, .inr rfl, hid⟩

theorem applyTransaction_remembers
    (hid : s.isKnownTransaction id = true) : s'.isKnownTransaction id = true := by
  by_cases hskip : env.skip.skipTransactionDupeCheck = true
  · unfold isKnownTransaction
    rwa [applyTransaction_unrecorded h hskip]
  · exact ((applyTransaction_known h (eq_false_of_ne_true hskip)).2 id).2 (.inl hid)

end

variable {P : Params} {b : SignedBlock}

theorem processHeaderExtensions_blind (b : SignedBlock) : Blind (processHeaderExtensions · b) := by
  intro x s
  have hstep (u : Objects) (e : BlockHeaderExtension) :
      (u.withTransactions x).processHeaderExtension b.witness e =
        withTransactions x <$> u.processHeaderExtension b.witness e := by
    cases e with
    | version v | hardforkVersionVote v =>
      simp only [processHeaderExtension, map_bind]
      rfl
    | _ => rfl
  unfold processHeaderExtensions
  induction b.extensions generalizing s with
  | nil => rfl
  | cons e l ih => simp only [List.foldlM_cons, map_bind, hstep, bind_map_left, ih]

theorem clearNullWalletBalance_blind : Blind clearNullWalletBalance := by
  intro x s
  simp only [clearNullWalletBalance, map_bind, withTransactions_getAccount]
  refine bind_congr fun w => ?_
  split_ifs
  · simp only [map_bind]
    rfl
  · rfl

theorem rewardMiner_blind (b : SignedBlock) : Blind (rewardMiner · b) := by
  intro x s
  dsimp only
  unfold rewardMiner
  rw [show (s.withTransactions x).headBlockNum = s.headBlockNum from rfl]
  split_ifs
  · cases firstPow b with
    | none => rfl
    | some o =>
      simp only [rewardPow, map_bind, adjustBalance_blind]
      rfl
  · rfl

theorem adjustDifficulty_blind (P : Params) (env : Env) (b : SignedBlock) :
    Blind (adjustDifficulty · P env b) := by
  intro x s
  unfold adjustDifficulty
  split_ifs
  · rfl
  · cases env.fetchPriorBlock (b.blockNum - 302400) <;> rfl
  · rfl

theorem finishBlock_blind (x : ObjectIndex TransactionObject) (s : Objects) (P : Params) (env : Env)
    (b : SignedBlock) :
    (s.withTransactions x).finishBlock P env b =
      withTransactions (x.removeIf fun t => t.expiration < b.timestamp) <$> s.finishBlock P env b := by
  have hfork (u : Objects) (y : ObjectIndex TransactionObject) :
      (u.withTransactions y).processHardforks = withTransactions y <$> u.processHardforks := by
    simp only [processHardforks, map_bind]
    rfl
  have hadvance : (s.withTransactions x).advance P.toCrypto b =
    (s.advance P.toCrypto b).withTransactions (x.removeIf fun t => t.expiration < b.timestamp) := rfl
  unfold finishBlock updateGlobalDynamicData
  simp only [bind_assoc, pure_bind, map_bind, clearExpiredTransactions_eq_advance, hadvance,
    clearNullWalletBalance_blind, bind_map_left, rewardMiner_blind, adjustDifficulty_blind, hfork]
  rfl

theorem finishBlock_transactions (h : s.finishBlock P env b = .ok s') :
    s'.transactions = s.transactions.removeIf fun t => t.expiration < b.timestamp :=
  transactions_of_ok (finishBlock_blind s.transactions s P env b) h

end Objects

end Xgt
