import XgtChain.Chain.Database

/-!
# Evaluators

What each operation does to the chain's objects: the `do_apply` of every evaluator that
`initialize_evaluators` registers, and `apply_operation`.
-/

namespace Xgt

open Base

namespace Objects

variable (s : Objects) (o : WalletUpdateOperation) (env : Env) (cr : Crypto) (symbol : AssetSymbol)
  (t : XttTokenObject) (name : WalletName)

/-! ## Wallets -/

def createWallet (memoKey : PublicKey) (auth : AccountAuthorityObject) :
    Result Objects := do
  let wallets ← dbCreate s.wallets { name := name, memoKey := memoKey, created := s.dgp.time }
  let authorities ← dbCreate s.authorities auth
  pure { s with wallets := wallets, authorities := authorities }

def applyWalletCreate (o : WalletCreateOperation) : Result Objects :=
  s.createWallet (o.getWalletName cr) o.memoKey
    { account := o.getWalletName cr, recovery := o.recovery, money := o.money, social := o.social }

def derefOptional {α : Type} (o : Option α) : Result α :=
  match o with
  | some a => .ok a
  | none => .error ⟨.other, "empty optional dereferenced"⟩

def upsertWallet : Result Objects :=
  match s.findAccount o.wallet with
  | some _ => .ok s
  | none => do
    let memoKey ← derefOptional o.memoKey
    let recovery ← derefOptional o.recovery
    let money ← derefOptional o.money
    let social ← derefOptional o.social
    s.createWallet o.wallet memoKey
      { account := o.wallet, recovery := recovery, money := money, social := social }

def verifyAuthorityAccountsExist (auth : Authority) : Result Unit :=
  auth.walletAuths.entries.forM fun aw =>
    fcAssert (s.findAccount aw.1).isSome "New authority references non-existing account"

def recordRecovery (auth : AccountAuthorityObject) :
    Result (ObjectIndex RecoveryAuthorityHistoryObject) :=
  if 3186477 ≤ s.headBlockNum then
    dbCreate s.recoveryHistory
      { account := auth.account, previousRecoveryAuthority := auth.recovery,
        lastValidTime := s.headBlockTime }
  else .ok s.recoveryHistory

def updateRecoveryAuthority (recovery : Authority) : Result Objects := do
  let auth ← s.getAuthority name
  let history ← s.recordRecovery auth.2
  let authorities ← dbModify s.authorities auth.1
    { auth.2 with recovery := recovery, lastRecoveryUpdate := s.headBlockTime }
  pure { s with recoveryHistory := history, authorities := authorities }

def setRecovery : Result Objects :=
  match o.recovery with
  | none => .ok s
  | some recovery => do
    let auth ← s.getAuthority o.wallet
    fcAssert ((s.headBlockTime : Int) - auth.2.lastRecoveryUpdate > 60 * 60)
      "Recovery authority can only be updated once an hour."
    s.verifyAuthorityAccountsExist recovery
    s.updateRecoveryAuthority o.wallet recovery

def setWalletData : Result Objects := do
  let w ← s.getAccount o.wallet
  -- the default key stands for no key
  let memoKey := match o.memoKey with
    | some k => if k ≠ ⟨0⟩ then k else w.2.memoKey
    | none => w.2.memoKey
  let wallets ← dbModify s.wallets w.1
    { w.2 with memoKey := memoKey, lastAccountUpdate := s.headBlockTime }
  if o.jsonMetadata ≠ "" ∨ o.socialJsonMetadata ≠ "" then
    let m ← getRow (s.metadata.find? fun m => m.account = w.1)
    let metadata ← dbModify s.metadata m.1
      { m.2 with
        jsonMetadata := if o.jsonMetadata ≠ "" then o.jsonMetadata else m.2.jsonMetadata
        socialJsonMetadata :=
          if o.socialJsonMetadata ≠ "" then o.socialJsonMetadata else m.2.socialJsonMetadata }
    pure { s with wallets := wallets, metadata := metadata }
  else pure { s with wallets := wallets }

def setMoneySocial : Result Objects :=
  if o.money.isSome ∨ o.social.isSome then do
    let auth ← s.getAuthority o.wallet
    let authorities ← dbModify s.authorities auth.1
      { auth.2 with money := o.money.getD auth.2.money, social := o.social.getD auth.2.social }
    pure { s with authorities := authorities }
  else .ok s

def applyWalletUpdate : Result Objects := do
  fcAssert (o.wallet ≠ xgtTempWallet) "Cannot update temp account."
  o.social.forM fun a => a.validate
  let s ← s.upsertWallet o
  let _ ← s.getAccount o.wallet
  let _ ← s.getAuthority o.wallet
  o.recovery.forM validateAuthSize
  o.money.forM validateAuthSize
  o.social.forM validateAuthSize
  let s ← s.setRecovery o
  o.money.forM fun a => s.verifyAuthorityAccountsExist a
  o.social.forM fun a => s.verifyAuthorityAccountsExist a
  let s ← s.setWalletData o
  s.setMoneySocial o

def createReceiver (o : TransferOperation) : Result Objects :=
  match s.findAccount o.toWallet with
  | some _ => .ok s
  | none =>
    let keys := env.random s.wallets.nextId
    s.createWallet o.toWallet keys.memo
      { account := o.toWallet, recovery := .ofKey 1 keys.recovery 1,
        money := .ofKey 1 keys.money 1, social := .ofKey 1 keys.social 1 }

def applyTransfer (o : TransferOperation) : Result Objects := do
  let s ← s.createReceiver env o
  let spent ← safeInt64 (-o.amount.amount)
  let s ← s.adjustBalance o.fromWallet ⟨spent, o.amount.symbol⟩
  s.adjustBalance o.toWallet o.amount

def copyLegacyChainProperties (forceCanon : Bool) (p : LegacyChainProperties) :
    Result ChainProperties := do
  if forceCanon then
    fcAssert p.accountCreationFee.isCanon "Must use canonical XGT symbol serialization"
  pure { accountCreationFee := .xgt p.accountCreationFee.amount,
         maximumBlockSize := p.maximumBlockSize }

def applyWitnessUpdate (o : WitnessUpdateOperation) : Result Objects := do
  let _ ← s.getAccount o.owner
  fcAssert o.props.accountCreationFee.isCanon "o.props.account_creation_fee.symbol.is_canon()"
  fcAssert (o.props.accountCreationFee.amount ≤ 0)
    "account_creation_fee greater than maximum account creation fee"
  fcAssert (o.props.maximumBlockSize ≤ 2 * 1024 * 1024) "Max block size cannot be more than 2MiB"
  let props ← copyLegacyChainProperties false o.props
  match s.findWitness o.owner with
  | some w =>
    let witnesses ← dbModify s.witnesses w.1
      { w.2 with url := o.url, signingKey := o.blockSigningKey, props := props }
    pure { s with witnesses := witnesses }
  | none =>
    let witnesses ← dbCreate s.witnesses
      { owner := o.owner, url := o.url, signingKey := o.blockSigningKey,
        created := s.headBlockTime, props := props }
    pure { s with witnesses := witnesses }

def getSha2Pow : PowWork → Result Sha2Pow
  | .sha2Pow w => .ok w
  | .pow _ => .error ⟨.assertException, "static_variant does not contain a value of type sha2_pow"⟩

def previousBlockId : Option BlockId :=
  (env.fetchBlockById s.headBlockId).map fun b => b.previous

def checkPow (o : PowOperation) (work : Sha2Pow) : Result Unit := do
  match s.previousBlockId env with
  | some id => fcAssert (work.prevBlock = id) "POW op not for last block"
  | none => pure ()
  fcAssert (s.lib < numFromId work.input.prevBlock)
    "POW done for block older than last irreversible block num"
  fcAssert (work.powSummary < s.getPowSummaryTarget) "Insufficient work difficulty."
  fcAssert (xgtMinBlockSizeLimit * 2 ≤ o.props.maximumBlockSize)
    "Voted maximum block size is too small."

def createWorker (o : PowOperation) (worker : WalletName) (key : PublicKey) : Result Objects := do
  let auth := Authority.ofKey 1 key 1
  let s ← s.createWallet worker key
    { account := worker, recovery := auth, money := auth, social := auth }
  let props ← copyLegacyChainProperties true o.props
  let witnesses ← dbCreate s.witnesses
    { owner := worker, props := props, signingKey := key, powWorker := s.dgp.totalPow }
  pure { s with witnesses := witnesses }

def rewardWorker (o : PowOperation) (worker : WalletName) : Result Objects :=
  match s.findWitness worker with
  | none => .ok s
  | some w => do
    let props ← copyLegacyChainProperties true o.props
    let witnesses ← dbModify s.witnesses w.1
      { w.2 with props := props, powWorker := s.dgp.totalPow }
    let s : Objects := { s with witnesses := witnesses }
    s.adjustBalance worker (miningReward s.headBlockNum)

def applyPow (o : PowOperation) : Result Objects :=
  if 2116800 ≤ s.headBlockNum then .ok s
  else do
    let work ← getSha2Pow o.work
    s.checkPow env o work
    let worker := work.input.workerAccount
    let s : Objects := { s with dgp := { s.dgp with
      totalPow := (s.dgp.totalPow + 1) % 2 ^ 64
      numPowWitnesses := (s.dgp.numPowWitnesses + 1) % 2 ^ 32 } }
    match s.findAccount worker, o.newRecoveryKey with
    | some _, _ => s.rewardWorker o worker
    | none, none => pure s
    | none, some key =>
      let s ← s.createWorker o worker key
      s.rewardWorker o worker

def applyCustom (o : CustomOperation) : Result Objects := do
  if env.producing then
    fcAssert (o.data.length ≤ 8192) "Operation data must be less than 8192 bytes."
  fcAssert (o.requiredAuths.elems.length ≤ xgtMaxAuthorityMembership)
    "Authority membership exceeded."
  pure s

def applyCustomJson (o : CustomJsonOperation) : Result Objects := do
  if env.producing then
    fcAssert (o.json.utf8ByteSize ≤ 8192) "Operation JSON must be less than 8192 bytes."
  fcAssert (o.requiredAuths.elems.length + o.requiredSocialAuths.elems.length ≤
    xgtMaxAuthorityMembership) "Authority membership exceeded."
  pure s

def applyContractCreate (o : ContractCreateOperation) : Result Objects := do
  let contracts ← dbCreate s.contracts { owner := o.owner, code := o.code }
  pure { s with contracts := contracts }

/-! ## Comments -/

def validatePermlink01 (permlink : String) : Result Unit := do
  fcAssert (0 < permlink.utf8ByteSize ∧ permlink.utf8ByteSize < 256) "Permlink is not a valid size."
  fcAssert (permlink.toList.all fun c => ('a' ≤ c ∧ c ≤ 'z') ∨ ('0' ≤ c ∧ c ≤ '9') ∨ c = '-')
    "Invalid permlink character"

def commentParent (o : CommentOperation) : Result (Option (Nat × CommentObject)) :=
  if o.parentAuthor = "" then .ok none
  else do
    let parent ← s.getComment o.parentAuthor o.parentPermlink
    fcAssert (parent.2.depth < 0xffff) "Comment is nested too deep"
    pure (some parent)

def countInAncestors (s : Objects) : Nat → Option (Nat × CommentObject) → Result Objects
  | _, none => .ok s
  | 0, some _ => .error ⟨.other, "cyclic comments"⟩
  | fuel + 1, some parent => do
    let comments ← dbModify s.comments parent.1
      { parent.2 with children := (parent.2.children + 1) % 2 ^ 32, active := s.headBlockTime }
    let s : Objects := { s with comments := comments }
    if parent.2.parentAuthor = "" then pure s
    else
      let next ← s.getComment parent.2.parentAuthor parent.2.parentPermlink
      s.countInAncestors fuel (some next)

def createComment (o : CommentOperation) (auth : Nat × WalletObject)
    (parent : Option (Nat × CommentObject)) : Result Objects := do
  let now := s.headBlockTime
  match parent with
  | some p =>
    let root ← getRow (s.comments.get? p.2.rootComment)
    fcAssert root.2.allowReplies "The parent comment has disabled replies."
    fcAssert ((now : Int) - auth.2.lastPost ≥ 3) "You may only comment once every 3 seconds."
  | none =>
    fcAssert ((now : Int) - auth.2.lastRootPost > 60 * 5) "You may only post once every 5 minutes."
  let wallets ← dbModify s.wallets auth.1
    { auth.2 with lastRootPost := if parent.isNone then now else auth.2.lastRootPost,
                  lastPost := now, lastPostEdit := now, postCount := auth.2.postCount + 1 }
  validatePermlink01 o.parentPermlink
  validatePermlink01 o.permlink
  let id := s.comments.nextId
  let comments ← dbCreate s.comments <| match parent with
    | none => { author := o.author, permlink := o.permlink, lastUpdate := now, created := now,
                active := now, parentPermlink := o.parentPermlink, category := o.parentPermlink,
                rootComment := id }
    | some p => { author := o.author, permlink := o.permlink, lastUpdate := now, created := now,
                  active := now, parentAuthor := p.2.author, parentPermlink := p.2.permlink,
                  depth := p.2.depth + 1, category := p.2.category, rootComment := p.2.rootComment }
  let contents ← dbCreate s.commentContents
    { comment := id, title := o.title,
      body := if o.body.utf8ByteSize < 1024 * 1024 * 128 then o.body else "",
      jsonMetadata := o.jsonMetadata }
  let s : Objects := { s with wallets := wallets, comments := comments, commentContents := contents }
  s.countInAncestors s.comments.rows.length parent

def editComment (o : CommentOperation) (auth : Nat × WalletObject)
    (parent : Option (Nat × CommentObject)) (comment : Nat × CommentObject) : Result Objects := do
  let now := s.headBlockTime
  fcAssert ((now : Int) - auth.2.lastPostEdit ≥ 3) "Can only perform one comment edit per block."
  fcAssert (comment.2.parentAuthor = if parent.isNone then "" else o.parentAuthor)
    "The parent of a comment cannot change."
  fcAssert (comment.2.parentPermlink.utf8ByteSize = o.parentPermlink.utf8ByteSize ∧
    cStr comment.2.parentPermlink = cStr o.parentPermlink) "The permlink of a comment cannot change."
  let comments ← dbModify s.comments comment.1 { comment.2 with lastUpdate := now, active := now }
  let wallets ← dbModify s.wallets auth.1 { auth.2 with lastPostEdit := now }
  pure { s with comments := comments, wallets := wallets }

def applyComment (o : CommentOperation) : Result Objects := do
  fcAssert (o.title.utf8ByteSize + o.body.utf8ByteSize + o.jsonMetadata.utf8ByteSize ≠ 0)
    "Cannot update comment because nothing appears to be changing."
  let auth ← s.getAccount o.author
  let parent ← s.commentParent o
  fcAssert (cr.isUtf8 o.jsonMetadata) "JSON Metadata must be UTF-8"
  match s.findComment o.author o.permlink with
  | none => s.createComment o auth parent
  | some comment => s.editComment o auth parent comment

def applyCommentOptions (o : CommentOptionsOperation) : Result Objects := do
  let c ← s.getComment o.author o.permlink
  fcAssert (c.2.allowVotes || !o.allowVotes) "Voting cannot be re-enabled."
  let comments ← dbModify s.comments c.1 { c.2 with allowVotes := o.allowVotes }
  pure { s with comments := comments }

def applyDeleteComment (o : DeleteCommentOperation) : Result Objects := do
  let c ← s.getComment o.author o.permlink
  fcAssert (c.2.children = 0) "Cannot delete a comment with replies."
  if c.2.parentAuthor ≠ "" then
    let p ← s.getComment c.2.parentAuthor c.2.parentPermlink
    let comments ← dbModify s.comments p.1
      { p.2 with children := (p.2.children + 2 ^ 32 - 1) % 2 ^ 32, active := s.headBlockTime }
    pure { s with comments := comments.remove c.1 }
  else pure { s with comments := s.comments.remove c.1 }

def applyVote (o : VoteOperation) : Result Objects := do
  let _ ← s.getComment o.author o.permlink
  let _ ← s.getAccount o.voter
  pure s

/-! ## Escrows -/

def escrowSpent (o : EscrowTransferOperation) : Result Asset :=
  if o.fee.symbol = xgtSymbol then o.xgtAmount.add o.fee else .ok o.xgtAmount

def applyEscrowTransfer (o : EscrowTransferOperation) : Result Objects := do
  let _ ← s.getAccount o.fromWallet
  let _ ← s.getAccount o.toWallet
  let _ ← s.getAccount o.agent
  fcAssert (s.headBlockTime < o.ratificationDeadline)
    "The escrow ratification deadline must be after head block time."
  fcAssert (s.headBlockTime < o.escrowExpiration)
    "The escrow expiration must be after head block time."
  let spent ← escrowSpent o
  let n ← safeInt64 (-spent.amount)
  let s ← s.adjustBalance o.fromWallet ⟨n, spent.symbol⟩
  let escrows ← dbCreate s.escrows
    { escrowId := o.escrowId, fromWallet := o.fromWallet, toWallet := o.toWallet, agent := o.agent,
      ratificationDeadline := o.ratificationDeadline, escrowExpiration := o.escrowExpiration,
      xgtBalance := o.xgtAmount, pendingFee := o.fee }
  pure { s with escrows := escrows }

def approveEscrow (o : EscrowApproveOperation) (e : EscrowObject) : Result EscrowObject := do
  let e ← if o.who = o.toWallet then do
      fcAssert (!e.toApproved) "Account 'to' has already approved the escrow."
      pure { e with toApproved := e.toApproved || o.approve }
    else pure e
  if o.who = o.agent then
    fcAssert (!e.agentApproved) "Account 'agent' has already approved the escrow."
    pure { e with agentApproved := e.agentApproved || o.approve }
  else pure e

def applyEscrowApprove (o : EscrowApproveOperation) : Result Objects := do
  let r ← s.getEscrow o.fromWallet o.escrowId
  fcAssert (r.2.toWallet = o.toWallet) "Operation 'to' does not match escrow 'to'."
  fcAssert (r.2.agent = o.agent) "Operation 'agent' does not match escrow 'agent'."
  fcAssert (s.headBlockTime ≤ r.2.ratificationDeadline)
    "The escrow ratification deadline has passed. Escrow can no longer be ratified."
  let e ← approveEscrow o r.2
  let escrows ← dbModify s.escrows r.1 e
  let s : Objects := { s with escrows := escrows }
  if !o.approve then
    let s ← s.adjustBalance o.fromWallet e.xgtBalance
    let s ← s.adjustBalance o.fromWallet e.pendingFee
    pure { s with escrows := s.escrows.remove r.1 }
  else if e.toApproved && e.agentApproved then
    let s ← s.adjustBalance o.agent e.pendingFee
    let escrows ← dbModify s.escrows r.1 { e with pendingFee := { e.pendingFee with amount := 0 } }
    pure { s with escrows := escrows }
  else pure s

def applyEscrowDispute (o : EscrowDisputeOperation) : Result Objects := do
  let _ ← s.getAccount o.fromWallet
  let e ← s.getEscrow o.fromWallet o.escrowId
  fcAssert (s.headBlockTime < e.2.escrowExpiration)
    "Disputing the escrow must happen before expiration."
  fcAssert (e.2.toApproved && e.2.agentApproved)
    "The escrow must be approved by all parties before a dispute can be raised."
  fcAssert (!e.2.disputed) "The escrow is already under dispute."
  fcAssert (e.2.toWallet = o.toWallet) "Operation 'to' does not match escrow 'to'."
  fcAssert (e.2.agent = o.agent) "Operation 'agent' does not match escrow 'agent'."
  let escrows ← dbModify s.escrows e.1 { e.2 with disputed := true }
  pure { s with escrows := escrows }

def checkEscrowRelease (o : EscrowReleaseOperation) (e : EscrowObject) : Result Unit :=
  if e.disputed then
    fcAssert (o.who = e.agent) "Only 'agent' can release funds in a disputed escrow."
  else do
    fcAssert (o.who = e.fromWallet ∨ o.who = e.toWallet)
      "Only 'from' and 'to' can release funds from a non-disputed escrow"
    if s.headBlockTime < e.escrowExpiration then
      if o.who = e.fromWallet then
        fcAssert (o.receiver = e.toWallet) "Only 'from' can release funds to 'to'."
      else if o.who = e.toWallet then
        fcAssert (o.receiver = e.fromWallet) "Only 'to' can release funds to 'from'."

def applyEscrowRelease (o : EscrowReleaseOperation) : Result Objects := do
  let _ ← s.getAccount o.fromWallet
  let e ← s.getEscrow o.fromWallet o.escrowId
  fcAssert (← e.2.xgtBalance.ge o.xgtAmount) "Release amount exceeds escrow balance."
  fcAssert (e.2.toWallet = o.toWallet) "Operation 'to' does not match escrow 'to'."
  fcAssert (e.2.agent = o.agent) "Operation 'agent' does not match escrow 'agent'."
  fcAssert (o.receiver = e.2.fromWallet ∨ o.receiver = e.2.toWallet)
    "Funds must be released to 'from' or 'to'"
  fcAssert (e.2.toApproved && e.2.agentApproved)
    "Funds cannot be released prior to escrow approval."
  s.checkEscrowRelease o e.2
  let s ← s.adjustBalance o.receiver o.xgtAmount
  let balance ← e.2.xgtBalance.sub o.xgtAmount
  if balance.amount = 0 then pure { s with escrows := s.escrows.remove e.1 }
  else
    let escrows ← dbModify s.escrows e.1 { e.2 with xgtBalance := balance }
    pure { s with escrows := escrows }

/-! ## Tokens -/

def payOrResetXtt (o : XttCreateOperation) (token : Option (Nat × XttTokenObject)) : Result Objects :=
  if 0 < o.xttCreationFee.amount then do
    fcAssert token.isNone "XTT has already been created."
    fcAssert (s.naiPoolContains o.symbol) "Cannot create an XTT that didn't come from the NAI pool."
    fcAssert (o.xttCreationFee = s.dgp.xttCreationFee) "Fee does not match the creation fee"
    let s ← s.adjustBalance o.controlAccount ⟨-o.xttCreationFee.amount, o.xttCreationFee.symbol⟩
    s.adjustBalance xgtNullWallet o.xttCreationFee
  else
    match token with
    | none => .error ⟨.assertException, "Cannot reset a non-existent XTT."⟩
    | some t => do
      fcAssert (t.2.controlAccount = o.controlAccount) "You do not control this XTT."
      fcAssert (t.2.phase = .setup) "XTT cannot be reset if setup is completed."
      pure { s with xttTokens := s.xttTokens.remove t.1 }

/-- `xtt_create_evaluator`, up to the refill of the pool. -/
def createXtt (o : XttCreateOperation) : Result Objects := do
  let token ← s.findTokenAgnostic o.symbol
  let s ← s.payOrResetXtt o token
  let tokens ← dbCreate s.xttTokens
    { liquidSymbol := o.symbol, controlAccount := o.controlAccount, desiredTicker := o.desiredTicker }
  pure ({ s with xttTokens := tokens }.removeFromNaiPool o.symbol)

def applyXttCreate (o : XttCreateOperation) : Result Objects := do
  let s ← s.createXtt o
  if env.pendingTx then pure s else s.replenishNaiPool

def commonPreSetupEvaluation (controlAccount : WalletName) : Result (Nat × XttTokenObject) :=
  match s.xttTokens.find? fun t => t.liquidSymbol = symbol with
  | none => .error ⟨.assertException, "XTT numerical asset identifier not found"⟩
  | some t => do
    fcAssert (t.2.controlAccount = controlAccount) "The wallet does NOT control the XTT"
    fcAssert (t.2.phase.rank < XttPhase.setupCompleted.rank)
      "XTT pre-setup operation no longer allowed after setup phase is over"
    pure t

def xgtUnitsHardCap : Option Int :=
  ((s.xttIcoTiers.objects.filter fun t => t.symbol = symbol).map fun t => t.xgtUnitsCap).max?

def pushRequiredAction (a : RequiredAutomatedAction) (executionTime : TimePointSec) :
    Result Objects := do
  a.validate
  if env.pendingTx then pure s
  else
    let actions ← dbCreate s.pendingRequiredActions
      { action := a, executionTime := max executionTime s.headBlockTime }
    pure { s with pendingRequiredActions := actions }

def applyXttSetup (o : XttSetupOperation) : Result Objects := do
  let t ← s.commonPreSetupEvaluation o.symbol o.controlAccount
  if 0 < o.xgtUnitsMin then
    match s.xgtUnitsHardCap o.symbol with
    | none => fcAssert false "An XTT with a Xgt Units Minimum cannot succeed without an ICO tier."
    | some cap =>
      fcAssert (o.xgtUnitsMin ≤ cap) "The Xgt Units Minimum must be less than the hard cap."
  let tokens ← dbModify s.xttTokens t.1
    { t.2 with phase := .setupCompleted, maxSupply := o.maxSupply }
  let icos ← dbCreate s.xttIcos
    { symbol := t.2.liquidSymbol, contributionBeginTime := o.contributionBeginTime,
      contributionEndTime := o.contributionEndTime, launchTime := o.launchTime,
      xgtUnitsMin := o.xgtUnitsMin, minUnitRatio := o.minUnitRatio, maxUnitRatio := o.maxUnitRatio }
  let s : Objects := { s with xttTokens := tokens, xttIcos := icos }
  s.pushRequiredAction env (.xttIcoLaunch t.2.controlAccount t.2.liquidSymbol) o.contributionBeginTime

def verifyAccounts (units : FlatMap String Nat) : Result Unit :=
  units.entries.forM fun u =>
    fcAssert (u.1 = "$from" || u.1 = "$from.vesting" || (s.findAccount u.1).isSome)
      "The provided account unit target does not exist."

def applyXttSetupIcoTier (o : XttSetupIcoTierOperation) : Result Objects := do
  let t ← s.commonPreSetupEvaluation o.symbol o.controlAccount
  if o.remove then
    match s.xttIcoTiers.find? fun x =>
      x.symbol = t.2.liquidSymbol && x.xgtUnitsCap = o.xgtUnitsCap with
    | none => .error ⟨.assertException, "The specified ICO tier does not exist."⟩
    | some tier => pure { s with xttIcoTiers := s.xttIcoTiers.remove tier.1 }
  else
    fcAssert ((s.xttIcoTiers.objects.filter fun x => x.symbol = o.symbol).length < 10)
      "There can be a maximum of 10 ICO tiers."
    s.verifyAccounts o.generationPolicy.xgtUnit
    s.verifyAccounts o.generationPolicy.tokenUnit
    let tiers ← dbCreate s.xttIcoTiers
      { symbol := t.2.liquidSymbol, xgtUnitsCap := o.xgtUnitsCap,
        generationUnit := o.generationPolicy }
    pure { s with xttIcoTiers := tiers }

def setSetupParameter : XttSetupParameter → XttTokenObject
  | .allowVoting value => { t with allowVoting := value }

def applyXttSetSetupParameters (o : XttSetSetupParametersOperation) : Result Objects := do
  let t ← s.commonPreSetupEvaluation o.symbol o.controlAccount
  let tokens ← dbModify s.xttTokens t.1 (o.setupParameters.foldl setSetupParameter t.2)
  pure { s with xttTokens := tokens }

def setRuntimeParameter : XttRuntimeParameter → XttTokenObject
  | .windowsV1 seconds => { t with reverseAuctionWindowSeconds := seconds }
  | .voteRegenerationPeriodSecondsV1 seconds votes =>
    { t with voteRegenerationPeriodSeconds := seconds, votesPerRegenerationPeriod := votes }
  | .allowDownvotes value => { t with allowDownvotes := value }

def applyXttSetRuntimeParameters (o : XttSetRuntimeParametersOperation) : Result Objects := do
  let t ← s.commonPreSetupEvaluation o.symbol o.controlAccount
  let tokens ← dbModify s.xttTokens t.1 (o.runtimeParameters.foldl setRuntimeParameter t.2)
  pure { s with xttTokens := tokens }

def applyXttContribute (o : XttContributeOperation) : Result Objects := do
  let t ← getRow (s.xttTokens.find? fun t => t.liquidSymbol = o.symbol)
  fcAssert (XttPhase.ico.rank ≤ t.2.phase.rank) "XTT has not begun accepting contributions"
  fcAssert (t.2.phase.rank < XttPhase.icoCompleted.rank) "XTT is no longer accepting contributions"
  match s.xgtUnitsHardCap o.symbol with
  | none => .error ⟨.assertException, "The specified token does not feature an ICO"⟩
  | some cap =>
    let ico ← getRow (s.xttIcos.find? fun i => i.symbol = t.2.liquidSymbol)
    fcAssert (ico.2.contributed.amount < cap)
      "XTT ICO has reached its hard cap and no longer accepts contributions"
    let total ← safeInt64 (ico.2.contributed.amount + o.contribution.amount)
    fcAssert (total ≤ cap) "The proposed contribution would exceed the ICO hard cap"
    fcAssert (s.xttContributions.find? fun c => c.symbol = o.contribution.symbol &&
      c.contributor = o.contributor && c.contributionId = o.contributionId).isNone
      "The provided contribution ID must be unique."
    let n ← safeInt64 (-o.contribution.amount)
    let s ← s.adjustBalance o.contributor ⟨n, o.contribution.symbol⟩
    let contributions ← dbCreate s.xttContributions
      { contributor := o.contributor, symbol := o.symbol, contributionId := o.contributionId,
        contribution := o.contribution }
    let contributed ← ico.2.contributed.add o.contribution
    let icos ← dbModify s.xttIcos ico.1 { ico.2 with contributed := contributed }
    pure { s with xttContributions := contributions, xttIcos := icos }

def noEvaluator : Result Objects :=
  .error ⟨.assertException, "No registered evaluator for this operation"⟩

def applyOperation (env : Env) : Operation → Result Objects
  | .comment o => s.applyComment cr o
  | .transfer o => s.applyTransfer env o
  | .walletCreate o => s.applyWalletCreate cr o
  | .walletUpdate o => s.applyWalletUpdate o
  | .witnessUpdate o => s.applyWitnessUpdate o
  | .custom o => s.applyCustom env o
  | .reportOverProduction _ => .ok s
  | .deleteComment o => s.applyDeleteComment o
  | .customJson o => s.applyCustomJson env o
  | .commentOptions o => s.applyCommentOptions o
  | .requestWalletRecovery _ | .recoverWallet _ | .changeRecoveryWallet _ => noEvaluator
  | .escrowTransfer o => s.applyEscrowTransfer o
  | .escrowDispute o => s.applyEscrowDispute o
  | .escrowRelease o => s.applyEscrowRelease o
  | .pow o => s.applyPow env o
  | .escrowApprove o => s.applyEscrowApprove o
  | .vote o => s.applyVote o
  | .xttSetup o => s.applyXttSetup env o
  | .xttSetupIcoTier o => s.applyXttSetupIcoTier o
  | .xttSetSetupParameters o => s.applyXttSetSetupParameters o
  | .xttSetRuntimeParameters o => s.applyXttSetRuntimeParameters o
  | .xttCreate o => s.applyXttCreate env o
  | .xttContribute o => s.applyXttContribute o
  | .shutdownWitness _ | .hardfork _ | .clearNullWalletBalance _ => noEvaluator
  | .contractCreate o => s.applyContractCreate o
  | .contractInvoke _ => .ok s

end Objects

end Xgt
