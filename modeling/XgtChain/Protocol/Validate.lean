import XgtChain.Protocol.Operation

/-!
# Stateless validation

The `validate` method of every operation, `transaction::validate`, and the authorities that each operation
requires.
-/

namespace Xgt

open Base

def validateWalletName (name : WalletName) : Result Unit :=
  fcAssert (Authority.isValidWalletName name) "Account name is invalid"

def validatePermlink (cr : Crypto) (permlink : String) : Result Unit := do
  fcAssert (permlink.utf8ByteSize < 256) "permlink is too long"
  fcAssert (cr.isUtf8 permlink) "permlink not formatted in UTF8"

def validateJsonMetadata (cr : Crypto) (json : String) : Result Unit :=
  if 0 < json.utf8ByteSize then do
    fcAssert (cr.isUtf8 json) "JSON Metadata not formatted in UTF8"
    fcAssert (cr.jsonIsValid json) "JSON Metadata not valid JSON"
  else pure ()

def isAssetType (a : Asset) (symbol : AssetSymbol) : Bool := a.symbol = symbol

variable (s : AssetSymbol)

def AssetSymbol.decimals : Nat := s.assetNum % 16

def AssetSymbol.validate : Result Unit :=
  if s = xgtSymbol then pure ()
  else fcAssert (1 ≤ s.assetNum / 32 ∧ s.assetNum / 32 ≤ 99999999 ∧ s.assetNum / 16 % 2 = 1 ∧
    s.assetNum % 16 ≤ 12) "Cannot determine space for asset"

def validateXttSymbol : Result Unit := do
  s.validate
  fcAssert (s ≠ xgtSymbol) "legacy symbol used instead of NAI"

def validateAuthSize (a : Authority) : Result Unit :=
  fcAssert (a.walletAuths.size + a.keyAuths.size ≤ xgtMaxAuthorityMembership)
    "Authority membership exceeded."

def LegacyChainProperties.validate (forceCanon : Bool) (p : LegacyChainProperties) :
    Result Unit := do
  if forceCanon then
    fcAssert p.accountCreationFee.isCanon "account_creation_fee.symbol.is_canon()"
  fcAssert (0 ≤ p.accountCreationFee.amount)
    "account_creation_fee.amount >= XGT_MIN_WALLET_CREATION_FEE"
  fcAssert (xgtMinBlockSizeLimit ≤ p.maximumBlockSize)
    "maximum_block_size >= XGT_MIN_BLOCK_SIZE_LIMIT"

def Sha256.byteAt (h : Sha256) (i : Nat) : Nat :=
  if i < 32 then h.toNat / 256 ^ (31 - i) % 256 else 0

open Sha256

def Sha256.clz (h : Sha256) : Nat := if h.toNat = 0 then 256 else 255 - h.toNat.log2

def Sha256.approxLog32 (h : Sha256) : Nat :=
  let lzbits := clz h
  if 256 ≤ lzbits then 0
  else
    let nzbits := 255 - lzbits
    let offset := lzbits / 8
    let y := byteAt h offset * 2 ^ 24 + byteAt h (offset + 1) * 2 ^ 16 +
      byteAt h (offset + 2) * 2 ^ 8 + byteAt h (offset + 3)
    (y >>> (nzbits % 8) ^^^ 2 ^ 24) ||| (nzbits * 2 ^ 24)

def proofOf (cr : Crypto) (input : PowInput) : Sha256 := cr.hashSha256 (cr.hashPowInput input)

def Sha2Pow.isValid (cr : Crypto) (w : Sha2Pow) : Bool :=
  w.proof = proofOf cr w.input ∧ w.powSummary = approxLog32 w.proof

def PowWork.validate (cr : Crypto) : PowWork → Result Unit
  | .pow w => do
    validateWalletName w.input.workerAccount
    fcAssert (w.powSummary = cr.powSummaryOf w.input) "reported work does not match calculated work"
  | .sha2Pow w => do
    validateWalletName w.input.workerAccount
    fcAssert (w.isValid cr) "proof of work seed does not match expected seed"

/-! ## Operations -/

section Operations

variable (cr : Crypto)

def WalletCreateOperation.validate (o : WalletCreateOperation) : Result Unit := do
  fcAssert (isAssetType o.fee xgtSymbol) "Account creation fee must be XGT"
  o.recovery.validate
  o.money.validate
  validateJsonMetadata cr o.jsonMetadata
  fcAssert (← o.fee.ge (.xgt 0)) "Account creation fee cannot be negative"

def WalletUpdateOperation.validate (o : WalletUpdateOperation) : Result Unit := do
  validateWalletName o.wallet
  validateJsonMetadata cr o.jsonMetadata
  validateJsonMetadata cr o.socialJsonMetadata

def CommentOperation.validate (o : CommentOperation) : Result Unit := do
  fcAssert (o.title.utf8ByteSize < 256) "Title size limit exceeded."
  fcAssert (cr.isUtf8 o.title) "Title not formatted in UTF8"
  fcAssert (0 < o.body.utf8ByteSize) "Body is empty"
  fcAssert (cr.isUtf8 o.body) "Body not formatted in UTF8"
  if 0 < o.parentAuthor.utf8ByteSize then validateWalletName o.parentAuthor
  validateWalletName o.author
  validatePermlink cr o.parentPermlink
  validatePermlink cr o.permlink
  -- no UTF-8 check here, unlike the other metadata fields
  if 0 < o.jsonMetadata.utf8ByteSize then
    fcAssert (cr.jsonIsValid o.jsonMetadata) "JSON Metadata not valid JSON"

def CommentOptionsOperation.validate (o : CommentOptionsOperation) : Result Unit := do
  validateWalletName o.author
  validatePermlink cr o.permlink

def DeleteCommentOperation.validate (o : DeleteCommentOperation) : Result Unit := do
  validatePermlink cr o.permlink
  validateWalletName o.author

def VoteOperation.validate (o : VoteOperation) : Result Unit := do
  validateWalletName o.voter
  validateWalletName o.author
  validatePermlink cr o.permlink

def TransferOperation.validate (o : TransferOperation) : Result Unit := do
  validateWalletName o.fromWallet
  fcAssert (0 < o.amount.amount) "Cannot transfer a negative amount (aka: stealing)"
  fcAssert (o.memo.utf8ByteSize < 2048) "Memo is too large"
  fcAssert (cr.isUtf8 o.memo) "Memo is not UTF8"

def WitnessUpdateOperation.validate (o : WitnessUpdateOperation) : Result Unit := do
  validateWalletName o.owner
  fcAssert (o.url.utf8ByteSize ≤ 2048) "URL is too long"
  fcAssert (0 < o.url.utf8ByteSize) "URL size must be greater than 0"
  fcAssert (cr.isUtf8 o.url) "URL is not valid UTF8"
  fcAssert (← o.fee.ge (.xgt 0)) "Fee cannot be negative"
  o.props.validate false

def CustomOperation.validate (o : CustomOperation) : Result Unit :=
  fcAssert (o.requiredAuths ≠ .empty) "at least one account must be specified"

def CustomJsonOperation.validate (o : CustomJsonOperation) : Result Unit := do
  fcAssert (o.requiredAuths ≠ .empty ∨ o.requiredSocialAuths ≠ .empty)
    "at least one account must be specified"
  fcAssert (o.id.utf8ByteSize ≤ 32) "Operation ID length exceeded."
  fcAssert (cr.isUtf8 o.json) "JSON Metadata not formatted in UTF8"
  fcAssert (cr.jsonIsValid o.json) "JSON Metadata not valid JSON"

def PowOperation.validate (o : PowOperation) : Result Unit := do
  o.props.validate true
  o.work.validate cr

def ReportOverProductionOperation.validate (o : ReportOverProductionOperation) :
    Result Unit := do
  validateWalletName o.reporter
  validateWalletName o.firstBlock.witness
  fcAssert (o.firstBlock.witness = o.secondBlock.witness)
    "first_block.witness == second_block.witness"
  fcAssert (o.firstBlock.timestamp = o.secondBlock.timestamp)
    "first_block.timestamp == second_block.timestamp"
  let first ← cr.signee o.firstBlock
  let second ← cr.signee o.secondBlock
  fcAssert (first = second) "first_block.signee() == second_block.signee()"
  fcAssert (cr.blockId o.firstBlock ≠ cr.blockId o.secondBlock)
    "first_block.id() != second_block.id()"

def EscrowTransferOperation.validate (o : EscrowTransferOperation) : Result Unit := do
  validateWalletName o.fromWallet
  validateWalletName o.toWallet
  validateWalletName o.agent
  fcAssert (0 ≤ o.fee.amount) "fee cannot be negative"
  fcAssert (0 ≤ o.xgtAmount.amount) "xgt amount cannot be negative"
  fcAssert (0 < o.xgtAmount.amount) "escrow must transfer a non-zero amount"
  fcAssert (o.fromWallet ≠ o.agent ∧ o.toWallet ≠ o.agent) "agent must be a third party"
  fcAssert (o.fee.symbol = xgtSymbol) "fee must be XGT"
  fcAssert (o.xgtAmount.symbol = xgtSymbol) "xgt amount must contain XGT"
  fcAssert (o.ratificationDeadline < o.escrowExpiration)
    "ratification deadline must be before escrow expiration"
  validateJsonMetadata cr o.jsonMeta

def validateEscrowParties (fromWallet toWallet agent who : WalletName) : Result Unit := do
  validateWalletName fromWallet
  validateWalletName toWallet
  validateWalletName agent
  validateWalletName who

def EscrowApproveOperation.validate (o : EscrowApproveOperation) : Result Unit := do
  validateEscrowParties o.fromWallet o.toWallet o.agent o.who
  fcAssert (o.who = o.toWallet ∨ o.who = o.agent) "to or agent must approve escrow"

def EscrowDisputeOperation.validate (o : EscrowDisputeOperation) : Result Unit := do
  validateEscrowParties o.fromWallet o.toWallet o.agent o.who
  fcAssert (o.who = o.fromWallet ∨ o.who = o.toWallet) "who must be from or to"

def EscrowReleaseOperation.validate (o : EscrowReleaseOperation) : Result Unit := do
  validateEscrowParties o.fromWallet o.toWallet o.agent o.who
  validateWalletName o.receiver
  fcAssert (o.who = o.fromWallet ∨ o.who = o.toWallet ∨ o.who = o.agent)
    "who must be from or to or agent"
  fcAssert (o.receiver = o.fromWallet ∨ o.receiver = o.toWallet) "receiver must be from or to"
  fcAssert (0 ≤ o.xgtAmount.amount) "xgt amount cannot be negative"
  fcAssert (0 < o.xgtAmount.amount) "escrow must release a non-zero amount"
  fcAssert (o.xgtAmount.symbol = xgtSymbol) "xgt amount must contain XGT"

def RequestWalletRecoveryOperation.validate (o : RequestWalletRecoveryOperation) :
    Result Unit := do
  validateWalletName o.recoveryAccount
  validateWalletName o.accountToRecover
  o.newRecoveryAuthority.validate

def RecoverWalletOperation.validate (o : RecoverWalletOperation) : Result Unit := do
  validateWalletName o.accountToRecover
  fcAssert (o.newRecoveryAuthority ≠ o.recentRecoveryAuthority)
    "Cannot set new recovery authority to the recent recovery authority"
  fcAssert (¬o.newRecoveryAuthority.isImpossible) "new recovery authority cannot be impossible"
  fcAssert (¬o.recentRecoveryAuthority.isImpossible)
    "recent recovery authority cannot be impossible"
  fcAssert (o.newRecoveryAuthority.weightThreshold ≠ 0)
    "new recovery authority cannot be trivial"
  o.newRecoveryAuthority.validate
  o.recentRecoveryAuthority.validate

def ChangeRecoveryWalletOperation.validate (o : ChangeRecoveryWalletOperation) : Result Unit := do
  validateWalletName o.accountToRecover
  validateWalletName o.newRecoveryAccount

def ContractCreateOperation.validate (o : ContractCreateOperation) : Result Unit :=
  validateWalletName o.owner

def xttAdminOperationValidate (controlAccount : WalletName) (symbol : AssetSymbol) :
    Result Unit := do
  validateWalletName controlAccount
  validateXttSymbol symbol

def RequiredAutomatedAction.validate : RequiredAutomatedAction → Result Unit
  | .xttIcoLaunch controlAccount symbol | .xttIcoEvaluation controlAccount symbol
  | .xttTokenLaunch controlAccount symbol => xttAdminOperationValidate controlAccount symbol
  | .xttRefund contributor symbol _ _ => do
    validateWalletName contributor
    validateXttSymbol symbol
  | .exampleRequired account => validateWalletName account

def XttCreateOperation.validate (o : XttCreateOperation) : Result Unit := do
  xttAdminOperationValidate o.controlAccount o.symbol
  if o.desiredTicker ≠ "" then
    fcAssert (o.desiredTicker ≠ "XGT") "XTT Ticker Symbol cannot be XGT"
    fcAssert (3 ≤ o.desiredTicker.utf8ByteSize)
      "XTT Ticker Symbol must be at least 3 characters long."
    fcAssert (o.desiredTicker.toList.all fun c => 'A' ≤ c ∧ c ≤ 'Z')
      "XTT Ticker Symbol can only contain capital letters."
  fcAssert (0 ≤ o.xttCreationFee.amount) "fee cannot be negative"
  fcAssert (o.xttCreationFee.amount ≤ xgtMaxShareSupply)
    "Fee must be smaller than XGT_MAX_SHARE_SUPPLY"
  fcAssert (isAssetType o.xttCreationFee xgtSymbol) "Fee must be XGT"
  fcAssert (o.symbol.decimals = o.precision)
    "Mismatch between redundantly provided precision"

def validateUnits (units : FlatMap String Nat) : Result Unit := do
  fcAssert (units.size ≤ 10) "xgt_unit.size() <= XTT_MAX_UNIT_ROUTES"
  units.entries.forM fun e => fcAssert (0 < e.2) "e.second > 0"

def XttGenerationUnit.validate (u : XttGenerationUnit) : Result Unit := do
  validateUnits u.xgtUnit
  validateUnits u.tokenUnit
  fcAssert (0 < u.xgtUnit.size) "generation_unit.xgt_unit.size() > 0"
  fcAssert (u.xgtUnit.size ≤ 20) "generation_unit.xgt_unit.size() <= XTT_MAX_UNIT_COUNT"
  fcAssert (u.tokenUnit.size ≤ 20) "generation_unit.token_unit.size() <= XTT_MAX_UNIT_COUNT"

def XttSetupIcoTierOperation.validate (o : XttSetupIcoTierOperation) : Result Unit := do
  xttAdminOperationValidate o.controlAccount o.symbol
  fcAssert (0 ≤ o.xgtUnitsCap) "Xgt units cap must be greater than or equal to 0"
  fcAssert (o.xgtUnitsCap ≤ xgtMaxShareSupply) "Xgt units cap must be less than or equal to"
  o.generationPolicy.validate

def XttSetupOperation.validate (o : XttSetupOperation) : Result Unit := do
  xttAdminOperationValidate o.controlAccount o.symbol
  fcAssert (0 < o.maxSupply) "Max supply must be greater than 0"
  fcAssert (o.maxSupply ≤ xgtMaxShareSupply) "Max supply must be less than"
  fcAssert (xgtGenesisTime < o.contributionBeginTime)
    "Contribution begin time must be greater than"
  fcAssert (o.contributionBeginTime ≤ o.contributionEndTime)
    "Contribution end time must be equal to or later than contribution begin time"
  fcAssert (o.contributionEndTime ≤ o.launchTime)
    "Launch time must be equal to or later than the contribution end time"
  fcAssert (0 ≤ o.xgtUnitsMin) "Xgt units min must be greater than or equal to 0"

def XttRuntimeParameter.validate : XttRuntimeParameter → Result Unit
  | .windowsV1 _ => pure ()
  | .voteRegenerationPeriodSecondsV1 seconds votes => do
    ensure (seconds ≠ 0) ⟨.other, "division by zero"⟩
    fcAssert ((votes * 86400 + seconds - 1) % 2 ^ 32 / seconds ≤ 1000)
      "Nominal votes per day exceeds maximum"
  | .allowDownvotes _ => pure ()

def XttSetRuntimeParametersOperation.validate (o : XttSetRuntimeParametersOperation) :
    Result Unit := do
  xttAdminOperationValidate o.controlAccount o.symbol
  fcAssert (o.runtimeParameters ≠ []) "!runtime_parameters.empty()"
  o.runtimeParameters.forM (·.validate)

def XttSetSetupParametersOperation.validate (o : XttSetSetupParametersOperation) :
    Result Unit := do
  xttAdminOperationValidate o.controlAccount o.symbol
  fcAssert (o.setupParameters ≠ []) "setup_parameters.empty() == false"

def XttContributeOperation.validate (o : XttContributeOperation) : Result Unit := do
  validateWalletName o.contributor
  validateXttSymbol o.symbol
  fcAssert (o.contribution.symbol = xgtSymbol) "Contributions must be made in XGT"
  fcAssert (0 < o.contribution.amount) "Contribution amount must be greater than 0"

def Operation.validate : Operation → Result Unit
  | .comment o | .transfer o | .walletCreate o | .walletUpdate o | .witnessUpdate o => o.validate cr
  | .custom o => o.validate
  | .reportOverProduction o | .deleteComment o | .customJson o | .commentOptions o => o.validate cr
  | .requestWalletRecovery o | .recoverWallet o | .changeRecoveryWallet o => o.validate
  | .escrowTransfer o => o.validate cr
  | .escrowDispute o | .escrowRelease o => o.validate
  | .pow o => o.validate cr
  | .escrowApprove o => o.validate
  | .vote o => o.validate cr
  | .xttSetup o => o.validate
  | .xttSetupIcoTier o => o.validate
  | .xttSetSetupParameters o | .xttSetRuntimeParameters o | .xttCreate o | .xttContribute o =>
    o.validate
  | .shutdownWitness _ | .hardfork _ | .clearNullWalletBalance _ =>
    fcAssert false "This is a virtual operation"
  | .contractCreate o => o.validate
  | .contractInvoke _ => pure ()

def Transaction.validate (t : Transaction) : Result Unit := do
  fcAssert (t.operations ≠ []) "A transaction must have at least one operation"
  t.operations.forM (·.validate cr)

end Operations

theorem Transaction.validate_pow {cr : Crypto} {t : Transaction} {o : PowOperation} {w : Sha2Pow}
    (h : t.validate cr = .ok ()) (ho : Operation.pow o ∈ t.operations) (hw : o.work = .sha2Pow w) :
    w.proof = proofOf cr w.input ∧ w.powSummary = approxLog32 w.proof := by
  obtain ⟨_, -, hops⟩ := of_bind h
  obtain ⟨_, -, hwork⟩ := of_bind (forM_ok_iff.1 hops _ ho)
  rw [hw] at hwork
  obtain ⟨_, -, hvalid⟩ := of_bind hwork
  simpa [Sha2Pow.isValid] using hvalid

structure RequiredAuths where
  money : FlatSet WalletName := .empty
  recovery : FlatSet WalletName := .empty
  social : FlatSet WalletName := .empty
  other : List Authority := []

namespace RequiredAuths

variable (r : RequiredAuths) (w : WalletName)

def addMoney : RequiredAuths := { r with money := r.money.insert w }

def addRecovery : RequiredAuths :=
  { r with recovery := r.recovery.insert w }

def addSocial : RequiredAuths :=
  { r with social := r.social.insert w }

end RequiredAuths

def Operation.getRequiredAuthorities (op : Operation) (r : RequiredAuths) : RequiredAuths :=
  match op with
  | .comment o => r.addSocial o.author
  | .transfer o => r.addMoney o.fromWallet
  | .walletCreate o => r.addMoney o.creator
  | .walletUpdate _ => r
  | .witnessUpdate o => r.addMoney o.owner
  | .custom o => { r with money := r.money.insertAll o.requiredAuths.elems }
  | .reportOverProduction _ => r
  | .deleteComment o => r.addSocial o.author
  | .customJson o =>
    { r with
      money := r.money.insertAll o.requiredAuths.elems
      social := r.social.insertAll o.requiredSocialAuths.elems }
  | .commentOptions o => r.addSocial o.author
  | .requestWalletRecovery o => r.addMoney o.recoveryAccount
  | .recoverWallet o =>
    { r with other := r.other ++ [o.newRecoveryAuthority, o.recentRecoveryAuthority] }
  | .changeRecoveryWallet o => r.addRecovery o.accountToRecover
  | .escrowTransfer o => r.addMoney o.fromWallet
  | .escrowDispute o | .escrowRelease o => r.addMoney o.who
  | .pow o =>
    match o.newRecoveryKey with
    | some k => { r with other := r.other ++ [.ofKey 1 k 1] }
    | none => r.addMoney o.getWorkerName
  | .escrowApprove o => r.addMoney o.who
  | .vote o => r.addSocial o.voter
  | .xttSetup o => r.addMoney o.controlAccount
  | .xttSetupIcoTier _ => r
  | .xttSetSetupParameters o | .xttSetRuntimeParameters o | .xttCreate o =>
    r.addMoney o.controlAccount
  | .xttContribute o => r.addMoney o.contributor
  | .shutdownWitness _ => r
  | .hardfork _ => r
  | .clearNullWalletBalance _ => r
  | .contractCreate o => (r.addRecovery o.owner).addMoney o.owner
  | .contractInvoke _ => r

def requiredAuthorities (ops : List Operation) : RequiredAuths :=
  ops.foldl (fun r op => op.getRequiredAuthorities r) {}

end Xgt
