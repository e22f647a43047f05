import XgtChain.Protocol.SignState

/-!
# Operations, transactions and blocks

The data of operations, transactions and blocks, and the cryptographic functions over it (`Crypto`).
-/

namespace Xgt

open Base

structure Version where
  vNum : Nat
  deriving DecidableEq, Repr

def Version.toHardfork (v : Version) : Version := ⟨v.vNum / 2 ^ 16 * 2 ^ 16⟩

structure HardforkVersionVote where
  hfVersion : Version
  hfTime : TimePointSec
  deriving DecidableEq, Repr

inductive RequiredAutomatedAction where
  | xttIcoLaunch (controlAccount : WalletName) (symbol : AssetSymbol)
  | xttIcoEvaluation (controlAccount : WalletName) (symbol : AssetSymbol)
  | xttTokenLaunch (controlAccount : WalletName) (symbol : AssetSymbol)
  | xttRefund (contributor : WalletName) (symbol : AssetSymbol) (contributionId : Nat) (refund : Asset)
  | exampleRequired (account : WalletName)
  deriving DecidableEq, Repr

inductive BlockHeaderExtension where
  | void
  | version (v : Version)
  | hardforkVersionVote (v : HardforkVersionVote)
  | requiredAutomatedActions (actions : List RequiredAutomatedAction)
  | optionalAutomatedActions
  deriving DecidableEq, Repr

structure Checksum where
  data : Nat
  deriving DecidableEq, Repr, Inhabited

structure BlockHeader where
  previous : BlockId
  timestamp : TimePointSec
  witness : WalletName
  transactionMerkleRoot : Checksum
  extensions : List BlockHeaderExtension
  deriving DecidableEq, Repr

def BlockHeader.blockNum (h : BlockHeader) : Nat := (numFromId h.previous + 1) % 2 ^ 32

structure SignedBlockHeader extends BlockHeader where
  witnessSignature : Signature
  deriving DecidableEq, Repr

/-! ## Operations of `xgt_operations.hpp` -/

structure WalletCreateOperation where
  fee : Asset
  creator : WalletName
  newWalletName : WalletName
  recovery : Authority
  money : Authority
  social : Authority
  memoKey : PublicKey
  jsonMetadata : String
  deriving DecidableEq

structure WalletUpdateOperation where
  wallet : WalletName
  recovery : Option Authority
  money : Option Authority
  social : Option Authority
  memoKey : Option PublicKey
  jsonMetadata : String
  socialJsonMetadata : String
  deriving DecidableEq

structure CommentOperation where
  parentAuthor : WalletName
  parentPermlink : String
  author : WalletName
  permlink : String
  title : String
  body : String
  jsonMetadata : String
  deriving DecidableEq

structure CommentOptionsOperation where
  author : WalletName
  permlink : String
  allowVotes : Bool := true
  deriving DecidableEq

structure DeleteCommentOperation where
  author : WalletName
  permlink : String
  deriving DecidableEq

structure VoteOperation where
  voter : WalletName
  author : WalletName
  permlink : String
  deriving DecidableEq

structure TransferOperation where
  fromWallet : WalletName
  toWallet : WalletName
  amount : Asset
  memo : String
  deriving DecidableEq

structure EscrowTransferOperation where
  fromWallet : WalletName
  toWallet : WalletName
  agent : WalletName
  escrowId : Nat := 30
  xgtAmount : Asset := .xgt 0
  fee : Asset
  ratificationDeadline : TimePointSec
  escrowExpiration : TimePointSec
  jsonMeta : String
  deriving DecidableEq

structure EscrowApproveOperation where
  fromWallet : WalletName
  toWallet : WalletName
  agent : WalletName
  who : WalletName
  escrowId : Nat := 30
  approve : Bool := true
  deriving DecidableEq

structure EscrowDisputeOperation where
  fromWallet : WalletName
  toWallet : WalletName
  agent : WalletName
  who : WalletName
  escrowId : Nat := 30
  deriving DecidableEq

structure EscrowReleaseOperation where
  fromWallet : WalletName
  toWallet : WalletName
  agent : WalletName
  who : WalletName
  receiver : WalletName
  escrowId : Nat := 30
  xgtAmount : Asset := .xgt 0
  deriving DecidableEq

structure LegacyXgtAsset where
  amount : Int
  isCanon : Bool := true
  deriving DecidableEq

structure LegacyChainProperties where
  accountCreationFee : LegacyXgtAsset := ⟨0, true⟩
  maximumBlockSize : Nat := xgtMinBlockSizeLimit * 2
  deriving DecidableEq

structure WitnessUpdateOperation where
  owner : WalletName
  url : String
  blockSigningKey : PublicKey
  props : LegacyChainProperties
  fee : Asset
  deriving DecidableEq

structure CustomOperation where
  requiredAuths : FlatSet WalletName
  id : Nat := 0
  data : List UInt8
  deriving DecidableEq

structure CustomJsonOperation where
  requiredAuths : FlatSet WalletName
  requiredSocialAuths : FlatSet WalletName
  id : String
  json : String
  deriving DecidableEq

structure PowInput where
  workerAccount : WalletName
  prevBlock : BlockId
  nonce : Nat := 0
  deriving DecidableEq

structure Pow where
  input : PowInput
  powSummary : Nat := 0
  deriving DecidableEq

structure Sha2Pow where
  input : PowInput
  proof : Sha256
  prevBlock : BlockId
  powSummary : Nat := 0
  deriving DecidableEq

inductive PowWork where
  | pow (w : Pow)
  | sha2Pow (w : Sha2Pow)
  deriving DecidableEq

def PowWork.input : PowWork → PowInput
  | .pow w => w.input
  | .sha2Pow w => w.input

structure PowOperation where
  work : PowWork
  newRecoveryKey : Option PublicKey
  props : LegacyChainProperties
  deriving DecidableEq

def PowOperation.getWorkerName (o : PowOperation) : WalletName := o.work.input.workerAccount

structure ReportOverProductionOperation where
  reporter : WalletName
  firstBlock : SignedBlockHeader
  secondBlock : SignedBlockHeader
  deriving DecidableEq

structure RequestWalletRecoveryOperation where
  recoveryAccount : WalletName
  accountToRecover : WalletName
  newRecoveryAuthority : Authority
  deriving DecidableEq

structure RecoverWalletOperation where
  accountToRecover : WalletName
  newRecoveryAuthority : Authority
  recentRecoveryAuthority : Authority
  deriving DecidableEq

structure ChangeRecoveryWalletOperation where
  accountToRecover : WalletName
  newRecoveryAccount : WalletName
  deriving DecidableEq

structure ContractCreateOperation where
  owner : WalletName
  code : List UInt8
  deriving DecidableEq

structure ContractInvokeOperation where
  caller : WalletName
  contractHash : ContractHash
  args : List (List UInt8)
  deriving DecidableEq

structure XttCreateOperation where
  controlAccount : WalletName
  symbol : AssetSymbol
  desiredTicker : String
  xttCreationFee : Asset
  precision : Nat
  deriving DecidableEq

structure XttGenerationUnit where
  xgtUnit : FlatMap String Nat
  tokenUnit : FlatMap String Nat
  deriving DecidableEq

structure XttSetupOperation where
  controlAccount : WalletName
  symbol : AssetSymbol
  maxSupply : Int := xgtMaxShareSupply
  contributionBeginTime : TimePointSec
  contributionEndTime : TimePointSec
  launchTime : TimePointSec
  xgtUnitsMin : Int
  minUnitRatio : Nat := 0
  maxUnitRatio : Nat := 0
  deriving DecidableEq

structure XttSetupIcoTierOperation where
  controlAccount : WalletName
  symbol : AssetSymbol
  xgtUnitsCap : Int
  generationPolicy : XttGenerationUnit
  remove : Bool := false
  deriving DecidableEq

inductive XttSetupParameter where
  | allowVoting (value : Bool)
  deriving DecidableEq

inductive XttRuntimeParameter where
  | windowsV1 (reverseAuctionWindowSeconds : Nat)
  | voteRegenerationPeriodSecondsV1 (voteRegenerationPeriodSeconds votesPerRegenerationPeriod : Nat)
  | allowDownvotes (value : Bool)
  deriving DecidableEq

structure XttSetSetupParametersOperation where
  controlAccount : WalletName
  symbol : AssetSymbol
  setupParameters : List XttSetupParameter
  deriving DecidableEq

structure XttSetRuntimeParametersOperation where
  controlAccount : WalletName
  symbol : AssetSymbol
  runtimeParameters : List XttRuntimeParameter
  deriving DecidableEq

structure XttContributeOperation where
  contributor : WalletName
  symbol : AssetSymbol
  contributionId : Nat
  contribution : Asset
  deriving DecidableEq

inductive Operation where
  | comment (o : CommentOperation)
  | transfer (o : TransferOperation)
  | walletCreate (o : WalletCreateOperation)
  | walletUpdate (o : WalletUpdateOperation)
  | witnessUpdate (o : WitnessUpdateOperation)
  | custom (o : CustomOperation)
  | reportOverProduction (o : ReportOverProductionOperation)
  | deleteComment (o : DeleteCommentOperation)
  | customJson (o : CustomJsonOperation)
  | commentOptions (o : CommentOptionsOperation)
  | requestWalletRecovery (o : RequestWalletRecoveryOperation)
  | recoverWallet (o : RecoverWalletOperation)
  | changeRecoveryWallet (o : ChangeRecoveryWalletOperation)
  | escrowTransfer (o : EscrowTransferOperation)
  | escrowDispute (o : EscrowDisputeOperation)
  | escrowRelease (o : EscrowReleaseOperation)
  | pow (o : PowOperation)
  | escrowApprove (o : EscrowApproveOperation)
  | vote (o : VoteOperation)
  | xttSetup (o : XttSetupOperation)
  | xttSetupIcoTier (o : XttSetupIcoTierOperation)
  | xttSetSetupParameters (o : XttSetSetupParametersOperation)
  | xttSetRuntimeParameters (o : XttSetRuntimeParametersOperation)
  | xttCreate (o : XttCreateOperation)
  | xttContribute (o : XttContributeOperation)
  | shutdownWitness (recovery : WalletName)
  | hardfork (hardforkId : Nat)
  | clearNullWalletBalance (totalCleared : List Asset)
  | contractCreate (o : ContractCreateOperation)
  | contractInvoke (o : ContractInvokeOperation)
  deriving DecidableEq

structure Transaction where
  refBlockNum : Nat := 0
  refBlockPrefix : Nat := 0
  expiration : TimePointSec
  operations : List Operation
  deriving DecidableEq

structure SignedTransaction extends Transaction where
  signatures : List Signature
  deriving DecidableEq

structure SignedBlock extends SignedBlockHeader where
  transactions : List SignedTransaction
  deriving DecidableEq

def Operation.pow? : Operation → Option PowOperation
  | .pow o => some o
  | _ => none

def Transaction.hasPowOp (t : Transaction) : Bool := t.operations.any (·.pow?.isSome)

inductive CanonicalType where
  | nonCanonical
  | bip0062
  | fcCanonical
  deriving DecidableEq, Repr

structure Crypto where
  hashKeys : List PublicKey → Sha256
  hashPowInput : PowInput → Sha256
  hashSha256 : Sha256 → Sha256
  powSummaryOf : PowInput → Nat
  headerHash : SignedBlockHeader → Nat
  headerDigest : BlockHeader → Sha256
  sigDigest : Transaction → Sha256
  transactionId : Transaction → TransactionId
  merkleDigest : SignedTransaction → Sha256
  hashPair : Sha256 → Sha256 → Sha256
  checksum : Sha256 → Checksum
  recoverKey : Signature → Sha256 → Option PublicKey
  isCanonical : CanonicalType → Signature → Bool
  packSize : SignedBlock → Nat
  transactionSize : SignedTransaction → Nat
  isUtf8 : String → Bool
  jsonIsValid : String → Bool

namespace Crypto

variable (cr : Crypto) (canon : CanonicalType)

def blockId (h : SignedBlockHeader) : BlockId := ⟨h.blockNum, cr.headerHash h⟩

def publicKey (sig : Signature) (digest : Sha256) : Result PublicKey :=
  if cr.isCanonical canon sig then
    match cr.recoverKey sig digest with
    | some k => .ok k
    | none => .error ⟨.other, "unable to reconstruct public key from signature"⟩
  else .error ⟨.other, "signature is not canonical"⟩

def signee (h : SignedBlockHeader) : Result PublicKey :=
  cr.publicKey .bip0062 h.witnessSignature (cr.headerDigest h.toBlockHeader)

def getSignatureKeys (t : SignedTransaction) : Result (FlatSet PublicKey) :=
  t.signatures.foldlM (fun (result : FlatSet PublicKey) sig => do
    let k ← cr.publicKey canon sig (cr.sigDigest t.toTransaction)
    ensure (k ∉ result) ⟨.txDuplicateSig, "Duplicate Signature detected"⟩
    pure (result.insert k)) .empty

end Crypto

def base58Digits : Nat → Nat → List Char
  | 0, _ => []
  | fuel + 1, n =>
    if n = 0 then [] else
      ("123456789ABCDEFGHJKLMNPQRSTUVWXYZabcdefghijkmnopqrstuvwxyz".toList.getD (n % 58) '1') ::
        base58Digits fuel (n / 58)

def leadingZeroBytes : Nat → Nat → Nat
  | 0, _ => 0
  | n + 1, v => if v < 256 ^ n then leadingZeroBytes n v + 1 else 0

def toBase58 (d : Sha256) : List Char :=
  List.replicate (leadingZeroBytes 32 d.toNat) '1' ++ (base58Digits 44 d.toNat).reverse

def getWalletName (cr : Crypto) (keys : List PublicKey) : WalletName :=
  String.ofList ("XGT".toList ++ (toBase58 (cr.hashKeys keys)).take 40)

def WalletCreateOperation.getWalletName (cr : Crypto) (o : WalletCreateOperation) : WalletName :=
  Xgt.getWalletName cr o.recovery.getKeys

end Xgt
