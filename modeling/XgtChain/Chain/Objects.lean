import XgtChain.Base.ObjectIndex
import XgtChain.Protocol.Validate

/-!
# The chain's objects

The objects that the node stores, their unique keys, and all tables together (`Objects`).
-/

namespace Xgt

open Base

structure WalletObject where
  name : WalletName
  memoKey : PublicKey := ⟨0⟩
  lastAccountUpdate : TimePointSec := 0
  created : TimePointSec := 0
  balance : Asset := .xgt 0
  lastPost : TimePointSec := 0
  lastRootPost : TimePointSec := 0
  lastPostEdit : TimePointSec := 0
  postBandwidth : Nat := 0
  postCount : Nat := 0

instance : Keyed WalletObject where
  clash a b := a.name = b.name

structure AccountAuthorityObject where
  account : WalletName
  recovery : Authority := .default
  money : Authority := .default
  social : Authority := .default
  lastRecoveryUpdate : TimePointSec := 0

instance : Keyed AccountAuthorityObject where
  clash _ _ := false

structure AccountMetadataObject where
  account : Nat
  jsonMetadata : String := ""
  socialJsonMetadata : String := ""

instance : Keyed AccountMetadataObject where
  clash a b := a.account = b.account

structure RecoveryAuthorityHistoryObject where
  account : WalletName
  previousRecoveryAuthority : Authority
  lastValidTime : TimePointSec

instance : Keyed RecoveryAuthorityHistoryObject where
  clash _ _ := false

structure ChainProperties where
  accountCreationFee : Asset := .xgt 0
  maximumBlockSize : Nat := xgtMinBlockSizeLimit * 2

structure WitnessObject where
  owner : WalletName
  created : TimePointSec := 0
  url : String := ""
  powWorker : Nat := 0
  signingKey : PublicKey := ⟨0⟩
  props : ChainProperties := {}
  runningVersion : Version := ⟨0⟩
  hardforkVersionVote : Version := ⟨0⟩
  hardforkTimeVote : TimePointSec := xgtGenesisTime

instance : Keyed WitnessObject where
  clash a b := a.owner = b.owner

structure TransactionObject where
  trxId : TransactionId
  expiration : TimePointSec

instance : Keyed TransactionObject where
  clash a b := a.trxId = b.trxId

structure EscrowObject where
  escrowId : Nat := 20
  fromWallet : WalletName
  toWallet : WalletName
  agent : WalletName
  ratificationDeadline : TimePointSec
  escrowExpiration : TimePointSec
  xgtBalance : Asset
  pendingFee : Asset
  toApproved : Bool := false
  agentApproved : Bool := false
  disputed : Bool := false

instance : Keyed EscrowObject where
  clash a b := a.fromWallet = b.fromWallet && a.escrowId = b.escrowId

structure ContractObject where
  owner : WalletName
  contractHash : ContractHash := ⟨0⟩
  code : List UInt8

instance : Keyed ContractObject where
  clash a b := a.owner = b.owner || a.contractHash = b.contractHash

def cStr (s : String) : List Char := s.toList.takeWhile (· ≠ Char.ofNat 0)

structure CommentObject where
  category : String := ""
  parentAuthor : WalletName := ""
  parentPermlink : String := ""
  author : WalletName
  permlink : String
  lastUpdate : TimePointSec
  created : TimePointSec
  active : TimePointSec
  depth : Nat := 0
  children : Nat := 0
  rootComment : Nat
  allowReplies : Bool := true
  allowVotes : Bool := true

instance : Keyed CommentObject where
  clash a b := a.author = b.author && cStr a.permlink = cStr b.permlink

structure CommentContentObject where
  comment : Nat
  title : String
  body : String
  jsonMetadata : String

instance : Keyed CommentContentObject where
  clash a b := a.comment = b.comment

inductive XttPhase where
  | setup
  | setupCompleted
  | ico
  | icoCompleted
  | launchFailed
  | launchSuccess
  deriving DecidableEq, Repr

def XttPhase.rank : XttPhase → Nat
  | .setup => 0
  | .setupCompleted => 1
  | .ico => 2
  | .icoCompleted => 3
  | .launchFailed => 4
  | .launchSuccess => 5

structure XttTokenObject where
  liquidSymbol : AssetSymbol
  controlAccount : WalletName
  desiredTicker : String
  phase : XttPhase := .setup
  currentSupply : Int := 0
  allowVoting : Bool := true
  reverseAuctionWindowSeconds : Nat := 60 * 5
  voteRegenerationPeriodSeconds : Nat := 60 * 60 * 24
  votesPerRegenerationPeriod : Nat := 50
  allowDownvotes : Bool := true
  maxSupply : Int := 0

instance : Keyed XttTokenObject where
  clash a b := a.liquidSymbol = b.liquidSymbol

structure XttIcoObject where
  symbol : AssetSymbol
  contributionBeginTime : TimePointSec
  contributionEndTime : TimePointSec
  launchTime : TimePointSec
  xgtUnitsMin : Int
  minUnitRatio : Nat
  maxUnitRatio : Nat
  contributed : Asset := .xgt 0

instance : Keyed XttIcoObject where
  clash a b := a.symbol = b.symbol

structure XttIcoTierObject where
  symbol : AssetSymbol
  xgtUnitsCap : Int
  generationUnit : XttGenerationUnit

instance : Keyed XttIcoTierObject where
  clash a b := a.symbol = b.symbol && a.xgtUnitsCap = b.xgtUnitsCap

structure XttContributionObject where
  symbol : AssetSymbol
  contributor : WalletName
  contributionId : Nat
  contribution : Asset

instance : Keyed XttContributionObject where
  clash a b := a.symbol = b.symbol && a.contributor = b.contributor && a.contributionId = b.contributionId

structure AccountRegularBalanceObject where
  name : WalletName
  liquid : Asset

instance : Keyed AccountRegularBalanceObject where
  clash a b := a.name = b.name && a.liquid.symbol = b.liquid.symbol

structure PendingRequiredActionObject where
  action : RequiredAutomatedAction
  executionTime : TimePointSec

instance : Keyed PendingRequiredActionObject where
  clash _ _ := false

structure NaiPoolObject where
  numAvailableNais : Nat := 0
  attemptsPerBlock : Nat := 0
  collisionsPerBlock : Nat := 0
  lastBlockId : BlockId := .zero
  nais : List AssetSymbol := List.replicate 10 ⟨0⟩

/-- The digits of an identifier that a token can have: eight at most, and not those of XGT. -/
structure Nai where
  digits : Nat
  inRange : 1 ≤ digits ∧ digits ≤ 99999999
  notXgt : digits ≠ 2

def Nai.symbol (n : Nai) : AssetSymbol := ⟨n.digits * 32 + 16⟩

def xgtMiningTargetStart : Sha256 := 0x000000ffff <<< 216

structure DynamicGlobalPropertyObject where
  headBlockNumber : Nat := 0
  headBlockId : BlockId := .zero
  time : TimePointSec
  miningTarget : Sha256
  totalPow : Nat := 2 ^ 64 - 1
  numPowWitnesses : Nat := 0
  currentSupply : Asset := .xgt 0
  maximumBlockSize : Nat := 0
  lastIrreversibleBlockNum : Nat := 0
  xttCreationFee : Asset := .xgt 1000

structure HardforkPropertyObject where
  processedHardforks : List TimePointSec
  lastHardfork : Nat := 0
  currentHardforkVersion : Version := ⟨0⟩
  nextHardfork : Version := ⟨0⟩
  nextHardforkTime : TimePointSec := 0

structure Objects where
  wallets : ObjectIndex WalletObject := .empty
  authorities : ObjectIndex AccountAuthorityObject := .empty
  metadata : ObjectIndex AccountMetadataObject := .empty
  recoveryHistory : ObjectIndex RecoveryAuthorityHistoryObject := .empty
  witnesses : ObjectIndex WitnessObject := .empty
  transactions : ObjectIndex TransactionObject := .empty
  escrows : ObjectIndex EscrowObject := .empty
  contracts : ObjectIndex ContractObject := .empty
  comments : ObjectIndex CommentObject := .empty
  commentContents : ObjectIndex CommentContentObject := .empty
  xttTokens : ObjectIndex XttTokenObject := .empty
  xttIcos : ObjectIndex XttIcoObject := .empty
  xttIcoTiers : ObjectIndex XttIcoTierObject := .empty
  xttContributions : ObjectIndex XttContributionObject := .empty
  balances : ObjectIndex AccountRegularBalanceObject := .empty
  pendingRequiredActions : ObjectIndex PendingRequiredActionObject := .empty
  naiPool : NaiPoolObject := {}
  dgp : DynamicGlobalPropertyObject
  hardforks : HardforkPropertyObject
  blockSummaries : Nat → BlockId := fun _ => .zero

end Xgt
