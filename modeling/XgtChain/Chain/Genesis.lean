import XgtChain.Chain.Evaluators

/-!
# The genesis state

`init_genesis`, and a concrete choice of the parameters (`toyParams`) under which the closed examples of
this development are computed.
-/

namespace Xgt

open Base

def xgtInitSupply : Int := 1872936875000000

def genesis (initPublicKey : PublicKey) : Objects where
  wallets := .ofList
    [{ name := xgtMinerWallet },
     { name := xgtInitMinerName, memoKey := initPublicKey, balance := .xgt xgtInitSupply },
     { name := xgtNullWallet },
     { name := xgtTreasuryWallet },
     { name := xgtTempWallet }]
  authorities := .ofList
    [{ account := xgtMinerWallet, recovery := { Authority.default with weightThreshold := 1 },
       money := { Authority.default with weightThreshold := 1 } },
     { account := xgtInitMinerName, recovery := .ofKey 1 initPublicKey 1,
       money := .ofKey 1 initPublicKey 1, social := .ofKey 1 initPublicKey 1 },
     { account := xgtNullWallet, recovery := { Authority.default with weightThreshold := 1 },
       money := { Authority.default with weightThreshold := 1 } },
     { account := xgtTempWallet }]
  witnesses := .ofList [{ owner := xgtInitMinerName, signingKey := initPublicKey }]
  dgp := { time := xgtGenesisTime, miningTarget := xgtMiningTargetStart,
           currentSupply := .xgt xgtInitSupply, maximumBlockSize := xgtMaxBlockSize }
  hardforks := { processedHardforks := [xgtGenesisTime] }

def toyParams : Params where
  hashKeys keys := BitVec.ofNat 256 (keys.foldl (fun h k => h * 1000 + k.data + 1) 0)
  hashPowInput input := BitVec.ofNat 256 input.nonce
  hashSha256 d := d
  powSummaryOf _ := 0
  headerHash h := h.timestamp * 1000 + h.witnessSignature.data
  headerDigest h := BitVec.ofNat 256 h.timestamp
  sigDigest t := BitVec.ofNat 256 t.expiration
  transactionId t := ⟨t.expiration * 1000 + t.refBlockNum⟩
  merkleDigest t := BitVec.ofNat 256 (t.expiration * 1000 + t.refBlockNum)
  hashPair a b := a + b
  checksum d := ⟨d.toNat⟩
  recoverKey sig _ := some ⟨sig.data⟩
  isCanonical _ _ := true
  packSize b := 100 + 100 * b.transactions.length
  transactionSize _ := 100
  isUtf8 _ := true
  jsonIsValid _ := true
  initPublicKey := ⟨1⟩
  nextTarget target _ := target
  random _ _ := ⟨⟨900⟩, ⟨901⟩, ⟨902⟩, ⟨903⟩⟩

def toyEnv : Env where
  skip := skipNothing
  producing := false
  pendingTx := false
  random := toyParams.random 0
  fetchBlockById _ := none
  fetchPriorBlock _ := none

def toyCreate (recoveryKey moneyKey : Nat) : WalletCreateOperation where
  fee := .xgt 0
  creator := xgtTempWallet
  newWalletName := ""
  recovery := .ofKey 1 ⟨recoveryKey⟩ 1
  money := .ofKey 1 ⟨moneyKey⟩ 1
  social := .ofKey 1 ⟨moneyKey⟩ 1
  memoKey := ⟨moneyKey⟩
  jsonMetadata := ""

def toyUpdate (wallet : WalletName) (moneyKey : Nat) : WalletUpdateOperation where
  wallet := wallet
  recovery := none
  money := some (.ofKey 1 ⟨moneyKey⟩ 1)
  social := none
  memoKey := none
  jsonMetadata := ""
  socialJsonMetadata := ""

def toyTransfer : TransferOperation where
  fromWallet := xgtInitMinerName
  toWallet := xgtTempWallet
  amount := .xgt 1
  memo := ""

def toyPow (hashed prevBlock : BlockId) : PowOperation where
  work := .sha2Pow { input := ⟨xgtInitMinerName, hashed, 0⟩, proof := 0, prevBlock := prevBlock }
  newRecoveryKey := none
  props := {}

def toyTransaction (n : Nat) (ops : List Operation) (keys : List Nat)
    (expiration : TimePointSec := xgtGenesisTime + 60) : SignedTransaction where
  refBlockNum := n
  expiration := expiration
  operations := ops
  signatures := keys.map Signature.mk

end Xgt
