import Mathlib.Data.String.Basic
import Mathlib.Algebra.Ring.Int.Defs
import XgtChain.Base.Result
import XgtChain.Base.Flat

/-!
# Basic protocol types

The types that operations, transactions and blocks are made of, the constants of `config.hpp`, and the
exceptions that the modelled functions throw.
-/

namespace Xgt

open Base

inductive ExcKind where
  | assertException
  | txMissingMoneyAuth
  | txMissingRecoveryAuth
  | txMissingSocialAuth
  | txMissingOtherAuth
  | txDuplicateSig
  | operationValidate
  | transactionExpiration
  | undoDatabase
  | popEmptyChain
  | unlinkableBlock
  | blockTooOld
  | netUnlinkableBlock
  | netBlockOlderThanUndoHistory
  | overflow
  | unknownKey
  | notUnique
  | other
  deriving DecidableEq, Repr

structure Exc where
  kind : ExcKind
  what : String
  deriving DecidableEq, Repr

abbrev Result (α : Type) := Except Exc α

def fcAssert (c : Bool) (msg : String) : Result Unit := ensure c ⟨.assertException, msg⟩

variable {msg : String} (n : Int)

@[simp] theorem fcAssert_ok_iff {c : Bool} {u : Unit} :
    fcAssert c msg = .ok u ↔ c = true := ensure_ok_iff

theorem fcAssert_ok {p : Prop} [Decidable p] (h : p) :
    fcAssert (decide p) msg = .ok () := ensure_ok h

theorem of_fcAssert {p : Prop} [Decidable p] {u : Unit}
    (h : fcAssert (decide p) msg = .ok u) : p := of_ensure h

abbrev WalletName := String

structure PublicKey where
  data : Nat
  deriving DecidableEq, Repr

instance : LinearOrder PublicKey :=
  LinearOrder.lift' PublicKey.data fun a b h => by cases a; cases b; simp_all

structure Signature where
  data : Nat
  deriving DecidableEq, Repr

abbrev Sha256 := BitVec 256

structure BlockId where
  num : Nat
  hash : Nat
  deriving DecidableEq, Repr, Inhabited

def BlockId.zero : BlockId := ⟨0, 0⟩

def numFromId (id : BlockId) : Nat := id.num

structure TransactionId where
  data : Nat
  deriving DecidableEq, Repr

structure ContractHash where
  data : Nat
  deriving DecidableEq, Repr

abbrev TimePointSec := Nat

inductive Variant where
  | null
  | int64 (n : Int)
  | uint64 (n : Nat)
  | double
  | bool (b : Bool)
  | string (s : String)
  | array (l : List Variant)
  | object (fields : List (String × Variant))
  | blob

structure AssetSymbol where
  assetNum : Nat
  deriving DecidableEq, Repr

def xgtSymbol : AssetSymbol := ⟨(99999999 + 2) * 32 + 8⟩

structure Asset where
  amount : Int
  symbol : AssetSymbol
  deriving DecidableEq, Repr

def Asset.xgt : Asset := ⟨n, xgtSymbol⟩

def safeInt64 : Result Int :=
  if -2 ^ 63 ≤ n ∧ n < 2 ^ 63 then .ok n else .error ⟨.overflow, "Integer Overflow"⟩

def Asset.add (a b : Asset) : Result Asset := do
  fcAssert (a.symbol = b.symbol) "a.symbol == b.symbol"
  let n ← safeInt64 (a.amount + b.amount)
  pure ⟨n, a.symbol⟩

def Asset.sub (a b : Asset) : Result Asset := do
  fcAssert (a.symbol = b.symbol) "a.symbol == b.symbol"
  let n ← safeInt64 (a.amount - b.amount)
  pure ⟨n, a.symbol⟩

def Asset.ge (a b : Asset) : Result Bool := do
  fcAssert (a.symbol = b.symbol) "a.symbol == b.symbol"
  pure (b.amount ≤ a.amount)

def xgtInitMinerName : WalletName := "XGT0000000000000000000000000000000000000000"
def xgtMinerWallet : WalletName := "XGT0000000000000000000000000000000000000001"
def xgtNullWallet : WalletName := "XGT0000000000000000000000000000000000000002"
def xgtTempWallet : WalletName := "XGT0000000000000000000000000000000000000003"
def xgtTreasuryWallet : WalletName := "XGT0000000000000000000000000000000000000004"

def xgtGenesisTime : TimePointSec := 1586840015
def xgtMaxWitnesses : Nat := 10
def xgtMaxTimeUntilExpiration : Nat := 60 * 60
def xgtMaxUndoHistory : Nat := 151200
def xgtMaxBlockSize : Nat := 1024 * 64 * 5 * 2000
def xgtMinBlockSizeLimit : Nat := 1024 * 64
def xgtMaxShareSupply : Int := 1000000000000000
def xgtMaxAuthorityMembership : Nat := 40
def xgtMaxSigCheckDepth : Nat := 2
def xgtMaxSigCheckWallets : Nat := 125

end Xgt
