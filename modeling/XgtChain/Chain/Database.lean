import XgtChain.Chain.Objects

/-!
# Reading and writing the chain's objects

What a call reads besides the objects (`Env`), and the accessors of `database.cpp`.
-/

namespace Xgt

open Base

structure SkipFlags where
  skipWitnessSignature : Bool := false
  skipTransactionSignatures : Bool := false
  skipTransactionDupeCheck : Bool := false
  skipForkDb : Bool := false
  skipBlockSizeCheck : Bool := false
  skipTaposCheck : Bool := false
  skipAuthorityCheck : Bool := false
  skipMerkleCheck : Bool := false
  skipUndoHistoryCheck : Bool := false
  skipWitnessScheduleCheck : Bool := false
  skipValidate : Bool := false
  skipValidateInvariants : Bool := false
  skipUndoBlock : Bool := false
  skipBlockLog : Bool := false
  deriving DecidableEq

def skipNothing : SkipFlags := {}

structure RandomKeys where
  recovery : PublicKey
  money : PublicKey
  social : PublicKey
  memo : PublicKey

structure Params extends Crypto where
  initPublicKey : PublicKey
  nextTarget : Sha256 → Int → Sha256
  random : Nat → Nat → RandomKeys

structure Env where
  skip : SkipFlags
  producing : Bool
  pendingTx : Bool
  random : Nat → RandomKeys
  fetchBlockById : BlockId → Option SignedBlock
  fetchPriorBlock : Nat → Option SignedBlock

section Rows

variable {α : Type}

def getRow (r : Option (Nat × α)) : Result (Nat × α) :=
  match r with
  | some r => .ok r
  | none => .error ⟨.unknownKey, "unknown key"⟩

@[simp] theorem getRow_ok_iff {r : Option (Nat × α)} {x : Nat × α} : getRow r = .ok x ↔ r = some x := by
  cases r <;> simp [getRow]

variable [Keyed α]

def written (t : Option (ObjectIndex α)) : Result (ObjectIndex α) :=
  match t with
  | some t => .ok t
  | none => .error ⟨.notUnique,
      "could not insert object, most likely a uniqueness constraint was violated"⟩

omit [Keyed α] in
@[simp] theorem written_ok_iff {t : Option (ObjectIndex α)} {t' : ObjectIndex α} :
    written t = .ok t' ↔ t = some t' := by
  cases t <;> simp [written]

variable (t : ObjectIndex α)

def dbCreate (a : α) : Result (ObjectIndex α) := written (t.create? a)

def dbModify (id : Nat) (a : α) : Result (ObjectIndex α) :=
  written (t.modify? id a)

variable {t} {t' : ObjectIndex α}

theorem dbCreate_ok_iff {a : α} :
    dbCreate t a = .ok t' ↔ t.create? a = some t' := written_ok_iff

theorem dbModify_ok_iff {id : Nat} {a : α} :
    dbModify t id a = .ok t' ↔ t.modify? id a = some t' := written_ok_iff

end Rows

def AssetSymbol.isXtt (sym : AssetSymbol) : Bool := sym ≠ xgtSymbol

namespace Objects

variable (s : Objects) (name : WalletName) (sym : AssetSymbol) (delta : Asset) (seed : Nat)
  (author : WalletName) (permlink : String)

def headBlockNum : Nat := s.dgp.headBlockNumber

def lib : Nat := s.dgp.lastIrreversibleBlockNum

def headBlockId : BlockId := s.dgp.headBlockId

def headBlockTime : TimePointSec := s.dgp.time

def findAccount : Option (Nat × WalletObject) :=
  s.wallets.find? fun w => w.name = name

def getAccount : Result (Nat × WalletObject) := getRow (s.findAccount name)

def findAuthority : Option (Nat × AccountAuthorityObject) :=
  s.authorities.find? fun a => a.account = name

def getAuthority : Result (Nat × AccountAuthorityObject) :=
  getRow (s.findAuthority name)

def findWitness : Option (Nat × WitnessObject) :=
  s.witnesses.find? fun w => w.owner = name

def getWitness : Result (Nat × WitnessObject) := getRow (s.findWitness name)

def findComment : Option (Nat × CommentObject) :=
  s.comments.find? fun c => c.author = author && cStr c.permlink = cStr permlink

def getComment : Result (Nat × CommentObject) :=
  getRow (s.findComment author permlink)

def getEscrow (escrowId : Nat) : Result (Nat × EscrowObject) :=
  getRow (s.escrows.find? fun e => e.fromWallet = name && e.escrowId = escrowId)

def isKnownTransaction (id : TransactionId) : Bool :=
  (s.transactions.find? fun t => t.trxId = id).isSome

def getBalance : Result Asset :=
  if sym.isXtt then
    match s.balances.find? fun b => b.name = name && b.liquid.symbol = sym with
    | some r => .ok r.2.liquid
    | none => .ok ⟨0, sym⟩
  else do
    let w ← s.getAccount name
    pure w.2.balance

def adjustSupply : Result Objects :=
  if delta.symbol.isXtt then do
    let xtt ← getRow (s.xttTokens.find? fun t => t.liquidSymbol = delta.symbol)
    let supply ← safeInt64 (xtt.2.currentSupply + delta.amount)
    fcAssert (0 ≤ supply) "xtt_new_supply >= 0"
    let tokens ← dbModify s.xttTokens xtt.1 { xtt.2 with currentSupply := supply }
    pure { s with xttTokens := tokens }
  else pure s

def adjustXttBalance : Result Objects :=
  match s.balances.find? fun b => b.name = name && b.liquid.symbol = delta.symbol with
  | none => do
    fcAssert (0 ≤ delta.amount) "Insufficient XTT funds"
    if delta.amount = 0 then pure s
    else
      let balances ← dbCreate s.balances { name := name, liquid := delta }
      pure { s with balances := balances }
  | some b => do
    let liquid ← b.2.liquid.add delta
    fcAssert (0 ≤ liquid.amount) "Insufficient XTT funds"
    let balances ← dbModify s.balances b.1 { b.2 with liquid := liquid }
    pure { s with balances := balances }

def modifyBalance : Result Objects := do
  let w ← s.getAccount name
  let balance ← w.2.balance.add delta
  fcAssert (0 ≤ balance.amount) "Insufficient XGT funds"
  let wallets ← dbModify s.wallets w.1 { w.2 with balance := balance }
  pure { s with wallets := wallets }

def adjustBalance : Result Objects := do
  if delta.amount < 0 then
    let available ← s.getBalance name delta.symbol
    let required ← safeInt64 (-delta.amount)
    fcAssert (required ≤ available.amount)
      "Account does not have sufficient funds for balance adjustment."
  if delta.symbol.isXtt then
    if name = xgtNullWallet then
      let n ← safeInt64 (-delta.amount)
      s.adjustSupply ⟨n, delta.symbol⟩
    else s.adjustXttBalance name delta
  else s.modifyBalance name delta

def maxTarget : Sha256 := 0x00000ffff <<< 220

def getPowTarget : Sha256 :=
  if s.headBlockNum < 400000 then maxTarget
  else if s.headBlockNum < 907200 then 0x0000003fffc <<< 212
  else s.dgp.miningTarget

def getPowSummaryTarget : Nat := Sha256.approxLog32 s.getPowTarget

def miningReward (headNum : Nat) : Asset :=
  let halvings := headNum / 30150000 % 64
  let divisor : Int := if halvings = 63 then -2 ^ 63 else 2 ^ halvings
  .xgt (Int.fdiv 4166166 divisor)

def findTokenAgnostic : Result (Option (Nat × XttTokenObject)) := do
  let digits := sym.assetNum / 32
  fcAssert (1 ≤ digits ∧ digits ≤ 99999999) "NAI out of range"
  -- the identifier of XGT has eight decimal places, and the lookup asks for none
  fcAssert (digits ≠ 2) "decimal_places == XGT_PRECISION_XGT"
  let lowest := s.xttTokens.rows.foldl (fun (best : Option (Nat × XttTokenObject)) r =>
    if r.2.liquidSymbol.assetNum < digits * 32 + 16 then best
    else match best with
      | none => some r
      | some b => if r.2.liquidSymbol.assetNum < b.2.liquidSymbol.assetNum then some r else some b)
    none
  pure (lowest.filter fun r => r.2.liquidSymbol.assetNum / 32 = digits)

def naiHash : Nat :=
  [seed % 256, seed / 2 ^ 8 % 256, seed / 2 ^ 16 % 256, seed / 2 ^ 24 % 256].foldl
    (fun h byte => (byte ^^^ h) * 16777619 % 2 ^ 32) 2166136261

/-- What `asset_symbol_type::generate` makes of a seed. -/
def naiGenerator : Nai where
  digits := (naiHash seed % (99999999 + 1 - 10000000) + 10000000) / 2 * 2
  inRange := by omega
  notXgt := by omega

def naiGenerate : AssetSymbol := (naiGenerator seed).symbol

/-- The loop of `replenish_nai_pool`, with any generator. -/
def refillNaisWith (gen : Nat → Nai) (s : Objects) : Nat → NaiPoolObject → Result NaiPoolObject
  | 0, p => .ok p
  | fuel + 1, p =>
    if 10 ≤ p.numAvailableNais ∨ 100 ≤ p.collisionsPerBlock then .ok p
    else do
      let sym := (gen ((p.lastBlockId.hash % 2 ^ 32 + p.attemptsPerBlock) % 2 ^ 32)).symbol
      let token ← s.findTokenAgnostic sym
      let p := { p with attemptsPerBlock := p.attemptsPerBlock + 1 }
      if token.isNone ∧ (p.nais.take p.numAvailableNais).idxOf sym ≠ p.nais.length then
        s.refillNaisWith gen fuel { p with nais := p.nais.set p.numAvailableNais sym,
                                           numAvailableNais := p.numAvailableNais + 1 }
      else s.refillNaisWith gen fuel { p with collisionsPerBlock := p.collisionsPerBlock + 1 }

/-- The pool with the counters of a new block set back. -/
def currentNaiPool : NaiPoolObject :=
  if s.naiPool.lastBlockId ≠ s.headBlockId then
    { s.naiPool with lastBlockId := s.headBlockId, collisionsPerBlock := 0, attemptsPerBlock := 0 }
  else s.naiPool

def replenishNaiPoolWith (gen : Nat → Nai) : Result Objects :=
  if s.currentNaiPool.collisionsPerBlock < 100 then do
    let p ← s.refillNaisWith gen 110 s.currentNaiPool
    pure { s with naiPool := p }
  else pure s

def replenishNaiPool : Result Objects := s.replenishNaiPoolWith naiGenerator

def strippedSymbol : AssetSymbol := ⟨sym.assetNum / 16 * 16⟩

def naiPoolContains : Bool :=
  (s.naiPool.nais.take s.naiPool.numAvailableNais).contains (strippedSymbol sym)

def removeFromNaiPool : Objects :=
  let p := s.naiPool
  let index := (p.nais.take p.numAvailableNais).idxOf (strippedSymbol sym)
  if index < p.numAvailableNais then
    let last := p.numAvailableNais - 1
    let nais := (p.nais.set index ⟨0⟩)
    let nais := (nais.set index (nais.getD last ⟨0⟩)).set last (nais.getD index ⟨0⟩)
    { s with naiPool := { p with nais := nais, numAvailableNais := last } }
  else s

end Objects

end Xgt
