import XgtChain.Chain.PushBlock
import XgtChain.Chain.TransactionTable

/-!
# No transaction is applied twice

A transaction is refused while its row is in the table of known transactions, and after its expiration.
-/

namespace Xgt

open Base Objects List ChainPart ObjectIndex

variable (blocks : List SignedBlock)

def chainTransactions : List SignedTransaction :=
  blocks.flatMap fun b => b.transactions

/-- No block is older than its parent. -/
def TimesForward : Prop :=
  blocks.IsChain fun b b' => b.timestamp ≤ b'.timestamp

section Invariant

variable (cr : Crypto)

/-- Transactions with one id expire at one time. -/
def IdsTellExpirations : Prop :=
  ∀ t t' : Transaction, cr.transactionId t = cr.transactionId t' → t.expiration = t'.expiration

def knownAs (t : SignedTransaction) : TransactionObject :=
  { trxId := cr.transactionId t.toTransaction, expiration := t.expiration }

structure Remembers (applied : List SignedTransaction) (s : Objects) : Prop where
  nodup : (applied.map fun t => cr.transactionId t.toTransaction).Nodup
  known : ∀ t ∈ applied, knownAs cr t ∈ s.transactions.objects ∨
    0 < s.headBlockNum ∧ t.expiration < s.headBlockTime

end Invariant

variable {P : Params} {cr : Crypto} {env : Env} {s s' : Objects} {t : SignedTransaction}
  {b : SignedBlock} {applied : List SignedTransaction}
variable {blocks}

theorem Remembers.of_same (h : Remembers cr applied s) (htable : s'.transactions = s.transactions)
    (hchain : s'.chainPart = s.chainPart) : Remembers cr applied s' := by
  refine ⟨h.nodup, fun t ht => ?_⟩
  have hnum : s'.headBlockNum = s.headBlockNum := congrArg headBlockNumber hchain
  have htime : s'.headBlockTime = s.headBlockTime := congrArg time hchain
  rw [htable, hnum, htime]
  exact h.known t ht

section

variable (hids : IdsTellExpirations cr) (h : Remembers cr applied s) (hskip : env.skip = skipNothing)
include hids h hskip

theorem Remembers.fresh (hok : s.applyTransaction cr t env = .ok s') :
    cr.transactionId t.toTransaction ∉ applied.map fun t => cr.transactionId t.toTransaction := by
  obtain ⟨-, hknown, -, hexpiration, -⟩ := applyTransaction_ok hskip hok
  intro hmem
  obtain ⟨a, ha, hid⟩ := mem_map.1 hmem
  rcases h.known a ha with hrow | ⟨hnum, hexpired⟩
  · have hnone : s.transactions.find? (fun o => o.trxId = cr.transactionId t.toTransaction) = none :=
      Option.isSome_eq_false_iff.1 hknown |> Option.isNone_iff_eq_none.1
    exact of_decide_eq_false (find?_eq_none.1 hnone _ hrow) hid
  · unfold Objects.checkExpiration at hexpiration
    rw [if_pos hnum] at hexpiration
    obtain ⟨_, -, hlive⟩ := of_bind hexpiration
    have hlt : s.headBlockTime < t.expiration := by simpa using hlive
    have hsame : a.expiration = t.expiration := hids _ _ hid
    exact Nat.lt_asymm hlt (hsame ▸ hexpired)

theorem Remembers.transaction
    (hok : s.applyTransaction cr t env = .ok s') : Remembers cr (applied ++ [t]) s' := by
  have hcreate := applyTransaction_recorded hok hskip
  have hchain := applyTransaction_chainPart hok
  have hnum : s'.headBlockNum = s.headBlockNum := congrArg headBlockNumber hchain
  have htime : s'.headBlockTime = s.headBlockTime := congrArg time hchain
  refine ⟨?_, fun a ha => ?_⟩
  · rw [map_append, nodup_append]
    refine ⟨h.nodup, nodup_singleton _, ?_⟩
    rintro i hi j hj rfl
    cases mem_singleton.1 hj
    exact h.fresh hids hskip hok hi
  · rcases mem_append.1 ha with ha | ha
    · rw [hnum, htime]
      exact (h.known a ha).imp_left fun hrow => (mem_create? hcreate).2 (.inl hrow)
    · rw [mem_singleton.1 ha]
      exact .inl ((mem_create? hcreate).2 (.inr rfl))

theorem Remembers.transactions {txs : List SignedTransaction}
    (hok : s.applyTransactions cr env txs = .ok s') : Remembers cr (applied ++ txs) s' := by
  induction txs generalizing s applied with
  | nil =>
    cases hok
    rwa [append_nil]
  | cons t txs ih =>
    obtain ⟨u, hu, hrest⟩ := foldlM_cons_ok_iff.1 hok
    have hnext := ih (h.transaction hids hskip hu) hrest
    rwa [append_assoc] at hnext

end

theorem Remembers.block (hids : IdsTellExpirations P.toCrypto)
    (h : Remembers P.toCrypto applied s) (hskip : env.skip = skipNothing) (hnum : 0 < b.blockNum)
    (htime : 0 < s.headBlockNum → s.headBlockTime ≤ b.timestamp)
    (hok : s.applyBlock P env b = .ok s') : Remembers P.toCrypto (applied ++ b.transactions) s' := by
  obtain ⟨s1, s2, hheader, -, htxs, hfinish⟩ := applyBlock_ok hok
  have hs1 := h.of_same (transactions_of_ok (processHeaderExtensions_blind b _ _) hheader)
    (congrArg Prod.fst (processHeaderExtensions_frame hheader))
  have hs2 := hs1.transactions hids hskip htxs
  have hchain : s2.chainPart = s.chainPart := applyBlock_chainPart hheader htxs
  have hhead : s'.headBlockNum = b.blockNum := congrArg Prod.fst (applyBlock_tip hok)
  refine ⟨hs2.nodup, fun t ht => ?_⟩
  rw [hhead, applyBlock_time hok, finishBlock_transactions hfinish]
  rcases hs2.known t ht with hrow | ⟨hpos, hexpired⟩
  · by_cases hpassed : t.expiration < b.timestamp
    · exact .inr ⟨hnum, hpassed⟩
    · exact .inl (mem_removeIf.2 ⟨hrow, decide_eq_false hpassed⟩)
  · have hpos' : 0 < s.headBlockNum := by
      rwa [show s2.headBlockNum = s.headBlockNum from congrArg headBlockNumber hchain] at hpos
    have hexpired' : t.expiration < s.headBlockTime := by
      rwa [show s2.headBlockTime = s.headBlockTime from congrArg time hchain] at hexpired
    exact .inr ⟨hnum, hexpired'.trans_le (htime hpos')⟩

theorem AcceptedChain.headBlockTime {b : SignedBlock} (h : AcceptedChain P blocks s)
    (hlast : blocks.getLast? = some b) : s.headBlockTime = b.timestamp := by
  cases h with
  | genesis => cases hlast
  | block _ _ _ hb =>
    rw [getLast?_concat] at hlast
    cases hlast
    exact applyBlock_time hb

theorem AcceptedChain.headBlockNum_pos (h : AcceptedChain P blocks s)
    (hpos : 0 < s.headBlockNum) : ∃ b, blocks.getLast? = some b := by
  cases h with
  | genesis => exact absurd hpos (Nat.lt_irrefl 0)
  | block => exact ⟨_, getLast?_concat⟩

theorem AcceptedChain.remembers (hids : IdsTellExpirations P.toCrypto) (h : AcceptedChain P blocks s)
    (htimes : TimesForward blocks) : Remembers P.toCrypto (chainTransactions blocks) s := by
  induction h with
  | genesis => exact ⟨nodup_nil, by simp [chainTransactions]⟩
  | @block blocks s s' env b hchain hskip hnum hb ih =>
    obtain ⟨hfirst, -, hlink⟩ := isChain_append.1 htimes
    rw [chainTransactions, flatMap_append, flatMap_singleton]
    refine (ih hfirst).block hids hskip hnum (fun hpos => ?_) hb
    obtain ⟨c, hc⟩ := hchain.headBlockNum_pos hpos
    rw [hchain.headBlockTime hc]
    exact hlink c hc b rfl

theorem acceptedChain_nodup (hids : IdsTellExpirations P.toCrypto)
    {blocks : List SignedBlock} (h : AcceptedChain P blocks s) (htimes : TimesForward blocks) :
    ((chainTransactions blocks).map fun t => P.transactionId t.toTransaction).Nodup :=
  (h.remembers hids htimes).nodup

def stampParams : Params := { toyParams with transactionId := fun t => ⟨t.expiration⟩ }

def stampedPayment (seconds : Nat) : SignedTransaction :=
  toyTransaction 0 [.transfer toyTransfer] [1] (xgtGenesisTime + seconds)

def stampedChain (parent : BlockId) : List (Nat × List SignedTransaction) → List SignedBlock
  | [] => []
  | (seconds, txs) :: rest =>
    let b := toyBlock parent seconds txs
    b :: stampedChain (toyId b) rest

theorem stampedChain_nodup :
    ∃ s, AcceptedChain stampParams
        (stampedChain .zero [(3, [stampedPayment 60]), (100, []), (103, [stampedPayment 160])]) s ∧
      ((chainTransactions (stampedChain .zero
        [(3, [stampedPayment 60]), (100, []), (103, [stampedPayment 160])])).map
          fun t => stampParams.transactionId t.toTransaction).Nodup := by
  have hrun : (runBlocks stampParams toyEnv (stampedChain .zero
      [(3, [stampedPayment 60]), (100, []), (103, [stampedPayment 160])])).toOption.any
        (fun _ => true) = true := by decide +kernel
  obtain ⟨s, hs, -⟩ := exists_ok_of_any hrun
  have hchain := acceptedChain_of_runBlocks rfl (by decide) hs
  refine ⟨s, hchain, acceptedChain_nodup (fun t t' hid => ?_) hchain ?_⟩
  · exact congrArg TransactionId.data hid
  · simp [stampedChain, TimesForward, toyBlock]

theorem backdated_applies_twice :
    ∃ (blocks : List SignedBlock) (t : SignedTransaction) (s : Objects),
      AcceptedChain stampParams blocks s ∧ chainTransactions blocks = [t, t] ∧
      ((Node.init stampParams).pushBlocks blocks).objects.headBlockNum = blocks.length ∧
      ¬((chainTransactions blocks).map fun t => stampParams.transactionId t.toTransaction).Nodup := by
  let t := stampedPayment 60
  let blocks := stampedChain .zero [(3, [t]), (100, []), (4, []), (5, [t])]
  have hrun : (runBlocks stampParams toyEnv blocks).toOption.any (fun _ => true) = true := by
    decide +kernel
  obtain ⟨s, hs, -⟩ := exists_ok_of_any hrun
  have htwice : chainTransactions blocks = [t, t] := rfl
  refine ⟨blocks, t, s, acceptedChain_of_runBlocks rfl (by decide) hs, htwice, by decide +kernel, ?_⟩
  rw [htwice]
  simp

end Xgt
