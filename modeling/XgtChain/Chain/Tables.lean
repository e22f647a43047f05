import XgtChain.Chain.Calls
import XgtChain.Chain.Genesis
import XgtChain.Chainbase.Database

/-!
# The indexes of the chain's objects

The database has one index for each kind of object, in the order in which they are added (`TableName`).
-/

namespace Xgt

open Base Chainbase List

/-! ## Tables -/

namespace TableName

def indexList : List TableName :=
  [dynamicGlobalProperty, wallet, accountMetadata, accountAuthority, witness, transaction,
    blockSummary, comment, commentContent, hardforkProperty, recoveryAuthorityHistory, escrow,
    pendingRequiredAction, xttToken, accountRegularBalance, naiPool, xttContribution, xttIco,
    xttIcoTier, contract]

theorem nodup_indexList : indexList.Nodup := by decide

theorem mem_indexList (t : TableName) : t ∈ indexList := by
  cases t <;> decide

end TableName

structure BlockSummaryObject where
  blockId : BlockId

instance : Keyed BlockSummaryObject where
  clash _ _ := false

instance : Keyed DynamicGlobalPropertyObject where
  clash _ _ := false

instance : Keyed HardforkPropertyObject where
  clash _ _ := false

instance : Keyed NaiPoolObject where
  clash _ _ := false

abbrev Row : TableName → Type
  | .dynamicGlobalProperty => DynamicGlobalPropertyObject
  | .wallet => WalletObject
  | .accountMetadata => AccountMetadataObject
  | .accountAuthority => AccountAuthorityObject
  | .witness => WitnessObject
  | .transaction => TransactionObject
  | .blockSummary => BlockSummaryObject
  | .comment => CommentObject
  | .commentContent => CommentContentObject
  | .hardforkProperty => HardforkPropertyObject
  | .recoveryAuthorityHistory => RecoveryAuthorityHistoryObject
  | .escrow => EscrowObject
  | .pendingRequiredAction => PendingRequiredActionObject
  | .xttToken => XttTokenObject
  | .accountRegularBalance => AccountRegularBalanceObject
  | .naiPool => NaiPoolObject
  | .xttContribution => XttContributionObject
  | .xttIco => XttIcoObject
  | .xttIcoTier => XttIcoTierObject
  | .contract => ContractObject

instance (t : TableName) : Keyed (Row t) := by
  cases t <;> dsimp only [Row] <;> infer_instance

def single {α : Type} (a : α) : ObjectIndex α where
  nextId := 1
  rows := [(0, a)]
  sorted := pairwise_singleton _ _
  fresh := by simp

@[irreducible] def blockSummaryCount : Nat := 0x10000

def summaries (f : Nat → BlockId) : ObjectIndex BlockSummaryObject where
  nextId := blockSummaryCount
  rows := (List.range blockSummaryCount).map fun i => (i, ⟨f i⟩)
  sorted := pairwise_map.2 pairwise_lt_range
  fresh := by simp

def Objects.view (s : Objects) : (t : TableName) → ObjectIndex (Row t)
  | .dynamicGlobalProperty => single s.dgp
  | .wallet => s.wallets
  | .accountMetadata => s.metadata
  | .accountAuthority => s.authorities
  | .witness => s.witnesses
  | .transaction => s.transactions
  | .blockSummary => summaries s.blockSummaries
  | .comment => s.comments
  | .commentContent => s.commentContents
  | .hardforkProperty => single s.hardforks
  | .recoveryAuthorityHistory => s.recoveryHistory
  | .escrow => s.escrows
  | .pendingRequiredAction => s.pendingRequiredActions
  | .xttToken => s.xttTokens
  | .accountRegularBalance => s.balances
  | .naiPool => single s.naiPool
  | .xttContribution => s.xttContributions
  | .xttIco => s.xttIcos
  | .xttIcoTier => s.xttIcoTiers
  | .contract => s.contracts

open Objects

/-! ## Calls -/

abbrev Indexes := Chainbase.Database Row

namespace Indexes

def modifyRow (D : Indexes) (t : TableName) (id : Nat) (f : Row t → Row t) : Indexes :=
  match (D t).find? id with
  | none => D
  | some old => D.call t (.modify id old (f old))

end Indexes

def Call.onIndexes (D : Indexes) : Call → Indexes
  | .wallet c => D.call .wallet c
  | .authority c => D.call .accountAuthority c
  | .metadata c => D.call .accountMetadata c
  | .recoveryHistory c => D.call .recoveryAuthorityHistory c
  | .witness c => D.call .witness c
  | .transaction c => D.call .transaction c
  | .escrow c => D.call .escrow c
  | .contract c => D.call .contract c
  | .comment c => D.call .comment c
  | .commentContent c => D.call .commentContent c
  | .xttToken c => D.call .xttToken c
  | .xttIco c => D.call .xttIco c
  | .xttIcoTier c => D.call .xttIcoTier c
  | .xttContribution c => D.call .xttContribution c
  | .balance c => D.call .accountRegularBalance c
  | .pendingRequiredAction c => D.call .pendingRequiredAction c
  | .naiPool p => D.modifyRow .naiPool 0 fun _ => p
  | .dgp f => D.modifyRow .dynamicGlobalProperty 0 f
  | .blockSummary i id => D.modifyRow .blockSummary i fun _ => ⟨id⟩

def Indexes.calls (D : Indexes) (cs : List Call) : Indexes := cs.foldl Call.onIndexes D

section Mirrors

variable {D : Indexes} {u : UndoStack Objects} {s : Objects} {t : TableName} {r : ObjectIndex (Row t)}
  {f : Nat → BlockId} (key : PublicKey) (id : BlockId)

theorem view_eq_update {s' : Objects} (ht : s'.view t = r)
    (hother : ∀ t', t' ≠ t → s'.view t' = s.view t') : s'.view = Function.update s.view t r :=
  Function.eq_update_iff.2 ⟨ht, hother⟩

theorem mirrors_modifyRow {id : Nat} {old : Row t} {f : Row t → Row t}
    (h : Mirrors view D u) (hc : (RowCall.modify id old (f old)).Runs (u.state.view t) r)
    (hview : s.view = Function.update u.state.view t r) :
    Mirrors view (D.modifyRow t id f) (u.set s) := by
  have hrow : (id, old) ∈ (u.state.view t).rows := by
    cases hc with
    | modify hrow => exact hrow
  have hfind : (D t).find? id = some old := by
    rw [(h.refines t).table]
    exact Table.find?_ofIndex.2 hrow
  unfold Indexes.modifyRow
  rw [hfind]
  exact h.call hc hview

theorem runs_single {α : Type} [Keyed α] (a b : α) (hkeys : SameKeys b a) :
    (RowCall.modify 0 a b).Runs (single a) (single b) := by
  refine .modify (.head _) ?_ hkeys
  rfl

theorem runs_summaries {i : Nat} (hi : i < blockSummaryCount) :
    (RowCall.modify i ⟨f i⟩ ⟨id⟩).Runs (summaries f) (summaries fun j => if j = i then id else f j) := by
  refine .modify (mem_map.2 ⟨i, mem_range.2 hi, rfl⟩) ?_ fun _ => rfl
  have hfree : ((summaries f).rows.any fun r => r.1 ≠ i && Keyed.clash ⟨id⟩ r.2) = false := by
    simp [Keyed.clash]
  have hset : (summaries f).set i ⟨id⟩ = summaries fun j => if j = i then id else f j := by
    refine ObjectIndex.ext rfl ?_
    change ((List.range _).map _).map _ = (List.range _).map _
    rw [map_map]
    refine map_congr_left fun j _ => ?_
    by_cases hj : j = i <;> simp [ObjectIndex.setRow, hj]
  rw [ObjectIndex.modify?, hfree, hset]
  rfl

theorem summaries_of_le {i : Nat} (hi : blockSummaryCount ≤ i) :
    summaries (fun j => if j = i then id else f j) = summaries f := by
  refine ObjectIndex.ext rfl (map_congr_left fun j hj => ?_)
  have hne : j ≠ i := fun heq => hi.not_gt (heq ▸ mem_range.1 hj)
  simp only [if_neg hne]

theorem mirrors_call {c : Call} (h : Mirrors view D u) (hc : c.Runs u.state s) :
    Mirrors view (c.onIndexes D) (u.set s) := by
  cases hc
  case naiPool p =>
    refine mirrors_modifyRow h (runs_single u.state.naiPool p fun _ => rfl) (view_eq_update rfl fun t ht => ?_)
    cases t <;> first | rfl | exact absurd rfl ht
  case dgp f =>
    refine mirrors_modifyRow h (runs_single u.state.dgp (f u.state.dgp) fun _ => rfl)
      (view_eq_update rfl fun t ht => ?_)
    cases t <;> first | rfl | exact absurd rfl ht
  case blockSummary i id =>
    by_cases hi : i < blockSummaryCount
    · refine mirrors_modifyRow h (runs_summaries id hi) (view_eq_update rfl fun t ht => ?_)
      cases t <;> first | rfl | exact absurd rfl ht
    · have hnone : (D .blockSummary).find? i = none := by
        rw [(h.refines .blockSummary).table]
        refine Option.eq_none_iff_forall_ne_some.2 fun v hv => ?_
        exact hi ((u.state.view .blockSummary).fresh _ (Table.find?_ofIndex.1 hv))
      have hsame := summaries_of_le (f := u.state.blockSummaries) id (Nat.le_of_not_lt hi)
      rw [Call.onIndexes, Indexes.modifyRow, hnone]
      refine h.of_view_eq (funext fun t => ?_)
      cases t <;> first | rfl | exact hsame
  all_goals
    next hc =>
    refine Mirrors.call h hc (view_eq_update rfl fun t ht => ?_)
    cases t <;> first | rfl | exact absurd rfl ht

theorem mirrors_calls {cs : List Call} (h : Mirrors view D u) (hcs : Trace u.state cs s) :
    Mirrors view (D.calls cs) (u.set s) := by
  generalize hstate : u.state = s0 at hcs
  induction hcs generalizing D u with
  | nil =>
    subst hstate
    exact h
  | call hc =>
    subst hstate
    exact mirrors_call h hc
  | append _ _ ih ih' =>
    have hfirst := ih h hstate
    have hsecond := ih' hfirst rfl
    rw [Indexes.calls, foldl_append]
    exact hsecond

def Indexes.ofObjects (s : Objects) (revision : Nat) : Indexes := fun t =>
  ⟨.ofIndex (s.view t), [], revision⟩

theorem genesis_unique (t : TableName) :
    ∀ r ∈ ((genesis key).view t).rows, ∀ r' ∈ ((genesis key).view t).rows, r.1 ≠ r'.1 →
      Keyed.clash r.2 r'.2 = false := by
  have hsingle {α : Type} [Keyed α] (a : α) : ∀ r ∈ (single a).rows, ∀ r' ∈ (single a).rows,
      r.1 ≠ r'.1 → Keyed.clash r.2 r'.2 = false := by
    intro r hr r' hr' hne
    cases mem_singleton.1 hr
    cases mem_singleton.1 hr'
    exact absurd rfl hne
  cases t
  case wallet =>
    have hnames : ((genesis key).wallets.rows.map fun r => (r.1, r.2.name)) =
        [(0, xgtMinerWallet), (1, xgtInitMinerName), (2, xgtNullWallet), (3, xgtTreasuryWallet),
          (4, xgtTempWallet)] := rfl
    have hdistinct : ∀ p ∈ [(0, xgtMinerWallet), (1, xgtInitMinerName), (2, xgtNullWallet),
        (3, xgtTreasuryWallet), (4, xgtTempWallet)], ∀ q ∈ [(0, xgtMinerWallet),
        (1, xgtInitMinerName), (2, xgtNullWallet), (3, xgtTreasuryWallet), (4, xgtTempWallet)],
        p.1 ≠ q.1 → p.2 ≠ q.2 := by decide
    rw [← hnames] at hdistinct
    intro r hr r' hr' hne
    exact decide_eq_false (hdistinct _ (mem_map_of_mem hr) _ (mem_map_of_mem hr') hne)
  all_goals first
    | exact hsingle _
    | exact fun _ hr => absurd hr not_mem_nil
    | exact fun _ _ _ _ _ => rfl

theorem mirrors_genesis :
    Mirrors view (Indexes.ofObjects (genesis key) 0) ⟨genesis key, 0, []⟩ where
  refines t := .init (Table.legal_ofIndex (genesis_unique key t)) 0
  aged := isChain_singleton _

end Mirrors

end Xgt
