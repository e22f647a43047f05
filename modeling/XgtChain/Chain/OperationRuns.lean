import XgtChain.Chain.ApplyBlock

/-!
# Runs of operations

An `OperationRun` is a sequence of accepted operations, each with the state that it is applied to.
-/

namespace Xgt

open Base ObjectIndex List

/-- An operation, with the objects it is applied to. -/
abbrev OpStep := Objects × Operation

namespace Objects

def operationSteps (cr : Crypto) (env : Env) : Objects → List Operation → List OpStep
  | _, [] => []
  | s, op :: ops => (s, op) :: match s.applyOperation cr env op with
    | .ok s' => operationSteps cr env s' ops
    | .error _ => []

def transactionSteps (cr : Crypto) (env : Env) :
    Objects → List SignedTransaction → List OpStep
  | _, [] => []
  | s, t :: txs => (match s.recordTransaction cr t env with
      | .ok u => operationSteps cr env u t.operations
      | .error _ => []) ++
    match s.applyTransaction cr t env with
    | .ok s' => transactionSteps cr env s' txs
    | .error _ => []

def blockSteps (P : Params) (env : Env) (s : Objects) (b : SignedBlock) : List OpStep :=
  match s.processHeaderExtensions b with
  | .ok s1 => transactionSteps P.toCrypto env s1 b.transactions
  | .error _ => []

end Objects

open Objects

/-- A run of operations that satisfy `V`, with the bookkeeping of the blocks between them. -/
inductive OperationRun (cr : Crypto) (V : Operation → Prop) : Objects → List OpStep → Objects → Prop where
  | nil {s : Objects} : OperationRun cr V s [] s
  | operation {s0 s s' : Objects} {steps : List OpStep} {env : Env} {op : Operation}
      (h : OperationRun cr V s0 steps s) (hv : V op) (hop : s.applyOperation cr env op = .ok s') :
      OperationRun cr V s0 (steps ++ [(s, op)]) s'
  | other {s0 s s' : Objects} {steps : List OpStep} (h : OperationRun cr V s0 steps s)
      (hother : Does Call.Outside s s') : OperationRun cr V s0 steps s'

namespace OperationRun

variable {cr : Crypto} {V : Operation → Prop} {s0 s s' s'' : Objects}
  {steps steps' : List OpStep}

theorem trans (h : OperationRun cr V s steps s') (h' : OperationRun cr V s' steps' s'') :
    OperationRun cr V s (steps ++ steps') s'' := by
  induction h' with
  | nil => rwa [append_nil]
  | operation _ hv hop ih =>
    rw [← append_assoc]
    exact .operation ih hv hop
  | other _ hother ih => exact .other ih hother

theorem invariant {I : Objects → Prop} (h : OperationRun cr V s0 steps s) (h0 : I s0)
    (operation : ∀ {s s' : Objects} {env : Env} {op : Operation}, (s, op) ∈ steps → I s → V op →
      s.applyOperation cr env op = .ok s' → I s')
    (other : ∀ {s s' : Objects}, I s → Does Call.Outside s s' → I s') :
    I s ∧ ∀ step ∈ steps, I step.1 := by
  induction h with
  | nil => exact ⟨h0, fun _ hstep => absurd hstep not_mem_nil⟩
  | operation _ hv hop ih =>
    obtain ⟨hs, hsteps⟩ := ih fun hmem => operation (mem_append_left _ hmem)
    refine ⟨operation mem_concat_self hs hv hop, fun step hstep => ?_⟩
    rcases mem_append.1 hstep with hstep | hstep
    · exact hsteps step hstep
    · rwa [mem_singleton.1 hstep]
  | other _ hother ih =>
    obtain ⟨hs, hsteps⟩ := ih operation
    exact ⟨other hs hother, hsteps⟩

theorem invariant_iff {I J : Objects → Prop} {C : OpStep → Prop}
    (h : OperationRun cr V s0 steps s) (h0 : J s0) (property : ∀ {s : Objects}, J s → I s)
    (operation : ∀ {s s' : Objects} {env : Env} {op : Operation}, J s → V op →
      s.applyOperation cr env op = .ok s' → (C (s, op) → J s') ∧ (I s' → C (s, op)))
    (other : ∀ {s s' : Objects}, J s → Does Call.Outside s s' → J s')
    (back : ∀ {s s' : Objects}, Does Call.Outside s s' → I s' → I s) :
    ((∀ step ∈ steps, I step.1) ∧ I s) ↔ ∀ step ∈ steps, C step := by
  constructor
  · -- `J` holds as long as `I` does
    suffices hboth : (∀ step ∈ steps, I step.1) ∧ I s → (∀ step ∈ steps, C step) ∧ J s from
      fun hI => (hboth hI).1
    induction h with
    | nil => exact fun _ => ⟨fun _ hstep => absurd hstep not_mem_nil, h0⟩
    | operation _ hv hop ih =>
      rintro ⟨hsteps, hs'⟩
      obtain ⟨hC, hJ⟩ := ih ⟨fun step hstep => hsteps step (mem_append_left _ hstep),
        hsteps _ mem_concat_self⟩
      have hlast := (operation hJ hv hop).2 hs'
      refine ⟨fun step hstep => ?_, (operation hJ hv hop).1 hlast⟩
      rcases mem_append.1 hstep with hstep | hstep
      · exact hC step hstep
      · rwa [mem_singleton.1 hstep]
    | other _ hother ih =>
      rintro ⟨hsteps, hs'⟩
      obtain ⟨hC, hJ⟩ := ih ⟨hsteps, back hother hs'⟩
      exact ⟨hC, other hJ hother⟩
  · intro hC
    obtain ⟨hs, hsteps⟩ := h.invariant (I := J) h0 (fun hmem hs hv hop => (operation hs hv hop).1 (hC _ hmem))
      other
    exact ⟨fun step hstep => property (hsteps step hstep), property hs⟩

section Blocks

variable {P : Params} {env : Env} {b : SignedBlock}

theorem of_applyOperations {ops : List Operation} (hV : ∀ op ∈ ops, V op)
    (h : s.applyOperations cr env ops = .ok s') :
    OperationRun cr V s (operationSteps cr env s ops) s' := by
  induction ops generalizing s with
  | nil =>
    cases h
    exact .nil
  | cons op ops ih =>
    obtain ⟨s1, hop, hrest⟩ := foldlM_cons_ok_iff.1 h
    rw [plainError_ok_iff] at hop
    rw [operationSteps, hop]
    have hfirst : OperationRun cr V s [(s, op)] s1 := .operation .nil (hV op (.head _)) hop
    exact hfirst.trans (ih (fun op' hop' => hV op' (.tail _ hop')) hrest)

theorem of_applyTransactions {txs : List SignedTransaction}
    (hV : ∀ t ∈ txs, ∀ op ∈ t.operations, V op) (h : s.applyTransactions cr env txs = .ok s') :
    OperationRun cr V s (transactionSteps cr env s txs) s' := by
  induction txs generalizing s with
  | nil =>
    cases h
    exact .nil
  | cons t txs ih =>
    obtain ⟨s1, htx, hrest⟩ := foldlM_cons_ok_iff.1 h
    obtain ⟨u, hrecord, hops⟩ := applyTransaction_run htx
    have hrecorded : OperationRun cr V s [] u := .other .nil (recordTransaction_does hrecord fun _ => trivial)
    have hfirst := hrecorded.trans (.of_applyOperations (hV t (.head _)) hops)
    rw [transactionSteps, hrecord, htx]
    exact hfirst.trans (ih (fun t' ht' => hV t' (.tail _ ht')) hrest)

theorem of_applyBlock (hV : ∀ t ∈ b.transactions, ∀ op ∈ t.operations, V op)
    (h : s.applyBlock P env b = .ok s') : OperationRun P.toCrypto V s (s.blockSteps P env b) s' := by
  obtain ⟨s1, s2, hheader, -, htxs, hfinish⟩ := applyBlock_ok h
  have hfirst : OperationRun P.toCrypto V s [] s1 := .other .nil (processHeaderExtensions_outside hheader)
  rw [blockSteps, hheader]
  exact .other (hfirst.trans (.of_applyTransactions hV htxs)) (finishBlock_outside hfinish)

end Blocks

end OperationRun

/-- The operation validates. -/
def Operation.Valid (cr : Crypto) (op : Operation) : Prop := op.validate cr = .ok ()

theorem AcceptedChain.operationRun {P : Params} {s : Objects} {blocks : List SignedBlock}
    (h : AcceptedChain P blocks s) :
    ∃ steps, OperationRun P.toCrypto (Operation.Valid P.toCrypto) (Xgt.genesis P.initPublicKey) steps s := by
  induction h with
  | genesis => exact ⟨[], .nil⟩
  | block h hskip hnum hb ih =>
    obtain ⟨steps, hrun⟩ := ih
    refine ⟨_, hrun.trans (.of_applyBlock (fun t ht op hop => ?_) hb)⟩
    obtain ⟨_, _, -, htx⟩ := applyBlock_transaction hb ht
    obtain ⟨hvalid, -⟩ := applyTransaction_ok hskip htx
    obtain ⟨_, -, hvalid⟩ := of_bind hvalid
    exact forM_ok_iff.1 hvalid op hop

/-! ## Unique keys -/

/-- The token tables hold no key twice. -/
structure Objects.XttUnique (s : Objects) : Prop where
  xttTokens : s.xttTokens.Unique
  xttIcos : s.xttIcos.Unique
  xttIcoTiers : s.xttIcoTiers.Unique
  xttContributions : s.xttContributions.Unique

/-- No table holds a key twice. The tables left out have no unique key besides the id. -/
structure Objects.UniqueKeys (s : Objects) : Prop extends s.XttUnique where
  wallets : s.wallets.Unique
  metadata : s.metadata.Unique
  witnesses : s.witnesses.Unique
  transactions : s.transactions.Unique
  escrows : s.escrows.Unique
  contracts : s.contracts.Unique
  comments : s.comments.Unique
  commentContents : s.commentContents.Unique
  balances : s.balances.Unique

variable {p : Call → Prop} {s s' : Objects}

theorem Objects.Does.xttUnique (h : Does p s s') (hs : s.XttUnique) : s'.XttUnique := by
  refine h.lift (R := fun s s' => s.XttUnique → s'.XttUnique) (fun _ => id)
    (fun h h' hs => h' (h hs)) ?_ hs
  intro s s' c _ hrun hs
  cases hrun with
  | xttToken h => exact { hs with xttTokens := h.unique hs.xttTokens }
  | xttIco h => exact { hs with xttIcos := h.unique hs.xttIcos }
  | xttIcoTier h => exact { hs with xttIcoTiers := h.unique hs.xttIcoTiers }
  | xttContribution h => exact { hs with xttContributions := h.unique hs.xttContributions }
  | _ => exact { hs with }

theorem Objects.Does.uniqueKeys (h : Does p s s') (hs : s.UniqueKeys) : s'.UniqueKeys := by
  refine h.lift (R := fun s s' => s.UniqueKeys → s'.UniqueKeys) (fun _ => id)
    (fun h h' hs => h' (h hs)) ?_ hs
  intro s s' c _ hrun hs
  have hxtt := (Does.call (p := fun _ => True) hrun trivial).xttUnique hs.toXttUnique
  cases hrun with
  | wallet h => exact { hxtt, hs with wallets := h.unique hs.wallets }
  | metadata h => exact { hxtt, hs with metadata := h.unique hs.metadata }
  | witness h => exact { hxtt, hs with witnesses := h.unique hs.witnesses }
  | transaction h => exact { hxtt, hs with transactions := h.unique hs.transactions }
  | escrow h => exact { hxtt, hs with escrows := h.unique hs.escrows }
  | contract h => exact { hxtt, hs with contracts := h.unique hs.contracts }
  | comment h => exact { hxtt, hs with comments := h.unique hs.comments }
  | commentContent h => exact { hxtt, hs with commentContents := h.unique hs.commentContents }
  | balance h => exact { hxtt, hs with balances := h.unique hs.balances }
  | _ => exact { hxtt, hs with }

variable (key : PublicKey)

theorem uniqueKeys_genesis : (genesis key).UniqueKeys where
  toXttUnique := ⟨unique_empty, unique_empty, unique_empty, unique_empty⟩
  wallets := fun r hr r' hr' hclash => by
    have hnames : ((genesis key).wallets.rows.map fun r => r.2.name).Nodup := by
      change [xgtMinerWallet, xgtInitMinerName, xgtNullWallet, xgtTreasuryWallet, xgtTempWallet].Nodup
      decide
    exact inj_on_of_nodup_map hnames hr hr' (of_decide_eq_true hclash)
  metadata := unique_empty
  witnesses := fun r hr r' hr' _ => by rw [mem_singleton.1 hr, mem_singleton.1 hr']
  transactions := unique_empty
  escrows := unique_empty
  contracts := unique_empty
  comments := unique_empty
  commentContents := unique_empty
  balances := unique_empty

theorem OperationRun.uniqueKeys {cr : Crypto} {V : Operation → Prop} {s0 s : Objects}
    {steps : List OpStep} (h : OperationRun cr V s0 steps s) (h0 : s0.UniqueKeys) :
    s.UniqueKeys ∧ ∀ step ∈ steps, step.1.UniqueKeys :=
  h.invariant h0 (fun _ hs _ hop => (applyOperation_calls hop).uniqueKeys hs) fun hs hother =>
    hother.uniqueKeys hs

end Xgt
