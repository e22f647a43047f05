import XgtChain.Chain.Money

/-!
# The life of an escrow

An `EscrowRun` is a sequence of accepted operations with anything between them that leaves the escrows
alone.
-/

namespace Xgt

open Base ObjectIndex List EscrowTransferOperation

def EscrowTransferOperation.escrow (o : EscrowTransferOperation) : EscrowObject where
  escrowId := o.escrowId
  fromWallet := o.fromWallet
  toWallet := o.toWallet
  agent := o.agent
  ratificationDeadline := o.ratificationDeadline
  escrowExpiration := o.escrowExpiration
  xgtBalance := o.xgtAmount
  pendingFee := o.fee

namespace Objects

variable {s s' : Objects} {cr : Crypto} {env : Env} {op : Operation}

theorem applyEscrowTransfer_opens {o : EscrowTransferOperation} (h : s.applyEscrowTransfer o = .ok s') :
    s'.escrows = s.escrows.append o.escrow := by
  obtain ⟨_, s1, escrows, -, hpaid, hnew, rfl⟩ := applyEscrowTransfer_ok h
  rw [← (adjustBalance_liquid (mem_singleton_self _) hpaid).kind.escrows_of_liquid]
  exact create?_eq hnew

theorem applyOperation_escrow (h : s.applyOperation cr env op = .ok s') :
    (∃ o, op = .escrowTransfer o ∧ s'.escrows = s.escrows.append o.escrow) ∨ Serves s op s' ∨
      op.isEscrow = false ∧ s'.escrows = s.escrows := by
  by_cases hop : op.isEscrow = false
  · exact .inr (.inr ⟨hop, applyOperation_escrows hop h⟩)
  · cases op with
    | escrowTransfer o => exact .inl ⟨o, rfl, applyEscrowTransfer_opens h⟩
    | escrowApprove o | escrowDispute o | escrowRelease o =>
      obtain ⟨i, e, u, hanswers⟩ := applyOperation_answers rfl h
      exact .inr (.inl ⟨i, e, u, hanswers.named, hanswers.permits, hanswers.paid, hanswers.eq⟩)
    | _ => exact absurd rfl hop

section Steps

variable {i : Nat} {w : WalletName} {step : OpStep} {steps : List OpStep}
  {p : OpStep → Prop} {e : EscrowObject}

def Names (i : Nat) (step : OpStep) : Prop :=
  (step.1.namedEscrow step.2).map Prod.fst = some i

def Approves (i : Nat) (w : WalletName) (step : OpStep) : Prop :=
  Names i step ∧ ∃ o, step.2 = .escrowApprove o ∧ o.approve = true ∧ o.who = w

/-- A party refuses the escrow. -/
def Refuses (i : Nat) (step : OpStep) : Prop :=
  Names i step ∧ ∃ o, step.2 = .escrowApprove o ∧ o.approve = false

def Disputes (i : Nat) (step : OpStep) : Prop :=
  Names i step ∧ ∃ o, step.2 = .escrowDispute o

def Releases (i : Nat) (o : EscrowReleaseOperation) (step : OpStep) : Prop :=
  Names i step ∧ step.2 = .escrowRelease o

def paidBy (i : Nat) (step : OpStep) : List (WalletName × Asset) :=
  match step.1.namedEscrow step.2 with
  | some (j, e) => if j = i then e.payments step.2 else []
  | none => []

def paidOut (i : Nat) (steps : List OpStep) : Int :=
  (steps.map fun step => amountPaid (paidBy i step)).sum

def timesPaid (i : Nat) (w : WalletName) (steps : List OpStep) : Nat :=
  steps.countP fun step => (paidBy i step).any fun p => p.1 = w

theorem paidBy_of_not_names (h : ¬Names i step) : paidBy i step = [] := by
  unfold paidBy
  split
  · next j e hnamed => exact if_neg fun hij => h (by rw [Names, hnamed, Option.map_some, hij])
  · rfl

theorem paidBy_of_named (h : step.1.namedEscrow step.2 = some (i, e)) :
    paidBy i step = e.payments step.2 := by
  rw [paidBy, h]
  exact if_pos rfl

theorem names_of_named (h : step.1.namedEscrow step.2 = some (i, e)) : Names i step := by
  rw [Names, h]
  rfl

theorem exists_mem_concat_iff : (∃ y ∈ steps ++ [step], p y) ↔ (∃ y ∈ steps, p y) ∨ p step := by
  simp [or_and_right, exists_or]

theorem exists_mem_concat_of_not (h : ¬p step) : (∃ y ∈ steps ++ [step], p y) ↔ ∃ y ∈ steps, p y := by
  rw [exists_mem_concat_iff, or_iff_left h]

theorem paidOut_concat : paidOut i (steps ++ [step]) = paidOut i steps + amountPaid (paidBy i step) := by
  simp [paidOut]

theorem timesPaid_concat : timesPaid i w (steps ++ [step]) =
    timesPaid i w steps + if (paidBy i step).any (fun p => p.1 = w) then 1 else 0 := by
  simp [timesPaid, countP_append, countP_singleton]

end Steps

end Objects

open Objects

/-- A run of operations, between which no escrow changes. -/
inductive EscrowRun (cr : Crypto) (V : Operation → Prop) : Objects → List OpStep → Objects → Prop where
  | nil {s : Objects} : EscrowRun cr V s [] s
  | operation {s0 s s' : Objects} {steps : List OpStep} {env : Env} {op : Operation}
      (h : EscrowRun cr V s0 steps s) (hv : V op) (hop : s.applyOperation cr env op = .ok s') :
      EscrowRun cr V s0 (steps ++ [(s, op)]) s'
  | other {s0 s s' : Objects} {steps : List OpStep} (h : EscrowRun cr V s0 steps s)
      (hescrows : s'.escrows = s.escrows) : EscrowRun cr V s0 steps s'

namespace EscrowRun

variable {cr : Crypto} {V : Operation → Prop} {s s' s'' : Objects}
  {steps steps' : List OpStep} {step : OpStep}

theorem split (h : EscrowRun cr V s (steps ++ step :: steps') s') :
    EscrowRun cr V s steps step.1 ∧ V step.2 ∧ ∃ env u, step.1.applyOperation cr env step.2 = .ok u ∧
      EscrowRun cr V u steps' s' := by
  generalize hl : steps ++ step :: steps' = l at h
  induction h generalizing steps' with
  | nil => simp at hl
  | @operation s s' l env op h hv hop ih =>
    rcases eq_nil_or_concat' steps' with rfl | ⟨steps', last, rfl⟩
    · obtain ⟨rfl, hlast⟩ := append_inj' hl rfl
      cases hlast
      exact ⟨h, hv, env, s', hop, .nil⟩
    · rw [← cons_append, ← append_assoc] at hl
      obtain ⟨hinit, hlast⟩ := append_inj' hl rfl
      cases hlast
      obtain ⟨hbefore, hv', env', u, hu, hafter⟩ := ih hinit
      exact ⟨hbefore, hv', env', u, hu, .operation hafter hv hop⟩
  | other h hescrows ih =>
    obtain ⟨hbefore, hv, env, u, hu, hafter⟩ := ih hl
    exact ⟨hbefore, hv, env, u, hu, .other hafter hescrows⟩

end EscrowRun

/-! ## One escrow in a run -/

section Life

variable {cr : Crypto} {env : Env} {s s' : Objects} {op : Operation} {i : Nat} {e0 e e' : EscrowObject}
  {steps : List OpStep} {y : OpStep} {now : TimePointSec}

/-- The receiver and the agent have both approved. -/
def Ratified (e0 : EscrowObject) (i : Nat) (steps : List OpStep) : Prop :=
  (e0.toApproved = true ∨ ∃ y ∈ steps, Approves i e0.toWallet y) ∧
    (e0.agentApproved = true ∨ ∃ y ∈ steps, Approves i e0.agent y)

structure Follows (e0 : EscrowObject) (i : Nat) (steps : List OpStep) (e : EscrowObject) : Prop where
  terms : e = { e0 with
    xgtBalance := e.xgtBalance, pendingFee := e.pendingFee
    toApproved := e.toApproved, agentApproved := e.agentApproved, disputed := e.disputed }
  toApproved : e.toApproved = true ↔ e0.toApproved = true ∨ ∃ y ∈ steps, Approves i e0.toWallet y
  agentApproved : e.agentApproved = true ↔ e0.agentApproved = true ∨ ∃ y ∈ steps, Approves i e0.agent y
  disputed : e.disputed = true ↔ e0.disputed = true ∨ ∃ y ∈ steps, Disputes i y

theorem Follows.ratified_iff (h : Follows e0 i steps e) : e.isApproved = true ↔ Ratified e0 i steps := by
  rw [EscrowObject.isApproved, Bool.and_eq_true, h.toApproved, h.agentApproved]
  rfl

theorem Follows.unnamed (h : Follows e0 i steps e) (hy : ¬Names i y) : Follows e0 i (steps ++ [y]) e where
  terms := h.terms
  toApproved := by
    rw [h.toApproved, exists_mem_concat_of_not fun hz => hy hz.1]
  agentApproved := by
    rw [h.agentApproved, exists_mem_concat_of_not fun hz => hy hz.1]
  disputed := by
    rw [h.disputed, exists_mem_concat_of_not fun hz => hy hz.1]

theorem Follows.step (h : Follows e0 i steps e) (hnamed : s.namedEscrow op = some (i, e))
    (hpermits : e.Permits now op) (hafter : e.after op = some e') :
    Follows e0 i (steps ++ [(s, op)]) e' := by
  have hnames : Names i (s, op) := names_of_named hnamed
  have hto : e.toWallet = e0.toWallet := by rw [h.terms]
  have hagent : e.agent = e0.agent := by rw [h.terms]
  cases op with
  | escrowApprove o =>
    obtain ⟨hoTo, hoAgent, -⟩ := hpermits
    rw [hto] at hoTo
    rw [hagent] at hoAgent
    have happrove : o.approve = true := by
      by_contra hnot
      simp [EscrowObject.after, hnot] at hafter
    have hflags : e' = { e with
        pendingFee := e'.pendingFee
        toApproved := e.toApproved || o.who = e0.toWallet
        agentApproved := e.agentApproved || o.who = e0.agent } := by
      rw [EscrowObject.after, if_pos happrove] at hafter
      rw [hoTo, hoAgent]
      split_ifs at hafter <;> cases hafter <;> rfl
    have happroves (w : WalletName) : Approves i w (s, .escrowApprove o) ↔ o.who = w := by
      simp [Approves, hnames, happrove]
    constructor
    · rw [hflags, h.terms]
    · rw [hflags, exists_mem_concat_iff, happroves, ← or_assoc, ← h.toApproved]
      simp
    · rw [hflags, exists_mem_concat_iff, happroves, ← or_assoc, ← h.agentApproved]
      simp
    · rw [hflags, h.disputed, exists_mem_concat_of_not]
      simp [Disputes]
  | escrowDispute o =>
    cases hafter
    constructor
    · rw [h.terms]
    · rw [h.toApproved, exists_mem_concat_of_not]
      simp [Approves]
    · rw [h.agentApproved, exists_mem_concat_of_not]
      simp [Approves]
    · rw [exists_mem_concat_iff]
      simp [Disputes, hnames]
  | escrowRelease o =>
    have hflags : e' = { e with xgtBalance := e'.xgtBalance } := by
      rw [EscrowObject.after] at hafter
      split_ifs at hafter
      cases hafter
      rfl
    constructor
    · rw [hflags, h.terms]
    · rw [hflags, h.toApproved, exists_mem_concat_of_not]
      simp [Approves]
    · rw [hflags, h.agentApproved, exists_mem_concat_of_not]
      simp [Approves]
    · rw [hflags, h.disputed, exists_mem_concat_of_not]
      simp [Disputes]
  | _ => exact hpermits.elim

inductive Life (e0 : EscrowObject) (i : Nat) (steps : List OpStep) (s : Objects) : Prop where
  | standing {e : EscrowObject} (hrow : (i, e) ∈ s.escrows.rows) (hfollows : Follows e0 i steps e)
      (hnot : ¬∃ y ∈ steps, Refuses i y)
  | ended (hgone : ∀ e, (i, e) ∉ s.escrows.rows) (hid : i < s.escrows.nextId)
      (hwhy : (∃ y ∈ steps, Refuses i y) ∨ Ratified e0 i steps)

theorem Ratified.concat (h : Ratified e0 i steps) : Ratified e0 i (steps ++ [y]) := by
  simp only [Ratified, exists_mem_concat_iff, ← or_assoc]
  exact ⟨.inl h.1, .inl h.2⟩

section

variable (h : Life e0 i steps s)
include h

theorem Life.unnamed (hy : ¬Names i y) (hrows : ∀ e, (i, e) ∈ s'.escrows.rows ↔ (i, e) ∈ s.escrows.rows)
    (hnext : s.escrows.nextId ≤ s'.escrows.nextId) : Life e0 i (steps ++ [y]) s' := by
  cases h with
  | standing hrow hfollows hnot =>
    refine .standing ((hrows _).2 hrow) (hfollows.unnamed hy) ?_
    rwa [exists_mem_concat_of_not fun hz => hy hz.1]
  | ended hgone hid hwhy =>
    refine .ended (fun e he => hgone e ((hrows e).1 he)) (hid.trans_le hnext) ?_
    rw [exists_mem_concat_of_not fun hz => hy hz.1]
    exact hwhy.imp_right Ratified.concat

theorem Life.of_escrows (heq : s'.escrows = s.escrows) : Life e0 i steps s' := by
  cases h with
  | standing hrow hfollows hnot => exact .standing (heq ▸ hrow) hfollows hnot
  | ended hgone hid hwhy => exact .ended (heq ▸ hgone) (heq ▸ hid) hwhy

theorem Life.follows (hrow : (i, e) ∈ s.escrows.rows) : Follows e0 i steps e ∧ ¬∃ y ∈ steps, Refuses i y := by
  cases h with
  | standing hrow' hfollows hnot =>
    cases eq_of_mem hrow hrow' rfl
    exact ⟨hfollows, hnot⟩
  | ended hgone => exact absurd hrow (hgone e)

theorem Life.id_lt : i < s.escrows.nextId := by
  cases h with
  | standing hrow => exact s.escrows.fresh _ hrow
  | ended _ hid => exact hid

theorem Life.named (hnamed : s.namedEscrow op = some (i, e)) (hpermits : e.Permits now op) {u : Objects} :
    Life e0 i (steps ++ [(s, op)]) { u with escrows := s.escrows.put i (e.after op) } := by
  have hrow := (of_namedEscrow hnamed).1
  obtain ⟨hfollows, hnot⟩ := h.follows hrow
  have hnames : Names i (s, op) := names_of_named hnamed
  cases hafter : e.after op with
  | some e' =>
    refine .standing ((mem_put_self hrow).2 rfl) (hfollows.step hnamed hpermits hafter) ?_
    rw [exists_mem_concat_of_not]
    · exact hnot
    · rintro ⟨-, o, rfl, hrefused⟩
      simp [EscrowObject.after, hrefused] at hafter
  | none =>
    refine .ended (fun e' he' => ?_) ?_ ?_
    · cases (mem_put_self hrow).1 he'
    · exact nextId_put.symm ▸ h.id_lt
    · cases op with
      | escrowApprove o =>
        refine .inl (exists_mem_concat_iff.2 (.inr ⟨hnames, o, rfl, ?_⟩))
        by_contra happrove
        rw [EscrowObject.after, if_pos (Bool.not_eq_false _ ▸ happrove)] at hafter
        split_ifs at hafter
      | escrowDispute o => cases hafter
      | escrowRelease o => exact .inr (hfollows.ratified_iff.1 hpermits.approved).concat
      | _ => exact hpermits.elim

end

theorem applyOperation_row (hid : i < s.escrows.nextId) (hop : s.applyOperation cr env op = .ok s') :
    (¬Names i (s, op) ∧ (∀ e, (i, e) ∈ s'.escrows.rows ↔ (i, e) ∈ s.escrows.rows) ∧
        s.escrows.nextId ≤ s'.escrows.nextId) ∨
      ∃ e u, s.namedEscrow op = some (i, e) ∧ e.Permits s.headBlockTime op ∧
        s.pay (e.payments op) = .ok u ∧ s' = { u with escrows := s.escrows.put i (e.after op) } := by
  rcases applyOperation_escrow hop with ⟨o, rfl, hnew⟩ | hserves | ⟨hother, hsame⟩
  · refine .inl ⟨by simp [Names, namedEscrow, Operation.escrowKey?], fun e =>
      ?_, by rw [hnew]; exact Nat.le_succ _⟩
    rw [hnew]
    simp only [ObjectIndex.append, mem_append, mem_singleton, Prod.mk.injEq]
    exact or_iff_left fun heq => by omega
  · obtain ⟨j, e, u, hnamed, hpermits, hpaid, rfl⟩ := hserves
    by_cases hij : j = i
    · cases hij
      exact .inr ⟨e, u, hnamed, hpermits, hpaid, rfl⟩
    · refine .inl ⟨?_, fun e' => mem_put_of_ne fun heq => hij heq.symm, ?_⟩
      · simpa [Names, hnamed] using hij
      · exact nextId_put.symm.le
  · have hkey : op.escrowKey? = none := by cases op <;> first | rfl | cases hother
    exact .inl ⟨by simp [Names, namedEscrow, hkey], fun e => by rw [hsame], by rw [hsame]⟩

theorem Life.step (h : Life e0 i steps s) (hop : s.applyOperation cr env op = .ok s') :
    Life e0 i (steps ++ [(s, op)]) s' := by
  rcases applyOperation_row h.id_lt hop with ⟨hy, hrows, hnext⟩ | ⟨e, u, hnamed, hpermits, -, rfl⟩
  · exact h.unnamed hy hrows hnext
  · exact h.named hnamed hpermits

theorem EscrowRun.life {V : Operation → Prop} (h : EscrowRun cr V s steps s')
    (hrow : (i, e) ∈ s.escrows.rows) : Life e i steps s' := by
  induction h with
  | nil => exact .standing hrow (by constructor <;> simp) (by simp)
  | operation _ _ hop ih => exact ih.step hop
  | other _ hescrows ih => exact ih.of_escrows hescrows

end Life

/-! ## What an escrow pays -/

structure EscrowObject.Good (e : EscrowObject) : Prop where
  balance : e.xgtBalance.Held
  fee : e.pendingFee.Held
  agent : e.agent ≠ e.fromWallet ∧ e.agent ≠ e.toWallet
  feePaid : e.isApproved = true → e.pendingFee.amount = 0

structure EscrowObject.Spends (e : EscrowObject) (op : Operation) : Prop where
  total : amountPaid (e.payments op) + ((e.after op).map heldXgt).getD 0 = e.heldXgt
  left : ∀ e', e.after op = some e' → e'.Good ∧
    (e'.isApproved = false → e.isApproved = false ∧ e'.pendingFee = e.pendingFee)
  parties : ∀ p ∈ e.payments op,
    (p.1 = e.fromWallet ∨ p.1 = e.toWallet ∨ p.1 = e.agent) ∧ p.2.Held
  fee : ∀ p ∈ e.payments op, p.1 = e.agent →
    p.2 = e.pendingFee ∧ e.isApproved = false ∧ ∃ e', e.after op = some e' ∧ e'.isApproved = true

section Spends

variable {cr : Crypto} {env : Env} {s s' : Objects} {op : Operation} {i : Nat} {e0 e e' : EscrowObject}
  {steps : List OpStep} {now : TimePointSec}

theorem EscrowTransferOperation.escrow_good {o : EscrowTransferOperation} (h : o.validate cr = .ok ()) :
    o.escrow.Good := by
  obtain ⟨hamount, hfee⟩ := Objects.EscrowTransferOperation.held_of_validate h
  refine ⟨hamount, hfee, ?_, by simp [escrow, EscrowObject.isApproved]⟩
  unfold validate at h
  iterate 6 obtain ⟨_, -, h⟩ := of_bind h
  obtain ⟨_, hthird, -⟩ := of_bind h
  have hne : o.fromWallet ≠ o.agent ∧ o.toWallet ≠ o.agent := by simpa using hthird
  exact ⟨hne.1.symm, hne.2.symm⟩

theorem EscrowObject.Good.step (h : e.Good) (hpermits : e.Permits now op) (hafter : e.after op = some e') :
    e'.Good := by
  obtain ⟨hbalance, hfee⟩ := after_held h.balance h.fee hpermits hafter
  refine ⟨hbalance, hfee, ?_, after_feePaid h.feePaid hafter⟩
  obtain ⟨_, _, _, _, _, rfl⟩ := after_terms hafter
  exact h.agent

theorem EscrowObject.Good.approve_spends {o : EscrowApproveOperation} (h : e.Good)
    (hfrom : o.fromWallet = e.fromWallet) (hvalid : o.validate = .ok ())
    (hpermits : e.Permits now (.escrowApprove o)) : e.Spends (.escrowApprove o) := by
  have htotal := amountPaid_payments h.feePaid hpermits
  have hgood (e' : EscrowObject) (he' : e.after (.escrowApprove o) = some e') : e'.Good := h.step hpermits he'
  obtain ⟨-, hagent, -, hnotTo, hnotAgent⟩ := hpermits
  obtain ⟨_, -, hwho⟩ := of_bind hvalid
  have hwho : o.who = o.toWallet ∨ o.who = o.agent := by simpa using hwho
  have hbefore : e.isApproved = false := by
    rcases hwho with hwho | hwho
    · simp [isApproved, hnotTo hwho]
    · simp [isApproved, hnotAgent hwho]
  cases happrove : o.approve with
  | false =>
    obtain ⟨hafter, hpayments⟩ := after_refused happrove (e := e)
    refine ⟨htotal, by simp [hafter], ?_, ?_⟩
    · simp [hpayments, hfrom, h.balance, h.fee]
    · simp [hpayments, hfrom, h.agent.1.symm]
  | true =>
    cases hboth : (e.approve o).isApproved with
    | true =>
      obtain ⟨hafter, hpayments⟩ := after_ratified happrove hboth
      refine ⟨htotal, fun e' he' => ⟨hgood e' he', fun hnot => ?_⟩, ?_, ?_⟩
      · cases hafter.symm.trans he'
        exact absurd (hnot.symm.trans hboth) Bool.false_ne_true
      · simp [hpayments, hagent, h.fee]
      · rw [hpayments, forall_mem_singleton]
        exact fun _ => ⟨rfl, hbefore, _, hafter, hboth⟩
    | false =>
      obtain ⟨hafter, hpayments⟩ := after_approved happrove hboth
      refine ⟨htotal, fun e' he' => ⟨hgood e' he', fun _ => ⟨hbefore, ?_⟩⟩, ?_, ?_⟩
      · cases hafter.symm.trans he'
        rfl
      · simp [hpayments]
      · simp [hpayments]

theorem EscrowObject.Good.release_spends {o : EscrowReleaseOperation} (h : e.Good)
    (hvalid : o.validate = .ok ()) (hpermits : e.Permits now (.escrowRelease o)) : e.Spends
      (.escrowRelease o) := by
  have hpos : 0 ≤ o.xgtAmount.amount := by
    unfold EscrowReleaseOperation.validate at hvalid
    iterate 4 obtain ⟨_, -, hvalid⟩ := of_bind hvalid
    obtain ⟨_, hpos, -⟩ := of_bind hvalid
    simpa using hpos
  have hheld : o.xgtAmount.Held := ⟨hpermits.symbol.symm.trans h.balance.symbol, hpos⟩
  have hreceiver : o.receiver ≠ e.agent := by
    rcases hpermits.receiver with heq | heq
    · exact heq ▸ h.agent.1.symm
    · exact heq ▸ h.agent.2.symm
  have hpayments : e.payments (.escrowRelease o) = [(o.receiver, o.xgtAmount)] := rfl
  refine ⟨amountPaid_payments h.feePaid hpermits, fun e' he' => ⟨h.step hpermits he', ?_⟩, ?_, ?_⟩
  · simp only [after] at he'
    split_ifs at he'
    cases he'
    exact fun hnot => ⟨hnot, rfl⟩
  · simp only [hpayments, forall_mem_singleton]
    exact ⟨hpermits.receiver.imp_right .inl, hheld⟩
  · simp [hpayments, hreceiver]

theorem EscrowObject.Good.spends (h : e.Good) (hkey : op.escrowKey? = some (e.fromWallet, e.escrowId))
    (hvalid : op.validate cr = .ok ()) (hpermits : e.Permits now op) : e.Spends op := by
  cases op with
  | escrowApprove o => exact h.approve_spends (congrArg Prod.fst (Option.some.inj hkey)) hvalid hpermits
  | escrowDispute o =>
    refine ⟨amountPaid_payments h.feePaid hpermits, ?_, by simp [payments], by simp [payments]⟩
    rintro _ ⟨⟩
    exact ⟨⟨h.balance, h.fee, h.agent, h.feePaid⟩, fun hnot => ⟨hnot, rfl⟩⟩
  | escrowRelease o => exact h.release_spends hvalid hpermits
  | _ => exact hpermits.elim

structure Account (e0 : EscrowObject) (i : Nat) (steps : List OpStep) (s : Objects) : Prop where
  standing : ∀ e, (i, e) ∈ s.escrows.rows → e.Good ∧ paidOut i steps + e.heldXgt = e0.heldXgt ∧
    (e.isApproved = false → timesPaid i e0.agent steps = 0 ∧ e.pendingFee = e0.pendingFee)
  ended : (∀ e, (i, e) ∉ s.escrows.rows) → paidOut i steps = e0.heldXgt
  once : timesPaid i e0.agent steps ≤ 1

theorem Account.nil (he : e.Good) (hrow : (i, e) ∈ s.escrows.rows) : Account e i [] s where
  standing e' he' := by
    cases eq_of_mem hrow he' rfl
    exact ⟨he, by simp [paidOut], fun _ => ⟨rfl, rfl⟩⟩
  ended hgone := absurd hrow (hgone e)
  once := Nat.zero_le _

theorem Account.unnamed {y : OpStep} (h : Account e0 i steps s) (hy : ¬Names i y)
    (hrows : ∀ e, (i, e) ∈ s'.escrows.rows ↔ (i, e) ∈ s.escrows.rows) :
    Account e0 i (steps ++ [y]) s' := by
  have hpaid : paidOut i (steps ++ [y]) = paidOut i steps := by
    rw [paidOut_concat, paidBy_of_not_names hy]
    simp [amountPaid]
  have htimes : timesPaid i e0.agent (steps ++ [y]) = timesPaid i e0.agent steps := by
    rw [timesPaid_concat, paidBy_of_not_names hy]
    rfl
  constructor
  · intro e he
    rw [hpaid, htimes]
    exact h.standing e ((hrows e).1 he)
  · intro hgone
    rw [hpaid]
    exact h.ended fun e he => hgone e ((hrows e).2 he)
  · rw [htimes]
    exact h.once

theorem Account.named (h : Account e0 i steps s) (hlife : Life e0 i steps s)
    (hnamed : s.namedEscrow op = some (i, e)) (hspends : e.Spends op) {u : Objects} :
    Account e0 i (steps ++ [(s, op)]) { u with escrows := s.escrows.put i (e.after op) } := by
  have hrow := (of_namedEscrow hnamed).1
  have hagent : e.agent = e0.agent := by rw [(hlife.follows hrow).1.terms]
  obtain ⟨hgood, hheld, hunpaid⟩ := h.standing e hrow
  have hpaid : paidOut i (steps ++ [(s, op)]) = paidOut i steps + amountPaid (e.payments op) := by
    rw [paidOut_concat, paidBy_of_named hnamed]
  have htimes : timesPaid i e0.agent (steps ++ [(s, op)]) = timesPaid i e0.agent steps +
      if (e.payments op).any (fun p => p.1 = e0.agent) then 1 else 0 := by
    rw [timesPaid_concat, paidBy_of_named hnamed]
  have htotal := hspends.total
  constructor
  · intro e' he'
    have hafter := (mem_put_self hrow).1 he'
    obtain ⟨hgood', hfee'⟩ := hspends.left e' hafter
    rw [hafter, Option.map_some, Option.getD_some] at htotal
    refine ⟨hgood', by rw [hpaid]; omega, fun hnot => ?_⟩
    obtain ⟨hzero, hfee⟩ := hunpaid (hfee' hnot).1
    refine ⟨?_, (hfee' hnot).2.trans hfee⟩
    rw [htimes, hzero, if_neg]
    -- a payment to the agent would have completed the approvals
    intro hany
    obtain ⟨p, hp, hto⟩ := any_eq_true.1 hany
    have hto : p.1 = e.agent := by rw [hagent]; simpa using hto
    obtain ⟨-, -, e'', hafter', happroved⟩ := hspends.fee p hp hto
    cases hafter.symm.trans hafter'
    exact absurd (hnot.symm.trans happroved) Bool.false_ne_true
  · intro hgone
    cases hafter : e.after op with
    | none =>
      rw [hafter] at htotal
      simp only [Option.map_none, Option.getD_none] at htotal
      rw [hpaid]
      omega
    | some e' => exact absurd ((mem_put_self hrow).2 hafter) (hgone e')
  · rw [htimes]
    split_ifs with hany
    · obtain ⟨p, hp, hto⟩ := any_eq_true.1 hany
      have hto : p.1 = e.agent := by rw [hagent]; simpa using hto
      rw [(hunpaid (hspends.fee p hp hto).2.1).1]
    · exact h.once

theorem Account.step (h : Account e0 i steps s) (hlife : Life e0 i steps s)
    (hvalid : op.validate cr = .ok ()) (hop : s.applyOperation cr env op = .ok s') :
    Account e0 i (steps ++ [(s, op)]) s' := by
  rcases applyOperation_row hlife.id_lt hop with ⟨hy, hrows, -⟩ | ⟨e, u, hnamed, hpermits, -, rfl⟩
  · exact h.unnamed hy hrows
  · obtain ⟨hrow, hkey⟩ := of_namedEscrow hnamed
    exact h.named hlife hnamed ((h.standing e hrow).1.spends hkey hvalid hpermits)

theorem EscrowRun.account (h : EscrowRun cr (fun op => op.validate cr = .ok ()) s steps s')
    (he : e.Good) (hrow : (i, e) ∈ s.escrows.rows) : Account e i steps s' := by
  induction h with
  | nil => exact .nil he hrow
  | operation h hv hop ih => exact ih.step (h.life hrow) hv hop
  | other _ hescrows ih => exact ⟨hescrows ▸ ih.standing, hescrows ▸ ih.ended, ih.once⟩

end Spends

/-! ## Every escrow pays out what was put in -/

/-- The escrow's deal: who is paid, how much, and on whose word. -/
structure Honoured (cr : Crypto) (o : EscrowTransferOperation) (i : Nat)
    (steps : List OpStep) (s : Objects) : Prop where
  credited : ∀ y ∈ steps, Names i y → ∀ env s', y.1.applyOperation cr env y.2 = .ok s' →
    ∃ u, y.1.pay (paidBy i y) = .ok u ∧ s' = { u with escrows := s'.escrows }
  parties : ∀ y ∈ steps, ∀ p ∈ paidBy i y,
    (p.1 = o.fromWallet ∨ p.1 = o.toWallet ∨ p.1 = o.agent) ∧ p.2.Held
  bounded : paidOut i steps ≤ o.xgtAmount.amount + o.fee.amount
  exact : (∀ e, (i, e) ∉ s.escrows.rows) → paidOut i steps = o.xgtAmount.amount + o.fee.amount
  feeOnce : timesPaid i o.agent steps ≤ 1
  feeApproved : ∀ before y after, steps = before ++ y :: after → ∀ p ∈ paidBy i y, p.1 = o.agent →
    p.2 = o.fee ∧ Ratified o.escrow i (before ++ [y])
  releaseApproved : ∀ before y after p, steps = before ++ y :: after → Releases i p y →
    Ratified o.escrow i before
  undisputed : ∀ before y after p, steps = before ++ y :: after → Releases i p y →
    (¬∃ z ∈ before, Disputes i z) → y.1.headBlockTime < o.escrowExpiration →
    p.who = o.fromWallet ∧ p.receiver = o.toWallet ∨ p.who = o.toWallet ∧ p.receiver = o.fromWallet
  disputed : ∀ before y after p, steps = before ++ y :: after → Releases i p y →
    (∃ z ∈ before, Disputes i z) → p.who = o.agent

section Honoured

variable {cr : Crypto} {s0 s u : Objects} {o : EscrowTransferOperation} {i : Nat}
  {before earlier later : List OpStep} {x y : OpStep}

theorem EscrowRun.serves {V : Operation → Prop} {env : Env} {e0 : EscrowObject}
    (hrun : EscrowRun cr V u before y.1) (hrow : (i, e0) ∈ u.escrows.rows)
    (hop : y.1.applyOperation cr env y.2 = .ok s) (hy : Names i y) :
    ∃ e v, y.1.namedEscrow y.2 = some (i, e) ∧ Follows e0 i before e ∧
      e.Permits y.1.headBlockTime y.2 ∧ y.1.pay (e.payments y.2) = .ok v ∧
      s = { v with escrows := y.1.escrows.put i (e.after y.2) } := by
  have hlife := hrun.life hrow
  rcases applyOperation_row hlife.id_lt hop with ⟨hnot, -⟩ | ⟨e, v, hnamed, hpermits, hpaid, hs⟩
  · exact absurd hy hnot
  · exact ⟨e, v, hnamed, (hlife.follows (of_namedEscrow hnamed).1).1, hpermits, hpaid, hs⟩

theorem EscrowRun.honoured
    (hrun : EscrowRun cr (fun op => op.validate cr = .ok ()) s0 (earlier ++ x :: later) s)
    (hopen : x.2 = .escrowTransfer o) (hid : x.1.escrows.nextId = i) : Honoured cr o i later s := by
  obtain ⟨-, hvalid, env, u, hop, hrun⟩ := hrun.split
  rw [hopen] at hvalid hop
  have hgood := escrow_good hvalid
  have hrow : (i, o.escrow) ∈ u.escrows.rows := by
    rw [applyEscrowTransfer_opens hop, ← hid]
    exact mem_concat_self
  have haccount := hrun.account hgood hrow
  have hheld : o.escrow.heldXgt = o.xgtAmount.amount + o.fee.amount := rfl
  -- what a step on the escrow pays, and the steps before it
  have hstep (before : List OpStep) (y : OpStep)
      (after : List OpStep) (hsplit : later = before ++ y :: after) (hy : Names i y) :
      ∃ e, Follows o.escrow i before e ∧ e.Permits y.1.headBlockTime y.2 ∧ e.Spends y.2 ∧
        paidBy i y = e.payments y.2 ∧ (e.isApproved = false → e.pendingFee = o.fee) ∧
        (∀ e', e.after y.2 = some e' → Follows o.escrow i (before ++ [y]) e') := by
    rw [hsplit] at hrun
    obtain ⟨hbefore, hv, env, v, hop, -⟩ := hrun.split
    obtain ⟨e, v, hnamed, hfollows, hpermits, -⟩ := hbefore.serves hrow hop hy
    obtain ⟨hmem, hkey⟩ := of_namedEscrow hnamed
    obtain ⟨hgood, -, hunpaid⟩ := (hbefore.account hgood hrow).standing e hmem
    exact ⟨e, hfollows, hpermits, hgood.spends hkey hv hpermits, paidBy_of_named hnamed,
      fun hnot => (hunpaid hnot).2, fun e' hafter => hfollows.step hnamed hpermits hafter⟩
  have hparties {before e} (h : Follows o.escrow i before e) :
      e.fromWallet = o.fromWallet ∧ e.toWallet = o.toWallet ∧ e.agent = o.agent ∧
        e.escrowExpiration = o.escrowExpiration := by
    rw [h.terms]
    exact ⟨rfl, rfl, rfl, rfl⟩
  constructor
  · intro y hy hnames env s' hop
    obtain ⟨before, after, hsplit⟩ := append_of_mem hy
    rw [hsplit] at hrun
    obtain ⟨e, v, hnamed, -, -, hpaid, rfl⟩ := hrun.split.1.serves hrow hop hnames
    exact ⟨v, by rw [paidBy_of_named hnamed]; exact hpaid, rfl⟩
  · intro y hy p hp
    obtain ⟨before, after, hsplit⟩ := append_of_mem hy
    by_cases hnames : Names i y
    · obtain ⟨e, hfollows, -, hspends, hpaid, -⟩ := hstep before y after hsplit hnames
      obtain ⟨hfrom, hto, hagent, -⟩ := hparties hfollows
      rw [← hfrom, ← hto, ← hagent]
      exact hspends.parties p (hpaid ▸ hp)
    · rw [paidBy_of_not_names hnames] at hp
      cases hp
  · rw [← hheld]
    by_cases hgone : ∀ e, (i, e) ∉ s.escrows.rows
    · exact (haccount.ended hgone).le
    · obtain ⟨e, he⟩ := not_forall_not.1 hgone
      obtain ⟨hgood, htotal, -⟩ := haccount.standing e he
      have hbalance := hgood.balance.nonneg
      have hfee := hgood.fee.nonneg
      rw [← htotal]
      simp only [EscrowObject.heldXgt]
      omega
  · exact fun hgone => haccount.ended hgone
  · exact haccount.once
  · intro before y after hsplit p hp hto
    by_cases hnames : Names i y
    · obtain ⟨e, hfollows, -, hspends, hpaid, hfee, hnext⟩ := hstep before y after hsplit hnames
      obtain ⟨hpending, hnot, e', hafter, happroved⟩ :=
        hspends.fee p (hpaid ▸ hp) (hto.trans (hparties hfollows).2.2.1.symm)
      exact ⟨hpending.trans (hfee hnot), (hnext e' hafter).ratified_iff.1 happroved⟩
    · rw [paidBy_of_not_names hnames] at hp
      cases hp
  · rintro before y after p hsplit ⟨hnames, hrelease⟩
    obtain ⟨e, hfollows, hpermits, -⟩ := hstep before y after hsplit hnames
    rw [hrelease] at hpermits
    exact hfollows.ratified_iff.1 hpermits.approved
  · rintro before y after p hsplit ⟨hnames, hrelease⟩ hnot htime
    obtain ⟨e, hfollows, hpermits, -⟩ := hstep before y after hsplit hnames
    obtain ⟨hfrom, hto, -, hexpiration⟩ := hparties hfollows
    rw [hrelease] at hpermits
    have hundisputed : e.disputed = false := by
      by_contra hdisputed
      rcases hfollows.disputed.1 (Bool.not_eq_false _ ▸ hdisputed) with hopened | hlater
      · exact absurd hopened Bool.false_ne_true
      · exact hnot hlater
    rw [← hfrom, ← hto]
    exact hpermits.unexpired hundisputed (hexpiration ▸ htime)
  · rintro before y after p hsplit ⟨hnames, hrelease⟩ hdisputed
    obtain ⟨e, hfollows, hpermits, -⟩ := hstep before y after hsplit hnames
    rw [hrelease] at hpermits
    rw [← (hparties hfollows).2.2.1]
    exact hpermits.disputed (hfollows.disputed.2 (.inr hdisputed))

end Honoured

theorem OperationRun.escrowRun {cr : Crypto} {V : Operation → Prop} {s s' : Objects}
    {steps : List OpStep} (h : OperationRun cr V s steps s') : EscrowRun cr V s steps s' := by
  induction h with
  | nil => exact .nil
  | operation _ hv hop ih => exact .operation ih hv hop
  | other _ hother ih => exact .other ih (hother.escrows_eq fun _ => id)

def toyEscrow : EscrowTransferOperation where
  fromWallet := xgtInitMinerName
  toWallet := xgtInitMinerName
  agent := xgtTempWallet
  xgtAmount := .xgt 10
  fee := .xgt 1
  ratificationDeadline := xgtGenesisTime + 5
  escrowExpiration := xgtGenesisTime + 50
  jsonMeta := ""

def toyAnswer (who : WalletName) (approve : Bool) : EscrowApproveOperation where
  fromWallet := xgtInitMinerName
  toWallet := xgtInitMinerName
  agent := xgtTempWallet
  who := who
  approve := approve

def toyRelease : EscrowReleaseOperation where
  fromWallet := xgtInitMinerName
  toWallet := xgtInitMinerName
  agent := xgtTempWallet
  who := xgtInitMinerName
  receiver := xgtInitMinerName
  xgtAmount := .xgt 10

theorem honoured_released :
    ∃ (later : List OpStep) (s : Objects), later.length = 3 ∧ s.escrows.rows = [] ∧
      Honoured toyParams.toCrypto toyEscrow 0 later s := by
  let ops : List Operation := [.escrowTransfer toyEscrow, .escrowApprove (toyAnswer xgtInitMinerName true),
    .escrowApprove (toyAnswer xgtTempWallet true), .escrowRelease toyRelease]
  let later := (operationSteps toyParams.toCrypto toyEnv (genesis ⟨1⟩) ops).tail
  obtain ⟨s, hs, hgone⟩ := exists_ok_of_any
    (x := (genesis ⟨1⟩).applyOperations toyParams.toCrypto toyEnv ops)
    (p := fun s => s.escrows.rows.isEmpty) (by decide +kernel)
  have hchecks : ops.forM (fun op => op.validate toyParams.toCrypto) = .ok () := by decide +kernel
  have hvalid := forM_ok_iff.1 hchecks
  have hrun : EscrowRun toyParams.toCrypto (fun op => op.validate toyParams.toCrypto = .ok ())
      (genesis ⟨1⟩) ([] ++ (genesis ⟨1⟩, .escrowTransfer toyEscrow) :: later) s :=
    (OperationRun.of_applyOperations hvalid hs).escrowRun
  have hlength : later.length = 3 := by decide +kernel
  exact ⟨later, s, hlength, by simpa using hgone, EscrowRun.honoured hrun rfl rfl⟩

/-! ## Escrows that nobody can answer any more -/

/-- Not approved at its deadline. -/
def EscrowObject.Overdue (e : EscrowObject) (now : TimePointSec) : Prop :=
  e.isApproved = false ∧ e.ratificationDeadline ≤ now

/-- An escrow of the run, with the steps after it appears. -/
inductive Enters (s : Objects) (steps : List OpStep) : Nat → EscrowObject → List OpStep → Prop where
  | found {i : Nat} {e : EscrowObject} (h : (i, e) ∈ s.escrows.rows) : Enters s steps i e steps
  | opened {before later : List OpStep} {y : OpStep}
      {o : EscrowTransferOperation} (h : steps = before ++ y :: later) (hy : y.2 = .escrowTransfer o) :
      Enters s steps y.1.escrows.nextId o.escrow later

section Overdue

variable {P : Params} {cr : Crypto} {env : Env} {V : Operation → Prop} {s s' : Objects} {b : SignedBlock}
  {i : Nat} {e e' : EscrowObject} {steps later : List OpStep} {y : OpStep}

theorem Enters.concat (h : Enters s steps i e later) : Enters s (steps ++ [y]) i e (later ++ [y]) := by
  cases h with
  | found h => exact .found h
  | @opened before _ z o h hy =>
    have hsplit : steps ++ [y] = before ++ z :: (later ++ [y]) := by
      rw [h, append_assoc]
      rfl
    exact .opened hsplit hy

theorem EscrowRun.life_of_enters (h : EscrowRun cr V s steps s') (henters : Enters s steps i e later) :
    Life e i later s' := by
  cases henters with
  | found hrow => exact h.life hrow
  | opened hsplit hy =>
    rw [hsplit] at h
    obtain ⟨-, -, env, u, hop, hrun⟩ := h.split
    rw [hy] at hop
    refine hrun.life ?_
    rw [applyEscrowTransfer_opens hop]
    exact mem_concat_self

theorem EscrowRun.enters (h : EscrowRun cr V s steps s') (hrow : (i, e') ∈ s'.escrows.rows) :
    ∃ e later, Enters s steps i e later := by
  induction h generalizing e' with
  | nil => exact ⟨e', [], .found hrow⟩
  | @operation u u' steps env op h hv hop ih =>
    have old {e' : EscrowObject} (hold : (i, e') ∈ u.escrows.rows) :
        ∃ e later, Enters s (steps ++ [(u, op)]) i e later := by
      obtain ⟨e, later, henters⟩ := ih hold
      exact ⟨e, _, henters.concat⟩
    rcases applyOperation_escrow hop with ⟨o, rfl, hnew⟩ | ⟨j, ej, u, hnamed, -, -, rfl⟩ | ⟨-, hsame⟩
    · rw [hnew] at hrow
      rcases mem_append.1 hrow with hold | hrow
      · exact old hold
      · cases mem_singleton.1 hrow
        exact ⟨_, [], .opened rfl rfl⟩
    · by_cases hij : i = j
      · cases hij
        exact old (of_namedEscrow hnamed).1
      · exact old ((mem_put_of_ne hij).1 hrow)
    · exact old (hsame ▸ hrow)
  | other _ hescrows ih => exact ih (hescrows ▸ hrow)

theorem applyBlock_overdue_iff (h : s.applyBlock P env b = .ok s') :
    (∀ e ∈ s'.escrows.objects, ¬e.Overdue s'.headBlockTime) ↔
      ∀ i e later, Enters s (s.blockSteps P env b) i e later → e.ratificationDeadline ≤ b.timestamp →
        Ratified e i later ∨ ∃ y ∈ later, Refuses i y := by
  have hrun : EscrowRun P.toCrypto (fun _ => True) s (s.blockSteps P env b) s' :=
    (OperationRun.of_applyBlock (fun _ _ _ _ => trivial) h).escrowRun
  rw [applyBlock_time h]
  constructor
  · intro hnone i e later henters hdeadline
    cases hrun.life_of_enters henters with
    | @standing e' hrow hfollows hnot =>
      left
      rw [← hfollows.ratified_iff]
      by_contra hunapproved
      have hsame : e'.ratificationDeadline = e.ratificationDeadline := by rw [hfollows.terms]
      exact hnone e' (mem_objects.2 ⟨i, hrow⟩)
        ⟨Bool.not_eq_true _ ▸ hunapproved, hsame ▸ hdeadline⟩
    | ended hgone hid hwhy => exact hwhy.symm
  · rintro hanswered e' he' ⟨hunapproved, hdeadline⟩
    obtain ⟨i, hrow⟩ := mem_objects.1 he'
    obtain ⟨e, later, henters⟩ := hrun.enters hrow
    obtain ⟨hfollows, hnot⟩ := (hrun.life_of_enters henters).follows hrow
    have hsame : e'.ratificationDeadline = e.ratificationDeadline := by rw [hfollows.terms]
    rcases hanswered i e later henters (hsame ▸ hdeadline) with hratified | hrefused
    · exact absurd (hunapproved.symm.trans (hfollows.ratified_iff.2 hratified)) Bool.false_ne_true
    · exact hnot hrefused

theorem not_overdue_when_refused :
    ∃ (b : SignedBlock) (s s' : Objects) (i : Nat) (e : EscrowObject),
      s.applyBlock toyParams toyEnv b = .ok s' ∧ (i, e) ∈ s.escrows.rows ∧
      e.isApproved = false ∧ e.ratificationDeadline ≤ b.timestamp ∧
      let steps := s.blockSteps toyParams toyEnv b
      Ratified e i steps ∨ ∃ y ∈ steps, Refuses i y := by
  let first := toyBlock .zero 1
    [toyTransaction 0 [.escrowTransfer toyEscrow] [1]]
  let second := toyBlock (toyId first) 10
    [toyTransaction 1 [.escrowApprove (toyAnswer xgtInitMinerName false)] [1]]
  obtain ⟨s, hs, hopened⟩ := exists_ok_of_any
    (x := runBlocks toyParams toyEnv [first])
    (p := fun s => s.escrows.rows.any
        (fun r => !r.2.isApproved && decide (r.2.ratificationDeadline ≤ second.timestamp)) &&
      (s.applyBlock toyParams toyEnv second).toOption.any fun s' => s'.escrows.objects.isEmpty)
    (by decide +kernel)
  obtain ⟨hrow, hsecond⟩ := (Bool.and_eq_true _ _).mp hopened
  obtain ⟨⟨i, e⟩, hrow, hdue⟩ := any_eq_true.1 hrow
  obtain ⟨happroved, hdue⟩ := (Bool.and_eq_true _ _).mp hdue
  obtain ⟨s', hs', hnone⟩ := exists_ok_of_any hsecond
  refine ⟨second, s, s', i, e, hs', hrow, by simpa using happroved, of_decide_eq_true hdue, ?_⟩
  refine (applyBlock_overdue_iff hs').1 (fun e' he' => ?_) i e _ (.found hrow) (of_decide_eq_true hdue)
  rw [isEmpty_iff.1 hnone] at he'
  cases he'

theorem overdue_after_block :
    ∃ (blocks : List SignedBlock) (s : Objects), AcceptedChain toyParams blocks s ∧
      ∃ e ∈ s.escrows.objects, e.Overdue s.headBlockTime := by
  let first := toyBlock .zero 1
    [toyTransaction 0 [.escrowTransfer toyEscrow] [1]]
  let second := toyBlock (toyId first) 10
  obtain ⟨s, hs, hoverdue⟩ := exists_ok_of_any
    (x := runBlocks toyParams toyEnv [first, second])
    (p := fun s => s.escrows.objects.any fun e =>
      !e.isApproved && decide (e.ratificationDeadline ≤ s.headBlockTime)) (by decide +kernel)
  refine ⟨[first, second], s, acceptedChain_of_runBlocks rfl (by decide +kernel) hs, ?_⟩
  obtain ⟨e, he, hoverdue⟩ := any_eq_true.1 hoverdue
  exact ⟨e, he, by simpa [EscrowObject.Overdue] using hoverdue⟩

end Overdue

end Xgt
