import XgtChain.Chain.OperationRuns
import XgtChain.Chain.PushBlock

/-!
# Where the XGT is

XGT is in wallets, in escrows with their pending fees, and in the contributions to ICOs
(`Objects.totalXgt`).
-/

namespace Xgt

open Base EscrowObject List Objects

structure Asset.Held (a : Asset) : Prop where
  symbol : a.symbol = xgtSymbol
  nonneg : 0 ≤ a.amount

open Asset

def Asset.xgtAmount (a : Asset) : Int := if a.symbol = xgtSymbol then a.amount else 0

theorem Asset.xgtAmount_eq {a : Asset} (h : a.symbol = xgtSymbol) : a.xgtAmount = a.amount := if_pos h

theorem Asset.xgtAmount_neg (a : Asset) : xgtAmount ⟨-a.amount, a.symbol⟩ = -a.xgtAmount := by
  unfold xgtAmount
  split_ifs <;> simp

def EscrowObject.heldXgt (e : EscrowObject) : Int := e.xgtBalance.amount + e.pendingFee.amount

def Objects.amountPaid (payments : List (WalletName × Asset)) : Int := (payments.map fun p => p.2.amount).sum

namespace EscrowObject

variable {e a : EscrowObject} {now : TimePointSec} {op : Operation}

theorem amountPaid_payments
    (hfee : e.isApproved = true → e.pendingFee.amount = 0) (hpermits : e.Permits now op) :
    amountPaid (e.payments op) + ((e.after op).map heldXgt).getD 0 = e.heldXgt := by
  cases op with
  | escrowApprove o =>
    cases happrove : o.approve with
    | false =>
      obtain ⟨hafter, hpayments⟩ := after_refused happrove (e := e)
      simp [hafter, hpayments, amountPaid, heldXgt]
    | true =>
      cases hboth : (e.approve o).isApproved with
      | true =>
        obtain ⟨hafter, hpayments⟩ := after_ratified happrove hboth
        simp [hafter, hpayments, amountPaid, heldXgt, approve]
        omega
      | false =>
        obtain ⟨hafter, hpayments⟩ := after_approved happrove hboth
        simp [hafter, hpayments, amountPaid, heldXgt, approve]
  | escrowDispute o => simp [payments, after, amountPaid, heldXgt]
  | escrowRelease o =>
    have hpaid := hfee hpermits.approved
    by_cases hzero : e.xgtBalance.amount - o.xgtAmount.amount = 0
    · simp [after_released hzero, payments, amountPaid, heldXgt]
      omega
    · simp [after_reduced hzero, payments, amountPaid, heldXgt]
      omega
  | _ => exact hpermits.elim

theorem after_held (hbalance : e.xgtBalance.Held) (hfee : e.pendingFee.Held) (hpermits : e.Permits now op)
    (hafter : e.after op = some a) : a.xgtBalance.Held ∧ a.pendingFee.Held := by
  unfold after at hafter
  split at hafter
  · split_ifs at hafter <;> cases hafter
    · exact ⟨hbalance, hfee.symbol, le_rfl⟩
    · exact ⟨hbalance, hfee⟩
  · cases hafter
    exact ⟨hbalance, hfee⟩
  · split_ifs at hafter
    cases hafter
    exact ⟨⟨hbalance.symbol, Int.sub_nonneg.2 hpermits.covered⟩, hfee⟩
  · cases hafter
    exact ⟨hbalance, hfee⟩

theorem after_feePaid (hfee : e.isApproved = true → e.pendingFee.amount = 0)
    (hafter : e.after op = some a) : a.isApproved = true → a.pendingFee.amount = 0 := by
  unfold after at hafter
  split at hafter
  · split_ifs at hafter with _ hboth <;> cases hafter
    · exact fun _ => rfl
    · exact fun happroved => absurd happroved hboth
  · cases hafter
    exact hfee
  · split_ifs at hafter
    cases hafter
    exact hfee
  · cases hafter
    exact hfee

end EscrowObject

namespace Objects

variable {s s' s'' : Objects} {m n : Int}
variable {cr : Crypto} {env : Env} {o : EscrowTransferOperation} {op : Operation} {t : ObjectIndex EscrowObject}
  {c : RowCall EscrowObject} {worker : WalletName} {e : EscrowObject} {u : Objects}

def totalXgt (s : Objects) : Int :=
  s.wallets.sumBy (fun w => w.balance.amount) + s.escrows.sumBy EscrowObject.heldXgt +
    s.xttIcos.sumBy fun i => i.contributed.amount

/-- Every balance is an amount of XGT that is not negative. -/
structure Sound (s : Objects) : Prop where
  wallets : ∀ w ∈ s.wallets.objects, w.balance.Held
  escrows : ∀ e ∈ s.escrows.objects, e.xgtBalance.Held ∧ e.pendingFee.Held
  icos : ∀ i ∈ s.xttIcos.objects, i.contributed.symbol = xgtSymbol

def Moves (n : Int) (s s' : Objects) : Prop := s.Sound → s'.Sound ∧ s'.totalXgt = s.totalXgt + n

theorem Moves.refl : Moves 0 s s := fun h => ⟨h, (Int.add_zero _).symm⟩

theorem Moves.trans (h : Moves m s s') (h' : Moves n s' s'') : Moves (m + n) s s'' := by
  intro hs
  obtain ⟨hs', htotal⟩ := h hs
  obtain ⟨hs'', htotal'⟩ := h' hs'
  refine ⟨hs'', ?_⟩
  rw [htotal', htotal, Int.add_assoc]

theorem Moves.of_eq (h : Moves m s s') (heq : s.Sound → m = n) : Moves n s s' :=
  fun hs => heq hs ▸ h hs

theorem moves_wallet {c : RowCall WalletObject} {t : ObjectIndex WalletObject}
    (h : c.Runs s.wallets t) (hc : s.Sound → c.Writes fun w => w.balance.Held) :
    Moves (c.delta fun w => w.balance.amount) s { s with wallets := t } := by
  intro hs
  refine ⟨{ hs with wallets := h.forall_objects (hc hs) hs.wallets }, ?_⟩
  simp only [totalXgt, h.sumBy]
  omega

theorem moves_escrow (h : c.Runs s.escrows t)
    (hc : s.Sound → c.Writes fun e => e.xgtBalance.Held ∧ e.pendingFee.Held) :
    Moves (c.delta EscrowObject.heldXgt) s { s with escrows := t } := by
  intro hs
  refine ⟨{ hs with escrows := h.forall_objects (hc hs) hs.escrows }, ?_⟩
  simp only [totalXgt, h.sumBy]
  omega

theorem moves_ico {c : RowCall XttIcoObject} {t : ObjectIndex XttIcoObject}
    (h : c.Runs s.xttIcos t) (hc : s.Sound → c.Writes fun i => i.contributed.symbol = xgtSymbol) :
    Moves (c.delta fun i => i.contributed.amount) s { s with xttIcos := t } := by
  intro hs
  refine ⟨{ hs with icos := h.forall_objects (hc hs) hs.icos }, ?_⟩
  simp only [totalXgt, h.sumBy]
  omega

theorem Does.moves (h : Does Call.Still s s') : Moves 0 s s' := by
  refine h.lift (R := Moves 0) (fun _ => .refl) (fun h h' => h.trans h') ?_
  intro s s' c hc hrun
  cases hrun with
  | wallet h =>
    refine (moves_wallet h fun hs => ?_).of_eq fun _ => ?_
    · cases h with
      | create h => exact ⟨congrArg symbol hc, (congrArg amount hc).ge⟩
      | modify hrow h _ =>
        have hold := of_row hs.wallets hrow
        exact ⟨(congrArg symbol hc).trans hold.symbol,
          hold.nonneg.trans_eq (congrArg amount hc).symm⟩
      | remove hrow => exact hc.elim
    · cases h with
      | create h => exact congrArg amount hc
      | modify hrow h _ => exact Int.sub_eq_zero.2 (congrArg amount hc)
      | remove hrow => exact hc.elim
  | xttIco h =>
    refine (moves_ico h fun hs => ?_).of_eq fun _ => ?_
    · cases h with
      | create h => exact congrArg symbol hc
      | modify hrow h _ | remove hrow => exact hc.elim
    · cases h with
      | create h => exact congrArg amount hc
      | modify hrow h _ | remove hrow => exact hc.elim
  | escrow h => exact hc.elim
  | _ => exact fun hs => ⟨⟨hs.wallets, hs.escrows, hs.icos⟩, (Int.add_zero _).symm⟩

theorem adjustBalance_moves {name : WalletName} {delta : Asset}
    (h : s.adjustBalance name delta = .ok s') : Moves delta.xgtAmount s s' := by
  rcases adjustBalance_cases (mem_singleton_self _) h with ⟨hsym, htoken⟩ | ⟨hsym, hmod⟩
  · refine (htoken.mono fun _ hc => hc.1.idle.still).moves.of_eq fun _ => ?_
    rw [xgtAmount, if_neg hsym]
  · obtain ⟨w, wallets, hw, hsame, hpos, hwallet, rfl⟩ := modifyBalance_ok hmod
    refine (moves_wallet (.modify (of_getRow hw).1 hwallet fun _ => rfl) fun _ => ?_).of_eq fun _ => ?_
    · exact ⟨hsame.trans hsym, hpos⟩
    · rw [xgtAmount_eq hsym]
      simp only [RowCall.delta, WalletObject.withAmount]
      omega

/-! ## Escrows

An escrow pays its fee when the second of its parties approves it. It is released only after that,
so nothing is lost when its row goes. -/

def FeesPaid (s : Objects) : Prop :=
  ∀ e ∈ s.escrows.objects, (e.toApproved && e.agentApproved) = true → e.pendingFee.amount = 0

theorem FeesPaid.of_escrows (h : s.FeesPaid) (heq : s'.escrows = s.escrows) : s'.FeesPaid := by
  unfold FeesPaid
  rw [heq]
  exact h

theorem FeesPaid.call (hs : s.FeesPaid) (h : c.Runs s.escrows t)
    (hc : c.Writes fun e => (e.toApproved && e.agentApproved) = true → e.pendingFee.amount = 0) :
    ({ s with escrows := t } : Objects).FeesPaid :=
  h.forall_objects hc hs

theorem EscrowTransferOperation.held_of_validate
    (h : o.validate cr = .ok ()) : o.xgtAmount.Held ∧ o.fee.Held := by
  unfold EscrowTransferOperation.validate at h
  iterate 3 obtain ⟨_, -, h⟩ := of_bind h
  obtain ⟨_, hfee, h⟩ := of_bind h
  obtain ⟨_, hamount, h⟩ := of_bind h
  iterate 2 obtain ⟨_, -, h⟩ := of_bind h
  obtain ⟨_, hfeeSym, h⟩ := of_bind h
  obtain ⟨_, hamountSym, -⟩ := of_bind h
  exact ⟨⟨by simpa using hamountSym, by simpa using hamount⟩, ⟨by simpa using hfeeSym, by simpa using hfee⟩⟩

theorem applyEscrowTransfer_moves
    (hvalid : o.validate cr = .ok ()) (h : s.applyEscrowTransfer o = .ok s') : Moves 0 s s' := by
  obtain ⟨hamount, hfee⟩ := EscrowTransferOperation.held_of_validate hvalid
  obtain ⟨spent, s1, escrows, hspent, hpaid, hnew, rfl⟩ := applyEscrowTransfer_ok h
  unfold escrowSpent at hspent
  rw [if_pos hfee.symbol] at hspent
  obtain ⟨-, rfl⟩ := of_assetAdd hspent
  refine ((adjustBalance_moves hpaid).trans
    (moves_escrow (.create hnew) fun _ => ⟨hamount, hfee⟩)).of_eq fun _ => ?_
  rw [xgtAmount_eq (by exact hamount.symbol)]
  simp only [RowCall.delta, EscrowObject.heldXgt]
  omega

theorem applyEscrowTransfer_feesPaid (hfees : s.FeesPaid)
    (h : s.applyEscrowTransfer o = .ok s') : s'.FeesPaid := by
  obtain ⟨spent, s1, escrows, -, hpaid, hnew, rfl⟩ := applyEscrowTransfer_ok h
  obtain ⟨_, _, _, rfl⟩ := adjustBalance_eq hpaid
  exact (hfees.of_escrows rfl).call (.create hnew) nofun

theorem pay_moves {l : List (WalletName × Asset)} (h : s.pay l = .ok s') :
    Moves (l.map fun p => p.2.xgtAmount).sum s s' := by
  induction l generalizing s with
  | nil =>
    cases h
    exact .refl
  | cons p l ih =>
    obtain ⟨s1, hfirst, hrest⟩ := foldlM_cons_ok_iff.1 h
    exact ((adjustBalance_moves hfirst).trans (ih hrest)).of_eq fun _ => (sum_cons ..).symm

theorem Answers.moves {i : Nat} (h : Answers s op s' i e u) (hfees : s.FeesPaid) : Moves 0 s s' := by
  have hrow := (of_namedEscrow h.named).1
  obtain ⟨t, hruns, rfl⟩ := h.call
  intro hs
  obtain ⟨hbalance, hfee⟩ := of_row hs.escrows hrow
  refine ((pay_moves h.paid).trans (moves_escrow hruns fun _ => ?_)).of_eq (fun _ => ?_) hs
  · exact call_writes fun a ha => after_held hbalance hfee h.permits ha
  · have hsymbol := payments_symbol hbalance.symbol hfee.symbol h.permits
    have htotal := amountPaid_payments (of_row hfees hrow) h.permits
    rw [map_congr_left fun p hp => xgtAmount_eq (hsymbol p hp), call_delta]
    unfold amountPaid at htotal
    omega

theorem Answers.feesPaid {i : Nat} (h : Answers s op s' i e u) (hfees : s.FeesPaid) : s'.FeesPaid := by
  have hrow := (of_namedEscrow h.named).1
  have hpaid : u.FeesPaid := hfees.of_escrows (pay_escrows h.paid)
  obtain ⟨t, hruns, rfl⟩ := h.call
  exact hpaid.call hruns (call_writes fun a ha => after_feePaid (of_row hfees hrow) ha)

theorem applyTransfer_moves {o : TransferOperation} (h : s.applyTransfer env o = .ok s') :
    Moves 0 s s' := by
  obtain ⟨s1, s2, hnew, hspent, hpaid⟩ := applyTransfer_ok h
  refine ((createReceiver_still hnew).all.moves.trans
    ((adjustBalance_moves hspent).trans (adjustBalance_moves hpaid))).of_eq fun _ => ?_
  rw [xgtAmount_neg]
  omega

theorem applyXttCreate_moves {o : XttCreateOperation}
    (h : s.applyXttCreate env o = .ok s') : Moves 0 s s' := by
  obtain ⟨token, s1, tokens, pool, htoken, hpaid, hnew, rfl⟩ := applyXttCreate_ok h
  have hcreate : Does Call.Still s1 { s1 with xttTokens := tokens, naiPool := pool } :=
    .trans (.call (.xttToken (.create hnew)) trivial) (.call (.naiPool pool) trivial)
  refine .trans (m := 0) ?_ hcreate.moves
  rcases payOrResetXtt_ok hpaid with ⟨-, -, s2, hspent, hnull⟩ | ⟨t, rfl, -, rfl⟩
  · refine ((adjustBalance_moves hspent).trans (adjustBalance_moves hnull)).of_eq fun _ => ?_
    rw [xgtAmount_neg]
    omega
  · exact (Does.call (.xttToken (.remove (of_findTokenAgnostic htoken))) trivial).moves

theorem applyXttContribute_moves {o : XttContributeOperation}
    (h : s.applyXttContribute o = .ok s') : Moves 0 s s' := by
  obtain ⟨ico, cap, contributed, s1, contributions, icos, ⟨hico, -⟩, hadd, -, hpaid, hnew, hmod, rfl⟩ :=
    applyXttContribute_ok h
  obtain ⟨hsym, rfl⟩ := of_assetAdd hadd
  have hmove := adjustBalance_moves hpaid
  obtain ⟨_, _, _, rfl⟩ := adjustBalance_eq hpaid
  have hrecord := hmove.trans (Does.moves (.call (.xttContribution (.create hnew)) trivial))
  refine (hrecord.trans (moves_ico (.modify hico hmod fun _ => rfl) fun hs => ?_)).of_eq fun hs => ?_
  · exact (of_row hs.icos hico :)
  · rw [xgtAmount_eq (by exact hsym.symm.trans (of_row hs.icos hico :))]
    simp only [RowCall.delta]
    omega

def powReward (s : Objects) (o : PowOperation) : Int :=
  if s.headBlockNum < 2116800 ∧
      (if (s.findAccount o.getWorkerName).isSome then (s.findWitness o.getWorkerName).isSome
        else o.newRecoveryKey.isSome) then (miningReward s.headBlockNum).amount
  else 0

theorem applyPow_moves {o : PowOperation} (h : s.applyPow env o = .ok s') :
    Moves (s.powReward o) s s' := by
  obtain ⟨u, hstill, hpaid⟩ := applyPow_rewards h
  have hreward : s.powReward o = if s.earnsReward o then (miningReward s.headBlockNum).amount else 0 := by
    simp [powReward, earnsReward]
  rw [hreward]
  split_ifs at hpaid ⊢
  · refine (hstill.all.moves.trans (adjustBalance_moves hpaid)).of_eq fun _ => ?_
    rw [xgtAmount_eq rfl, Int.zero_add]
  · exact hpaid ▸ hstill.all.moves

def operationReward (s : Objects) : Operation → Int
  | .pow o => s.powReward o
  | _ => 0

theorem applyOperation_moves (hvalid : op.validate cr = .ok ()) (hfees : s.FeesPaid)
    (h : s.applyOperation cr env op = .ok s') : Moves (s.operationReward op) s s' := by
  cases op with
  | comment o => exact (applyComment_idle h).kind.still.moves
  | transfer o => exact applyTransfer_moves h
  | walletCreate o => exact (createWallet_still h).all.moves
  | walletUpdate o => exact (applyWalletUpdate_still h).all.moves
  | witnessUpdate o => exact (applyWitnessUpdate_idle h).all.still.moves
  | custom o => exact applyCustom_eq h ▸ .refl
  | reportOverProduction o =>
    cases h
    exact .refl
  | deleteComment o => exact (applyDeleteComment_idle h).all.still.moves
  | customJson o => exact applyCustomJson_eq h ▸ .refl
  | commentOptions o => exact (applyCommentOptions_idle h).all.still.moves
  | escrowTransfer o => exact applyEscrowTransfer_moves hvalid h
  | escrowApprove o | escrowDispute o | escrowRelease o =>
    obtain ⟨_, _, _, hanswers⟩ := applyOperation_answers rfl h
    exact hanswers.moves hfees
  | pow o => exact applyPow_moves h
  | vote o => exact applyVote_eq h ▸ .refl
  | xttSetup o => exact (applyXttSetup_idle h).all.still.moves
  | xttSetupIcoTier o => exact (applyXttSetupIcoTier_idle h).all.still.moves
  | xttSetSetupParameters o => exact (applyXttSetSetupParameters_ok h).idle.all.still.moves
  | xttSetRuntimeParameters o => exact (applyXttSetRuntimeParameters_ok h).idle.all.still.moves
  | xttCreate o => exact applyXttCreate_moves h
  | xttContribute o => exact applyXttContribute_moves h
  | contractCreate o => exact (applyContractCreate_idle h).all.still.moves
  | contractInvoke o =>
    cases h
    exact .refl
  | _ => cases h

theorem applyOperation_feesPaid (hfees : s.FeesPaid)
    (h : s.applyOperation cr env op = .ok s') : s'.FeesPaid := by
  by_cases hop : op.isEscrow = false
  · exact hfees.of_escrows (applyOperation_escrows hop h)
  · cases op with
    | escrowTransfer o => exact applyEscrowTransfer_feesPaid hfees h
    | escrowApprove o | escrowDispute o | escrowRelease o =>
      obtain ⟨_, _, _, hanswers⟩ := applyOperation_answers rfl h
      exact hanswers.feesPaid hfees
    | _ => exact absurd rfl hop

/-- Sound balances, and no agent still to be paid for an approved escrow. -/
structure Ledger (s : Objects) : Prop where
  sound : s.Sound
  feesPaid : s.FeesPaid

/-! ## Blocks -/

section Blocks

variable {P : Params} {cr : Crypto} {env : Env} {b : SignedBlock}

def stepRewards (steps : List OpStep) : Int :=
  (steps.map fun step => step.1.operationReward step.2).sum

def minerReward (b : SignedBlock) : Int :=
  if 2116800 ≤ b.blockNum ∧ (firstPow b).isSome then (miningReward b.blockNum).amount else 0

def minedXgt (P : Params) (env : Env) (s : Objects) (b : SignedBlock) : Int :=
  stepRewards (s.blockSteps P env b) + minerReward b

def transacted (P : Params) (env : Env) (s : Objects) (b : SignedBlock) : Result Objects := do
  let s ← s.processHeaderExtensions b
  s.applyTransactions P.toCrypto env b.transactions

def nullBalance (s : Objects) : Int :=
  ((s.findAccount xgtNullWallet).map fun w => w.2.balance.amount).getD 0

structure Booked (steps : List OpStep) (s s' : Objects) : Prop where
  ledger : s'.Ledger
  total : s'.totalXgt = s.totalXgt + stepRewards steps
  steps : ∀ step ∈ steps, step.1.Ledger

theorem Booked.nil (h : s.Ledger) : Booked [] s s :=
  ⟨h, (Int.add_zero _).symm, fun _ hmem => absurd hmem not_mem_nil⟩

theorem Booked.append {l l' : List OpStep} (h : Booked l s s') (h' : Booked l' s' s'') :
    Booked (l ++ l') s s'' where
  ledger := h'.ledger
  total := by
    rw [h'.total, h.total, stepRewards, stepRewards, stepRewards, map_append, sum_append,
      Int.add_assoc]
  steps step hstep := (mem_append.1 hstep).elim (h.steps step) (h'.steps step)

theorem applyOperations_booked {ops : List Operation} (hs : s.Ledger)
    (hvalid : ∀ op ∈ ops, op.validate cr = .ok ()) (h : s.applyOperations cr env ops = .ok s') :
    Booked (operationSteps cr env s ops) s s' := by
  induction ops generalizing s with
  | nil =>
    cases h
    exact .nil hs
  | cons op ops ih =>
    obtain ⟨s1, hop, hrest⟩ := foldlM_cons_ok_iff.1 h
    rw [plainError_ok_iff] at hop
    obtain ⟨hsound, htotal⟩ := applyOperation_moves (hvalid op (.head _)) hs.feesPaid hop hs.sound
    have hfirst : Booked [(s, op)] s s1 := by
      refine ⟨⟨hsound, applyOperation_feesPaid hs.feesPaid hop⟩, ?_, fun step hstep => ?_⟩
      · simpa [stepRewards] using htotal
      · rw [mem_singleton.1 hstep]
        exact hs
    rw [operationSteps, hop]
    exact hfirst.append (ih hfirst.ledger (fun op' hop' => hvalid op' (.tail _ hop')) hrest)

theorem applyTransactions_booked {txs : List SignedTransaction} (hskip : env.skip = skipNothing)
    (hs : s.Ledger) (h : s.applyTransactions cr env txs = .ok s') :
    Booked (transactionSteps cr env s txs) s s' := by
  induction txs generalizing s with
  | nil =>
    cases h
    exact .nil hs
  | cons t txs ih =>
    obtain ⟨s1, htx, hrest⟩ := foldlM_cons_ok_iff.1 h
    obtain ⟨hvalid, -, -, -, u, hrecord, hops⟩ := applyTransaction_ok hskip htx
    obtain ⟨_, -, hvalid⟩ := of_bind hvalid
    have hstill := recordTransaction_still hrecord
    obtain ⟨hsound, htotal⟩ := hstill.moves hs.sound
    have hbooked := applyOperations_booked ⟨hsound, hs.feesPaid.of_escrows hstill.escrows_of_still⟩
      (forM_ok_iff.1 hvalid) hops
    have hfirst : Booked (operationSteps cr env u t.operations) s s1 :=
      ⟨hbooked.ledger, by rw [hbooked.total, htotal, Int.add_zero], hbooked.steps⟩
    rw [transactionSteps, hrecord, htx]
    exact hfirst.append (ih hfirst.ledger hrest)

theorem transacted_booked (hskip : env.skip = skipNothing) (hs : s.Ledger)
    (h : s.transacted P env b = .ok s') : Booked (s.blockSteps P env b) s s' := by
  obtain ⟨s1, hheader, htxs⟩ := of_bind h
  have hstill := (processHeaderExtensions_idle hheader).still
  obtain ⟨hsound, htotal⟩ := hstill.moves hs.sound
  have hbooked := applyTransactions_booked hskip ⟨hsound, hs.feesPaid.of_escrows hstill.escrows_of_still⟩ htxs
  rw [blockSteps, hheader]
  exact ⟨hbooked.ledger, by rw [hbooked.total, htotal, Int.add_zero], hbooked.steps⟩

theorem clearNullWalletBalance_moves (h : s.clearNullWalletBalance = .ok s') :
    Moves (-s.nullBalance) s s' := by
  obtain ⟨w, hw, h⟩ := clearNullWalletBalance_ok h
  have hnull : s.nullBalance = w.2.balance.amount := by
    rw [nullBalance, getRow_ok_iff.1 hw]
    rfl
  rw [hnull]
  rcases h with ⟨hle, rfl⟩ | ⟨wallets, hmod, rfl⟩
  · refine Moves.refl.of_eq fun hs => ?_
    have hnonneg := (of_row hs.wallets (of_getRow hw).1).nonneg
    omega
  · refine (moves_wallet (.modify (of_getRow hw).1 hmod fun _ => rfl) fun hs => ?_).of_eq fun _ => ?_
    · exact ⟨(of_row hs.wallets (of_getRow hw).1).symbol, le_rfl⟩
    · exact Int.zero_sub _

theorem rewardMiner_moves (h : s.rewardMiner b = .ok s') (hhead : s.headBlockNum = b.blockNum) :
    Moves (minerReward b) s s' := by
  unfold minerReward
  rw [← hhead]
  rcases rewardMiner_ok h with ⟨hnum, o, worker, ho, hpaid⟩ | ⟨hnone, rfl⟩
  · rw [if_pos ⟨hnum, by rw [ho]; rfl⟩]
    exact (adjustBalance_moves hpaid).of_eq fun _ => xgtAmount_eq rfl
  · rw [if_neg hnone]
    exact .refl

theorem applyBlock_booked (hskip : env.skip = skipNothing) (hs : s.Ledger)
    (h : s.applyBlock P env b = .ok s') :
    s'.Ledger ∧ (∀ step ∈ s.blockSteps P env b, step.1.Ledger) ∧
      ∃ u, s.transacted P env b = .ok u ∧
        s'.totalXgt = s.totalXgt + s.minedXgt P env b - u.nullBalance := by
  obtain ⟨s1, u, hheader, -, htxs, hfinish⟩ := applyBlock_ok h
  obtain ⟨u1, u2, hclear, hreward, hadjust⟩ := finishBlock_ok hfinish
  obtain ⟨target, rfl⟩ := adjustDifficulty_eq hadjust
  have htransacted : s.transacted P env b = .ok u := bind_ok hheader htxs
  have hbooked := transacted_booked hskip hs htransacted
  have hhead : u1.headBlockNum = b.blockNum :=
    congrArg (fun f => f.1.headBlockNumber) (clearNullWalletBalance_frame hclear)
  have hadvance : Does Call.Still u (u.advance P.toCrypto b) := advance_still P.toCrypto
  have htarget : Does Call.Still u2 { u2 with dgp := { u2.dgp with miningTarget := target } } :=
    .call (.dgp fun d => { d with miningTarget := target }) fun _ => rfl
  have hmoves := hadvance.moves.trans ((clearNullWalletBalance_moves hclear).trans
    ((rewardMiner_moves hreward hhead).trans htarget.moves))
  obtain ⟨hsound, htotal⟩ := hmoves hbooked.ledger.sound
  have hescrows := finishBlock_escrows hfinish
  refine ⟨⟨hsound, hbooked.ledger.feesPaid.of_escrows hescrows⟩, hbooked.steps, u, htransacted, ?_⟩
  have hnull : (u.advance P.toCrypto b).nullBalance = u.nullBalance := rfl
  rw [htotal, hbooked.total, minedXgt, hnull]
  omega

end Blocks

end Objects

section Chains

variable {P : Params} {s : Objects} {blocks : List SignedBlock}

theorem genesis_ledger (key : PublicKey) : (genesis key).Ledger := by
  have hwallets : (genesis key).wallets.objects =
      [{ name := xgtMinerWallet },
       { name := xgtInitMinerName, memoKey := key, balance := .xgt xgtInitSupply },
       { name := xgtNullWallet },
       { name := xgtTreasuryWallet },
       { name := xgtTempWallet }] := rfl
  refine ⟨⟨fun w hw => ?_, fun e he => ?_, fun i hi => ?_⟩, fun e he => ?_⟩
  · have hheld : w.balance = .xgt 0 ∨ w.balance = .xgt xgtInitSupply := by
      rw [hwallets] at hw
      simp only [mem_cons, not_mem_nil, or_false] at hw
      rcases hw with rfl | rfl | rfl | rfl | rfl
      all_goals first | exact .inl rfl | exact .inr rfl
    rcases hheld with h | h <;> rw [h]
    · exact ⟨rfl, by decide⟩
    · exact ⟨rfl, by decide⟩
  · exact absurd he not_mem_nil
  · exact absurd hi not_mem_nil
  · exact absurd he not_mem_nil

theorem AcceptedChain.ledger (h : AcceptedChain P blocks s) : s.Ledger := by
  induction h with
  | genesis => exact genesis_ledger _
  | block _ hskip _ hb ih => exact (applyBlock_booked hskip ih hb).1

theorem AcceptedChain.totalXgt_block (h : AcceptedChain P blocks s) :
    s.Sound ∧ ∀ (env : Env) (b : SignedBlock) (s' : Objects), env.skip = skipNothing →
      s.applyBlock P env b = .ok s' →
      s'.Sound ∧ (∀ step ∈ s.blockSteps P env b, step.1.Sound) ∧
        ∃ u, s.transacted P env b = .ok u ∧
          s'.totalXgt = s.totalXgt + s.minedXgt P env b - u.nullBalance := by
  refine ⟨h.ledger.sound, fun env b s' hskip hb => ?_⟩
  obtain ⟨hledger, hsteps, htotal⟩ := applyBlock_booked hskip h.ledger hb
  exact ⟨hledger.sound, fun step hstep => (hsteps step hstep).sound, htotal⟩

def burnBlock : SignedBlock :=
  toyBlock .zero 3
    [toyTransaction 0 [.transfer { toyTransfer with toWallet := xgtNullWallet }] [1]]

def workBlock : SignedBlock :=
  toyBlock (toyId burnBlock) 6
    [toyTransaction 1 [.pow (toyPow (toyId burnBlock) (toyId burnBlock))] [1]]

theorem totalXgt_workBlock :
    ∃ s s', AcceptedChain toyParams [burnBlock] s ∧ s.totalXgt = xgtInitSupply - 1 ∧
      s.applyBlock toyParams toyEnv workBlock = .ok s' ∧
      s.minedXgt toyParams toyEnv workBlock = 4166166 ∧
      ∃ u, s.transacted toyParams toyEnv workBlock = .ok u ∧
        s'.totalXgt = s.totalXgt + s.minedXgt toyParams toyEnv workBlock - u.nullBalance := by
  have hrun : (runBlocks toyParams toyEnv [burnBlock]).toOption.any (fun s =>
      s.totalXgt = xgtInitSupply - 1 && s.minedXgt toyParams toyEnv workBlock = 4166166 &&
      (s.applyBlock toyParams toyEnv workBlock).toOption.any fun _ => true) = true := by
    decide +kernel
  obtain ⟨s, hs, hnext⟩ := exists_ok_of_any hrun
  simp only [Bool.and_eq_true, decide_eq_true_eq] at hnext
  obtain ⟨⟨hburned, hmined⟩, hblock⟩ := hnext
  obtain ⟨s', hs', -⟩ := exists_ok_of_any hblock
  have hchain := acceptedChain_of_runBlocks rfl (by decide) hs
  exact ⟨s, s', hchain, hburned, hs', hmined, (hchain.totalXgt_block.2 _ _ _ rfl hs').2.2⟩

end Chains

/-! ## The stored supply -/

namespace Objects

variable {s s' : Objects} {P : Params} {env : Env} {b : SignedBlock}

theorem applyBlock_currentSupply (h : s.applyBlock P env b = .ok s') :
    s'.dgp.currentSupply = s.dgp.currentSupply := by
  refine (applyBlock_calls h).lift (R := fun s s' => s'.dgp.currentSupply = s.dgp.currentSupply)
    (fun _ => rfl) (fun h h' => h'.trans h) ?_
  intro s s' c hc hrun
  cases hrun with
  | dgp f => exact hc _
  | _ => rfl

end Objects

section Supply

variable {P : Params} {s : Objects} {blocks : List SignedBlock}

/-- A chain on which each block burns what it mines. -/
inductive SteadyChain (P : Params) : List SignedBlock → Objects → Prop where
  | genesis : SteadyChain P [] (genesis P.initPublicKey)
  | block {blocks : List SignedBlock} {s s' u : Objects} {env : Env} {b : SignedBlock}
      (h : SteadyChain P blocks s) (hskip : env.skip = skipNothing) (hnum : 0 < b.blockNum)
      (hb : s.applyBlock P env b = .ok s') (hu : s.transacted P env b = .ok u)
      (heven : s.minedXgt P env b = u.nullBalance) : SteadyChain P (blocks ++ [b]) s'

theorem SteadyChain.accepted (h : SteadyChain P blocks s) : AcceptedChain P blocks s := by
  induction h with
  | genesis => exact .genesis
  | block _ hskip hnum hb _ _ ih => exact .block ih hskip hnum hb

theorem AcceptedChain.supply_block {env : Env} {b : SignedBlock} {s' : Objects}
    (h : AcceptedChain P blocks s) (hsupply : s.dgp.currentSupply = .xgt s.totalXgt)
    (hskip : env.skip = skipNothing) (hb : s.applyBlock P env b = .ok s') :
    ∃ u, s.transacted P env b = .ok u ∧
      (s'.dgp.currentSupply = .xgt s'.totalXgt ↔ s.minedXgt P env b = u.nullBalance) := by
  obtain ⟨-, -, u, hu, htotal⟩ := applyBlock_booked hskip h.ledger hb
  refine ⟨u, hu, ?_⟩
  rw [applyBlock_currentSupply hb, hsupply, htotal, Asset.xgt, Asset.xgt, Asset.mk.injEq]
  constructor
  · rintro ⟨h, -⟩
    omega
  · intro h
    exact ⟨by omega, rfl⟩

theorem SteadyChain.currentSupply_eq_totalXgt (h : SteadyChain P blocks s) :
    s.dgp.currentSupply = .xgt s.totalXgt ∧
      ∀ (env : Env) (b : SignedBlock) (s' : Objects), env.skip = skipNothing →
        s.applyBlock P env b = .ok s' → ∃ u, s.transacted P env b = .ok u ∧
          (s'.dgp.currentSupply = .xgt s'.totalXgt ↔ s.minedXgt P env b = u.nullBalance) := by
  have hsupply : s.dgp.currentSupply = .xgt s.totalXgt := by
    induction h with
    | genesis => rfl
    | block h hskip _ hb hu heven ih =>
      obtain ⟨u', hu', hiff⟩ := h.accepted.supply_block ih hskip hb
      cases hu.symm.trans hu'
      exact hiff.2 heven
  exact ⟨hsupply, fun env b s' hskip hb => h.accepted.supply_block hsupply hskip hb⟩

def emptyBlock : SignedBlock := toyBlock .zero 3

/-- Mines 4166166 units and sends as many to the null wallet. -/
def evenBlock : SignedBlock :=
  let parent := toyId emptyBlock
  toyBlock parent 6
    [toyTransaction 0 [.pow (toyPow parent parent)] [1],
      toyTransaction 1
        [.transfer { toyTransfer with toWallet := xgtNullWallet, amount := .xgt 4166166 }] [1]]

theorem steadyChain_evenBlock :
    ∃ s s', SteadyChain toyParams [emptyBlock] s ∧ SteadyChain toyParams [emptyBlock, evenBlock] s' ∧
      s.minedXgt toyParams toyEnv evenBlock = 4166166 ∧
      s'.dgp.currentSupply = .xgt s'.totalXgt := by
  have hfirst : ((genesis ⟨1⟩).applyBlock toyParams toyEnv emptyBlock).toOption.any (fun s =>
      s.minedXgt toyParams toyEnv evenBlock = 4166166 &&
      (s.applyBlock toyParams toyEnv evenBlock).toOption.any (fun _ => true) &&
      (s.transacted toyParams toyEnv evenBlock).toOption.any
        (·.nullBalance = 4166166)) = true := by decide +kernel
  have hempty : ((genesis ⟨1⟩).transacted toyParams toyEnv emptyBlock).toOption.any
      (fun u => (genesis ⟨1⟩).minedXgt toyParams toyEnv emptyBlock = u.nullBalance) = true := by
    decide +kernel
  obtain ⟨s, hs, hnext⟩ := exists_ok_of_any hfirst
  obtain ⟨u, hu, hnone⟩ := exists_ok_of_any hempty
  simp only [Bool.and_eq_true, decide_eq_true_eq] at hnext
  obtain ⟨⟨hmined, hblock⟩, hburned⟩ := hnext
  obtain ⟨s', hs', -⟩ := exists_ok_of_any hblock
  obtain ⟨u', hu', hnull⟩ := exists_ok_of_any hburned
  have hsteady := SteadyChain.genesis.block rfl (by decide) hs hu (of_decide_eq_true hnone)
  have heven := hsteady.block rfl (by decide) hs' hu' (hmined.trans (of_decide_eq_true hnull).symm)
  exact ⟨s, s', hsteady, heven, hmined, heven.currentSupply_eq_totalXgt.1⟩

theorem currentSupply_ne_totalXgt :
    (∃ s, AcceptedChain toyParams [burnBlock] s ∧ s.dgp.currentSupply = .xgt (s.totalXgt + 1)) ∧
      ∃ s, AcceptedChain toyParams [burnBlock, workBlock] s ∧
        s.dgp.currentSupply = .xgt (s.totalXgt + 1 - 4166166) := by
  have hburn : (runBlocks toyParams toyEnv [burnBlock]).toOption.any (fun s =>
      s.dgp.currentSupply = .xgt (s.totalXgt + 1)) = true := by decide +kernel
  have hwork : (runBlocks toyParams toyEnv [burnBlock, workBlock]).toOption.any (fun s =>
      s.dgp.currentSupply = .xgt (s.totalXgt + 1 - 4166166)) = true := by decide +kernel
  obtain ⟨s, hs, hsupply⟩ := exists_ok_of_any hburn
  obtain ⟨s', hs', hsupply'⟩ := exists_ok_of_any hwork
  exact ⟨⟨s, acceptedChain_of_runBlocks rfl (by decide) hs, of_decide_eq_true hsupply⟩,
    ⟨s', acceptedChain_of_runBlocks rfl (by decide) hs', of_decide_eq_true hsupply'⟩⟩

end Supply

end Xgt
