import XgtChain.Chain.EvaluatorSteps

/-!
# What an operation does to one escrow

`EscrowObject.after`, `payments` and `Permits` say what one escrow is after an operation on it, whom the
operation pays, and when the escrow permits it.
-/

namespace Xgt

open Base ObjectIndex EscrowObject

/-! ## One escrow -/

def Operation.escrowKey? : Operation → Option (WalletName × Nat)
  | .escrowApprove o | .escrowDispute o | .escrowRelease o => some (o.fromWallet, o.escrowId)
  | _ => none

namespace EscrowObject

def isApproved (e : EscrowObject) : Bool := e.toApproved && e.agentApproved

def approve (e : EscrowObject) (o : EscrowApproveOperation) : EscrowObject :=
  { e with
    toApproved := e.toApproved || o.who = o.toWallet
    agentApproved := e.agentApproved || o.who = o.agent }

def after (e : EscrowObject) : Operation → Option EscrowObject
  | .escrowApprove o =>
    if o.approve then
      if (e.approve o).isApproved then
        some { e.approve o with pendingFee := { e.pendingFee with amount := 0 } }
      else some (e.approve o)
    else none
  | .escrowDispute _ => some { e with disputed := true }
  | .escrowRelease o =>
    if e.xgtBalance.amount - o.xgtAmount.amount = 0 then none
    else some { e with
      xgtBalance := { e.xgtBalance with amount := e.xgtBalance.amount - o.xgtAmount.amount } }
  | _ => some e

def payments (e : EscrowObject) : Operation → List (WalletName × Asset)
  | .escrowApprove o =>
    if o.approve then if (e.approve o).isApproved then [(o.agent, e.pendingFee)] else []
    else [(o.fromWallet, e.xgtBalance), (o.fromWallet, e.pendingFee)]
  | .escrowRelease o => [(o.receiver, o.xgtAmount)]
  | _ => []

structure PermitsRelease (e : EscrowObject) (now : TimePointSec) (o : EscrowReleaseOperation) : Prop where
  approved : e.isApproved = true
  covered : o.xgtAmount.amount ≤ e.xgtBalance.amount
  symbol : e.xgtBalance.symbol = o.xgtAmount.symbol
  receiver : o.receiver = e.fromWallet ∨ o.receiver = e.toWallet
  disputed : e.disputed = true → o.who = e.agent
  undisputed : e.disputed = false → o.who = e.fromWallet ∨ o.who = e.toWallet
  unexpired : e.disputed = false → now < e.escrowExpiration →
    o.who = e.fromWallet ∧ o.receiver = e.toWallet ∨ o.who = e.toWallet ∧ o.receiver = e.fromWallet

def Permits (e : EscrowObject) (now : TimePointSec) : Operation → Prop
  | .escrowApprove o => e.toWallet = o.toWallet ∧ e.agent = o.agent ∧ now ≤ e.ratificationDeadline ∧
      (o.who = o.toWallet → e.toApproved = false) ∧ (o.who = o.agent → e.agentApproved = false)
  | .escrowDispute _ => e.isApproved = true ∧ e.disputed = false
  | .escrowRelease o => e.PermitsRelease now o
  | _ => False

variable {e a : EscrowObject} {op : Operation}

theorem after_terms (h : e.after op = some a) :
    ∃ amount fee toApproved agentApproved disputed, a = { e with
      xgtBalance := { e.xgtBalance with amount := amount }
      pendingFee := { e.pendingFee with amount := fee }
      toApproved := toApproved, agentApproved := agentApproved, disputed := disputed } := by
  unfold after at h
  split at h
  · split_ifs at h <;> cases h <;> exact ⟨_, _, _, _, _, rfl⟩
  · cases h
    exact ⟨_, _, _, _, _, rfl⟩
  · split_ifs at h
    cases h
    exact ⟨_, _, _, _, _, rfl⟩
  · cases h
    exact ⟨_, _, _, _, _, rfl⟩

theorem after_sameKeys (h : e.after op = some a) : SameKeys a e := by
  obtain ⟨_, _, _, _, _, rfl⟩ := after_terms h
  exact fun _ => rfl

section Approve

variable {e : EscrowObject} {o : EscrowApproveOperation}

theorem after_refused (h : o.approve = false) : e.after (.escrowApprove o) = none ∧
    e.payments (.escrowApprove o) = [(o.fromWallet, e.xgtBalance), (o.fromWallet, e.pendingFee)] := by
  simp [after, payments, h]

theorem after_ratified (h : o.approve = true) (hboth : (e.approve o).isApproved = true) :
    e.after (.escrowApprove o) = some { e.approve o with pendingFee := { e.pendingFee with amount := 0 } } ∧
      e.payments (.escrowApprove o) = [(o.agent, e.pendingFee)] := by
  simp [after, payments, h, hboth]

theorem after_approved (h : o.approve = true) (hboth : (e.approve o).isApproved = false) :
    e.after (.escrowApprove o) = some (e.approve o) ∧ e.payments (.escrowApprove o) = [] := by
  simp [after, payments, h, hboth]

end Approve

section Release

variable {e : EscrowObject} {o : EscrowReleaseOperation}

theorem after_released (h : e.xgtBalance.amount - o.xgtAmount.amount = 0) : e.after (.escrowRelease o) = none :=
  if_pos h

theorem after_reduced (h : e.xgtBalance.amount - o.xgtAmount.amount ≠ 0) : e.after (.escrowRelease o) =
    some { e with xgtBalance := { e.xgtBalance with amount := e.xgtBalance.amount - o.xgtAmount.amount } } :=
  if_neg h

end Release

def call (e : EscrowObject) (i : Nat) (op : Operation) : RowCall EscrowObject :=
  match e.after op with
  | some a => .modify i e a
  | none => .remove i e

variable {e : EscrowObject}

theorem call_runs {i : Nat} {op : Operation} {t : ObjectIndex EscrowObject}
    (hrow : (i, e) ∈ t.rows) (hmod : ∀ a, e.after op = some a → t.modify? i a = some (t.set i a)) :
    (e.call i op).Runs t (t.put i (e.after op)) := by
  unfold call
  cases hafter : e.after op with
  | none => exact .remove hrow
  | some a => exact .modify hrow (hmod a hafter) (after_sameKeys hafter)

theorem call_writes {i : Nat} {op : Operation} {Q : EscrowObject → Prop}
    (h : ∀ a, e.after op = some a → Q a) : (e.call i op).Writes Q := by
  unfold call
  split
  · next a ha => exact h a ha
  · trivial

theorem call_delta (e : EscrowObject) (i : Nat) (op : Operation) (f : EscrowObject → Int) :
    (e.call i op).delta f = ((e.after op).map f).getD 0 - f e := by
  unfold call
  cases e.after op with
  | none => exact (Int.zero_sub _).symm
  | some a => rfl

theorem payments_symbol {now : TimePointSec} {op : Operation} {sym : AssetSymbol}
    (hbalance : e.xgtBalance.symbol = sym) (hfee : e.pendingFee.symbol = sym) (hpermits : e.Permits now op) :
    ∀ p ∈ e.payments op, p.2.symbol = sym := by
  cases op with
  | escrowApprove o =>
    simp only [payments]
    split_ifs <;> simp [hbalance, hfee]
  | escrowRelease o =>
    rw [payments, List.forall_mem_singleton]
    exact hpermits.symbol.symm.trans hbalance
  | _ => nofun

end EscrowObject

namespace Objects

variable {s s' : Objects} {cr : Crypto} {env : Env} {op : Operation} {f : Objects → Objects}
  {l : List (WalletName × Asset)} {o : EscrowReleaseOperation} {e : EscrowObject}

def namedEscrow (s : Objects) (op : Operation) : Option (Nat × EscrowObject) :=
  op.escrowKey?.bind fun k => s.escrows.find? fun e => e.fromWallet = k.1 && e.escrowId = k.2

def pay (s : Objects) (payments : List (WalletName × Asset)) : Result Objects :=
  payments.foldlM (fun s p => s.adjustBalance p.1 p.2) s

structure Unbooked (f : Objects → Objects) : Prop where
  wallets (s : Objects) : (f s).wallets = s.wallets
  balances (s : Objects) : (f s).balances = s.balances
  xttTokens (s : Objects) : (f s).xttTokens = s.xttTokens
  setWallets (s : Objects) (t) : { f s with wallets := t } = f { s with wallets := t }
  setBalances (s : Objects) (t) : { f s with balances := t } = f { s with balances := t }
  setTokens (s : Objects) (t) : { f s with xttTokens := t } = f { s with xttTokens := t }

theorem adjustSupply_unbooked (hf : Unbooked f) (delta : Asset) :
    (f s).adjustSupply delta = f <$> s.adjustSupply delta := by
  unfold adjustSupply
  split_ifs
  · simp only [hf.xttTokens, map_bind, map_pure, hf.setTokens]
  · rfl

theorem adjustXttBalance_unbooked (hf : Unbooked f) (name : WalletName)
    (delta : Asset) : (f s).adjustXttBalance name delta = f <$> s.adjustXttBalance name delta := by
  unfold adjustXttBalance
  rw [hf.balances]
  split
  · simp only [map_bind]
    refine bind_congr fun _ => ?_
    split_ifs
    · rfl
    · simp only [map_bind, map_pure, hf.setBalances]
  · simp only [map_bind, map_pure, hf.setBalances]

theorem adjustBalance_unbooked (hf : Unbooked f) (name : WalletName)
    (delta : Asset) : (f s).adjustBalance name delta = f <$> s.adjustBalance name delta := by
  have haccount : (f s).getAccount name = s.getAccount name := by
    rw [getAccount, findAccount, hf.wallets]
    rfl
  have hxgt : (f s).modifyBalance name delta = f <$> s.modifyBalance name delta := by
    simp only [modifyBalance, haccount, hf.wallets, map_bind, map_pure, hf.setWallets]
  have hbalance : (f s).getBalance name delta.symbol = s.getBalance name delta.symbol := by
    unfold getBalance
    rw [hf.balances, haccount]
  unfold adjustBalance
  by_cases hneg : delta.amount < 0
  · simp only [if_pos hneg, hbalance, map_bind]
    refine bind_congr fun _ => bind_congr fun _ => bind_congr fun _ => ?_
    split_ifs
    · simp only [map_bind, adjustSupply_unbooked hf]
    · exact adjustXttBalance_unbooked hf name delta
    · exact hxgt
  · simp only [if_neg hneg]
    split_ifs
    · simp only [map_bind, adjustSupply_unbooked hf]
    · exact adjustXttBalance_unbooked hf name delta
    · exact hxgt

theorem withEscrows_unbooked (t : ObjectIndex EscrowObject) :
    Unbooked fun u => { u with escrows := t } where
  wallets _ := rfl
  balances _ := rfl
  xttTokens _ := rfl
  setWallets _ _ := rfl
  setBalances _ _ := rfl
  setTokens _ _ := rfl

theorem pay_withEscrows {t : ObjectIndex EscrowObject}
    (h : ({ s with escrows := t } : Objects).pay l = .ok s') :
    ∃ u, s.pay l = .ok u ∧ s' = { u with escrows := t } := by
  induction l generalizing s with
  | nil =>
    cases h
    exact ⟨s, rfl, rfl⟩
  | cons p l ih =>
    obtain ⟨s1, hfirst, hrest⟩ := foldlM_cons_ok_iff.1 h
    rw [adjustBalance_unbooked (withEscrows_unbooked t)] at hfirst
    obtain ⟨u1, hu1, rfl⟩ := map_ok_iff.1 hfirst
    obtain ⟨u, hu, rfl⟩ := ih hrest
    exact ⟨u, foldlM_cons_ok_iff.2 ⟨u1, hu1, hu⟩, rfl⟩

/-! ## What an accepted operation does to an escrow -/

theorem of_namedEscrow {r : Nat × EscrowObject} (h : s.namedEscrow op = some r) :
    r ∈ s.escrows.rows ∧ op.escrowKey? = some (r.2.fromWallet, r.2.escrowId) := by
  obtain ⟨k, hkey, hfind⟩ := Option.bind_eq_some_iff.1 h
  obtain ⟨hrow, hmatch⟩ := of_find? hfind
  simp only [Bool.and_eq_true, decide_eq_true_eq] at hmatch
  refine ⟨hrow, hkey.trans ?_⟩
  rw [hmatch.1, hmatch.2]

theorem approveEscrow_eq {o : EscrowApproveOperation} {e e' : EscrowObject}
    (h : approveEscrow o e = .ok e') :
    (o.who = o.toWallet → e.toApproved = false) ∧ (o.who = o.agent → e.agentApproved = false) ∧
      e' = if o.approve then e.approve o else e := by
  unfold approveEscrow at h
  split_ifs at h with hagent hto hto
  · simp only [bind_ok_iff] at h
    obtain ⟨_, hnotTo, _, ⟨⟩, _, hnotAgent, h⟩ := h
    cases h
    refine ⟨fun _ => by simpa using hnotTo, fun _ => by simpa using hnotAgent, ?_⟩
    cases o.approve <;> simp [EscrowObject.approve, ← hto, ← hagent]
  · obtain ⟨_, ⟨⟩, h⟩ := of_bind h
    obtain ⟨_, hnotAgent, h⟩ := of_bind h
    cases h
    refine ⟨fun heq => absurd heq hto, fun _ => by simpa using hnotAgent, ?_⟩
    cases o.approve <;> simp [EscrowObject.approve, hto, ← hagent]
  · obtain ⟨_, hnotTo, h⟩ := of_bind h
    obtain ⟨_, ⟨⟩, h⟩ := of_bind h
    cases h
    refine ⟨fun _ => by simpa using hnotTo, fun heq => absurd heq hagent, ?_⟩
    cases o.approve <;> simp [EscrowObject.approve, ← hto, hagent]
  · obtain ⟨_, ⟨⟩, h⟩ := of_bind h
    cases h
    refine ⟨fun heq => absurd heq hto, fun heq => absurd heq hagent, ?_⟩
    cases o.approve <;> simp [EscrowObject.approve, hto, hagent]

def Serves (s : Objects) (op : Operation) (s' : Objects) : Prop :=
  ∃ i e u, s.namedEscrow op = some (i, e) ∧ e.Permits s.headBlockTime op ∧
    s.pay (e.payments op) = .ok u ∧ s' = { u with escrows := s.escrows.put i (e.after op) }

structure Answers (s : Objects) (op : Operation) (s' : Objects) (i : Nat) (e : EscrowObject) (u : Objects) :
    Prop where
  named : s.namedEscrow op = some (i, e)
  permits : e.Permits s.headBlockTime op
  paid : s.pay (e.payments op) = .ok u
  runs : (e.call i op).Runs s.escrows (s.escrows.put i (e.after op))
  eq : s' = { u with escrows := s.escrows.put i (e.after op) }

theorem applyEscrowApprove_answers {o : EscrowApproveOperation} (h : s.applyEscrowApprove o = .ok s') :
    ∃ i e u, Answers s (.escrowApprove o) s' i e u := by
  unfold applyEscrowApprove at h
  simp only [bind_ok_iff] at h
  obtain ⟨⟨i, e⟩, hr, _, hto, _, hagent, _, htime, e', he, escrows, hmod, h⟩ := h
  obtain ⟨hnotTo, hnotAgent, rfl⟩ := approveEscrow_eq he
  have hmod := dbModify_ok_iff.1 hmod
  have hpermits : e.Permits s.headBlockTime (.escrowApprove o) :=
    ⟨by simpa using hto, by simpa using hagent, by simpa using htime, hnotTo, hnotAgent⟩
  have hruns := @EscrowObject.call_runs e i (.escrowApprove o) _ (of_getRow hr).1 fun a ha =>
    modify?_of_sameKeys hmod fun b => by
      rw [after_sameKeys ha b]
      split_ifs <;> rfl
  obtain rfl := modify?_eq hmod
  cases happrove : o.approve with
  | true =>
    simp only [happrove, if_true, Bool.not_true, Bool.false_eq_true, if_false] at h
    split_ifs at h with hboth
    · obtain ⟨hafter, hpayments⟩ := after_ratified happrove (e := e) hboth
      obtain ⟨s1, hfee, h⟩ := of_bind h
      obtain ⟨escrows', hmod', h⟩ := of_bind h
      cases h
      obtain ⟨u, hu, rfl⟩ := pay_withEscrows (l := [(o.agent, e.pendingFee)])
        (foldlM_cons_ok_iff.2 ⟨_, hfee, rfl⟩)
      obtain rfl := modify?_eq (dbModify_ok_iff.1 hmod')
      refine ⟨i, e, u, getRow_ok_iff.1 hr, hpermits, hpayments ▸ hu, hruns, ?_⟩
      rw [← put_set (a := e.approve o), hafter]
      rfl
    · obtain ⟨hafter, hpayments⟩ := after_approved happrove (e := e) (Bool.not_eq_true _ ▸ hboth)
      cases h
      refine ⟨i, e, s, getRow_ok_iff.1 hr, hpermits, by rw [hpayments]; rfl, hruns, ?_⟩
      rw [hafter]
      rfl
  | false =>
    obtain ⟨hafter, hpayments⟩ := after_refused happrove (e := e)
    simp only [happrove, Bool.not_false, if_true, Bool.false_eq_true, if_false] at h
    obtain ⟨s1, hback, h⟩ := of_bind h
    obtain ⟨s2, hfee, h⟩ := of_bind h
    cases h
    obtain ⟨u, hu, rfl⟩ := pay_withEscrows
      (l := [(o.fromWallet, e.xgtBalance), (o.fromWallet, e.pendingFee)])
      (foldlM_cons_ok_iff.2 ⟨_, hback, foldlM_cons_ok_iff.2 ⟨_, hfee, rfl⟩⟩)
    refine ⟨i, e, u, getRow_ok_iff.1 hr, hpermits, hpayments ▸ hu, hruns, ?_⟩
    rw [← put_set (a := e), hafter]
    rfl

theorem applyEscrowDispute_answers {o : EscrowDisputeOperation} (h : s.applyEscrowDispute o = .ok s') :
    ∃ i e, Answers s (.escrowDispute o) s' i e s := by
  unfold applyEscrowDispute at h
  obtain ⟨_, -, h⟩ := of_bind h
  obtain ⟨⟨i, e⟩, hr, h⟩ := of_bind h
  obtain ⟨_, -, h⟩ := of_bind h
  obtain ⟨_, happroved, h⟩ := of_bind h
  obtain ⟨_, hnot, h⟩ := of_bind h
  iterate 2 obtain ⟨_, -, h⟩ := of_bind h
  obtain ⟨escrows, hmod, h⟩ := of_bind h
  cases h
  have hmod := dbModify_ok_iff.1 hmod
  obtain rfl := modify?_eq hmod
  exact ⟨i, e, getRow_ok_iff.1 hr, ⟨fcAssert_ok_iff.1 happroved, by simpa using hnot⟩, rfl,
    .modify (of_getRow hr).1 hmod fun _ => rfl, rfl⟩

theorem checkEscrowRelease_ok (h : s.checkEscrowRelease o e = .ok ()) :
    (e.disputed = true → o.who = e.agent) ∧
      (e.disputed = false → o.who = e.fromWallet ∨ o.who = e.toWallet) ∧
      (e.disputed = false → s.headBlockTime < e.escrowExpiration →
        o.who = e.fromWallet ∧ o.receiver = e.toWallet ∨ o.who = e.toWallet ∧ o.receiver = e.fromWallet) := by
  unfold checkEscrowRelease at h
  cases hdisputed : e.disputed with
  | true =>
    rw [hdisputed, if_pos rfl] at h
    exact ⟨fun _ => by simpa using h, by simp, by simp⟩
  | false =>
    rw [hdisputed, if_neg Bool.false_ne_true] at h
    obtain ⟨_, hwho, h⟩ := of_bind h
    have hparty : o.who = e.fromWallet ∨ o.who = e.toWallet := by simpa using hwho
    refine ⟨by simp, fun _ => hparty, fun _ htime => ?_⟩
    rw [if_pos htime] at h
    split_ifs at h with hfrom hto
    · exact .inl ⟨hfrom, by simpa using h⟩
    · exact .inr ⟨hto, by simpa using h⟩
    · exact absurd hparty (by simp [hfrom, hto])

theorem applyEscrowRelease_answers (h : s.applyEscrowRelease o = .ok s') :
    ∃ i e u, Answers s (.escrowRelease o) s' i e u := by
  unfold applyEscrowRelease at h
  obtain ⟨_, -, h⟩ := of_bind h
  obtain ⟨⟨i, e⟩, hr, h⟩ := of_bind h
  obtain ⟨enough, henough, h⟩ := of_bind h
  obtain ⟨_, hassert, h⟩ := of_bind h
  iterate 2 obtain ⟨_, -, h⟩ := of_bind h
  obtain ⟨_, hreceiver, h⟩ := of_bind h
  obtain ⟨_, happroved, h⟩ := of_bind h
  obtain ⟨_, hcheck, h⟩ := of_bind h
  obtain ⟨s1, hpaid, h⟩ := of_bind h
  obtain ⟨balance, hbalance, h⟩ := of_bind h
  rw [fcAssert_ok_iff] at hassert happroved
  subst hassert
  obtain ⟨_, -, hge⟩ := of_bind henough
  obtain ⟨hsymbol, rfl⟩ := of_assetSub hbalance
  obtain ⟨hdisputed, hundisputed, hunexpired⟩ := checkEscrowRelease_ok hcheck
  have hpermits : e.PermitsRelease s.headBlockTime o :=
    ⟨happroved, by simpa using Except.ok.inj hge, hsymbol, by simpa using hreceiver, hdisputed,
      hundisputed, hunexpired⟩
  have hpay : s.pay (e.payments (.escrowRelease o)) = .ok s1 := foldlM_cons_ok_iff.2 ⟨_, hpaid, rfl⟩
  obtain ⟨_, _, _, rfl⟩ := adjustBalance_eq hpaid
  split_ifs at h with hzero
  · cases h
    have hafter := after_released hzero
    refine ⟨i, e, _, getRow_ok_iff.1 hr, hpermits, hpay, ?_, ?_⟩
    · exact call_runs (of_getRow hr).1 fun a ha => by cases hafter.symm.trans ha
    · rw [hafter]
      rfl
  · obtain ⟨escrows, hmod, h⟩ := of_bind h
    cases h
    have hafter := after_reduced hzero
    have hmod := dbModify_ok_iff.1 hmod
    refine ⟨i, e, _, getRow_ok_iff.1 hr, hpermits, hpay, ?_, ?_⟩
    · refine call_runs (of_getRow hr).1 fun a ha => ?_
      cases hafter.symm.trans ha
      exact modify?_of_sameKeys hmod fun _ => rfl
    · rw [hafter, modify?_eq hmod]
      rfl

theorem applyOperation_answers (hkey : op.escrowKey?.isSome) (h : s.applyOperation cr env op = .ok s') :
    ∃ i e u, Answers s op s' i e u := by
  cases op with
  | escrowApprove o => exact applyEscrowApprove_answers h
  | escrowDispute o =>
    obtain ⟨i, e, hanswers⟩ := applyEscrowDispute_answers h
    exact ⟨i, e, s, hanswers⟩
  | escrowRelease o => exact applyEscrowRelease_answers h
  | _ => cases hkey

theorem pay_escrows (h : s.pay l = .ok s') : s'.escrows = s.escrows := by
  refine foldlM_ok_of_step (P := fun t => t.escrows = s.escrows) h rfl fun t p t' _ ht hstep => ?_
  obtain ⟨_, _, _, rfl⟩ := adjustBalance_eq hstep
  exact ht

theorem Answers.call {i : Nat} {u : Objects} (h : Answers s op s' i e u) :
    ∃ t, (e.call i op).Runs u.escrows t ∧ s' = { u with escrows := t } := by
  refine ⟨_, ?_, h.eq⟩
  rw [pay_escrows h.paid]
  exact h.runs

end Objects

end Xgt
