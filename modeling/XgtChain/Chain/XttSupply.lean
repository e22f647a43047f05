import XgtChain.Chain.Money
import XgtChain.Chain.Tokens

/-!
# The supply of tokens

The supply of a token is written apart from the balances that wallets hold of it.
-/

namespace Xgt

open Base ObjectIndex List Asset RowCall

namespace Objects

variable {s s' : Objects}
variable {id : Nat} {tokens : ObjectIndex XttTokenObject} {name : WalletName} {delta : Asset}
  {totals : AssetSymbol → Option Asset} {b : AccountRegularBalanceObject} {n : AssetSymbol → Int}
  {old a : XttTokenObject} {op : Operation} {cr : Crypto} {env : Env}

def supplyIn (s : Objects) (sym : AssetSymbol) : Int :=
  s.xttTokens.sumBy fun t => if t.liquidSymbol = sym then t.currentSupply else 0

theorem supplyIn_of_mem (hunique : s.xttTokens.Unique) {t : XttTokenObject}
    (hrow : (id, t) ∈ s.xttTokens.rows) : s.supplyIn t.liquidSymbol = t.currentSupply := by
  have hrest := sumBy_remove (fun u : XttTokenObject => if u.liquidSymbol = t.liquidSymbol then
    u.currentSupply else 0) hrow
  have hnone : (s.xttTokens.remove id).sumBy (fun u : XttTokenObject => if u.liquidSymbol = t.liquidSymbol then
      u.currentSupply else 0) = 0 := by
    refine sumBy_eq_zero fun u hu => if_neg fun hsame => ?_
    obtain ⟨i, hi, hne⟩ := mem_objects_remove hu
    exact hne (congrArg Prod.fst (hunique _ hi _ hrow (decide_eq_true hsame)))
  rw [hnone, if_pos rfl] at hrest
  unfold supplyIn
  omega

theorem balancesIn_pos (hdebt : s.NoDebt) (hb : b ∈ s.balances.objects)
    (hpos : 0 < b.liquid.amount) : 0 < s.balancesIn b.liquid.symbol := by
  obtain ⟨id, hrow⟩ := mem_objects.1 hb
  have hrest := sumBy_remove (fun b' => b'.liquid.amountIn b.liquid.symbol) hrow
  have hnonneg : 0 ≤ (s.balances.remove id).sumBy fun b' => b'.liquid.amountIn b.liquid.symbol := by
    refine sumBy_nonneg fun b' hb' => ?_
    obtain ⟨i, hi, -⟩ := mem_objects_remove hb'
    unfold amountIn
    split_ifs
    · exact hdebt b' (mem_objects.2 ⟨i, hi⟩)
    · exact le_rfl
  rw [amountIn_self] at hrest
  unfold balancesIn
  omega

/-! ## The books -/

def InXgt (e : EscrowObject) : Prop := e.xgtBalance.symbol = xgtSymbol ∧ e.pendingFee.symbol = xgtSymbol

/-- The books of the tokens: supplies equal balances, and none is negative. -/
structure XttBooks (s : Objects) : Prop where
  unique : s.xttTokens.Unique
  backed : ∀ sym, s.supplyIn sym = s.balancesIn sym
  noDebt : s.NoDebt
  setup : ∀ t ∈ s.xttTokens.objects, t.phase = .setup → t.currentSupply = 0
  range : ∀ t ∈ s.xttTokens.objects, t.currentSupply < 2 ^ 63
  escrows : ∀ e ∈ s.escrows.objects, InXgt e

theorem XttBooks.of_same (h : s.XttBooks) (hsame : SameTokens s s')
    (hescrows : ∀ e ∈ s'.escrows.objects, InXgt e) :
    s'.XttBooks := by
  obtain ⟨hunique, hbacked, hdebt, hsetup, hrange, -⟩ := h
  refine ⟨hsame.xttTokens ▸ hunique, fun sym => ?_, ?_, hsame.xttTokens ▸ hsetup, hsame.xttTokens ▸ hrange,
    hescrows⟩
  · unfold supplyIn balancesIn at hbacked ⊢
    rw [hsame.xttTokens, hsame.balances]
    exact hbacked sym
  · unfold NoDebt
    rw [hsame.balances]
    exact hdebt

theorem supplyIn_modify (hrow : (id, old) ∈ s.xttTokens.rows) (hmod : s.xttTokens.modify? id a = some tokens)
    (hsym : a.liquidSymbol = old.liquidSymbol) (sym : AssetSymbol) :
    supplyIn { s with xttTokens := tokens } sym =
      s.supplyIn sym + amountIn ⟨a.currentSupply - old.currentSupply, old.liquidSymbol⟩ sym := by
  have hrun : Runs (.modify id old a) s.xttTokens tokens :=
    .modify hrow hmod fun c => by simp only [Keyed.clash, hsym]
  refine (hrun.sumBy _).trans ?_
  simp only [delta, amountIn, hsym, supplyIn]
  split_ifs <;> omega

def gap (s : Objects) (sym : AssetSymbol) : Int := s.supplyIn sym - s.balancesIn sym

section

variable (h : Adjusts name delta s s')
include h

theorem Adjusts.gap_eq
    (hxtt : delta.symbol ≠ xgtSymbol) (sym : AssetSymbol) : s'.gap sym = s.gap sym - delta.amountIn sym := by
  cases h with
  | xgt hsym wallets => exact absurd hsym hxtt
  | supply hrow hsym hrange hmod hfunds =>
    unfold gap
    rw [supplyIn_modify hrow hmod rfl, hsym]
    simp only [amountIn, balancesIn]
    split_ifs <;> omega
  | balance hsum hdebt =>
    have hsum := hsum sym
    simp only [gap, balancesIn, supplyIn] at hsum ⊢
    omega

theorem Adjusts.noDebt (hdebt : s.NoDebt) : s'.NoDebt := by
  cases h with
  | xgt hsym wallets => exact hdebt
  | supply hrow hsym hrange hmod hfunds => exact hdebt
  | balance hsum hkeeps => exact hkeeps hdebt

theorem Adjusts.unique (hunique : s.xttTokens.Unique) : s'.xttTokens.Unique := by
  cases h with
  | xgt hsym wallets => exact hunique
  | supply hrow hsym hrange hmod hfunds => exact (Runs.modify hrow hmod fun _ => rfl).unique hunique
  | balance hsum hdebt => exact hunique

theorem Adjusts.range (hs : ∀ t ∈ s.xttTokens.objects, t.currentSupply < 2 ^ 63) :
    ∀ t ∈ s'.xttTokens.objects, t.currentSupply < 2 ^ 63 := by
  cases h with
  | xgt hsym wallets => exact hs
  | supply hrow hsym hrange hmod hfunds =>
    exact (Runs.modify hrow hmod fun _ => rfl).forall_objects
      (Q := fun t : XttTokenObject => t.currentSupply < 2 ^ 63) hrange.2 hs
  | balance hsum hdebt => exact hs

theorem Adjusts.setup (hs : ∀ t ∈ s.xttTokens.objects, t.phase = .setup → t.currentSupply = 0)
    (hpays : delta.amount < 0 → s.XttBooks) :
    ∀ t ∈ s'.xttTokens.objects, t.phase = .setup → t.currentSupply = 0 := by
  cases h with
  | xgt hsym wallets => exact hs
  | @supply id t tokens hrow hsym hrange hmod hfunds =>
    refine (Runs.modify hrow hmod fun _ => rfl).forall_objects
      (Q := fun t : XttTokenObject => t.phase = .setup → t.currentSupply = 0) (fun hphase => ?_) hs
    have hzero : t.currentSupply = 0 := of_row hs hrow hphase
    by_cases hneg : delta.amount < 0
    · obtain ⟨b, hb, hbsym, hpos⟩ := hfunds hneg
      have hbooks := hpays hneg
      have hsum := balancesIn_pos hbooks.noDebt hb hpos
      rw [hbsym, ← hsym, ← hbooks.backed, supplyIn_of_mem hbooks.unique hrow] at hsum
      exact absurd hzero hsum.ne'
    · have hle := hrange.1
      change t.currentSupply - delta.amount = 0
      omega
  | balance hsum hdebt => exact hs

theorem Adjusts.escrows_eq : s'.escrows = s.escrows := by
  cases h <;> rfl

end

section

variable (h : s.XttBooks)
include h

theorem XttBooks.transfer {fromWallet toWallet : WalletName} {amount : Asset} {s1 : Objects}
    (hpos : 0 < amount.amount) (hspent : s.adjustBalance fromWallet ⟨-amount.amount, amount.symbol⟩ = .ok s1)
    (hpaid : s1.adjustBalance toWallet amount = .ok s') : s'.XttBooks := by
  by_cases hsym : amount.symbol = xgtSymbol
  · obtain ⟨_, rfl⟩ := adjustBalance_xgt hspent hsym
    obtain ⟨_, rfl⟩ := adjustBalance_xgt hpaid hsym
    exact h.of_same ⟨rfl, rfl⟩ h.escrows
  · have hspent := adjustBalance_adjusts hspent
    have hpaid := adjustBalance_adjusts hpaid
    have hgap : ∀ sym, s'.gap sym = 0 := by
      intro sym
      rw [hpaid.gap_eq hsym, hspent.gap_eq hsym, amountIn_neg]
      have := h.backed sym
      unfold gap
      omega
    have hsetup := hpaid.setup (hspent.setup h.setup fun _ => h) fun hneg => absurd hneg (by omega)
    exact ⟨hpaid.unique (hspent.unique h.unique), fun sym => Int.sub_eq_zero.1 (hgap sym),
      hpaid.noDebt (hspent.noDebt h.noDebt), hsetup, hpaid.range (hspent.range h.range),
      hpaid.escrows_eq ▸ hspent.escrows_eq ▸ h.escrows⟩

theorem XttBooks.modify (hrow : (id, old) ∈ s.xttTokens.rows) (hmod : s.xttTokens.modify? id a = some tokens)
    (hsym : a.liquidSymbol = old.liquidSymbol) (hsupply : a.currentSupply = old.currentSupply)
    (hphase : a.phase = .setup → old.phase = .setup) : { s with xttTokens := tokens }.XttBooks := by
  have hrun : Runs (.modify id old a) s.xttTokens tokens :=
    .modify hrow hmod fun c => by simp only [Keyed.clash, hsym]
  refine ⟨hrun.unique h.unique, fun sym => ?_, h.noDebt, ?_, ?_, h.escrows⟩
  · rw [supplyIn_modify hrow hmod hsym, hsupply, Int.sub_self, amountIn, ite_self, Int.add_zero]
    exact h.backed sym
  · exact hrun.forall_objects (Q := fun t : XttTokenObject => t.phase = .setup → t.currentSupply = 0)
      (fun ha => hsupply.trans (of_row h.setup hrow (hphase ha))) h.setup
  · exact hrun.forall_objects (Q := fun t : XttTokenObject => t.currentSupply < 2 ^ 63)
      (hsupply.trans_lt (h.range old (mem_objects.2 ⟨id, hrow⟩))) h.range

theorem XttBooks.call {c : RowCall XttTokenObject} (hrun : c.Runs s.xttTokens tokens)
    (hdelta : ∀ sym, c.delta (fun t => if t.liquidSymbol = sym then t.currentSupply else 0) = 0)
    (hwrites : c.Writes fun t => t.currentSupply = 0) : { s with xttTokens := tokens }.XttBooks := by
  have writes {Q : XttTokenObject → Prop} (hQ : ∀ t, t.currentSupply = 0 → Q t) : c.Writes Q := by
    cases c with
    | create a | modify id old a => exact hQ a hwrites
    | remove id old => trivial
  refine ⟨hrun.unique h.unique, fun sym => ?_, h.noDebt, ?_, ?_, h.escrows⟩
  · refine (hrun.sumBy _).trans ?_
    rw [hdelta sym, Int.add_zero]
    exact h.backed sym
  · exact hrun.forall_objects (writes fun t ht _ => ht) h.setup
  · exact hrun.forall_objects (writes fun t ht => ht.trans_lt (by decide)) h.range

theorem XttBooks.create {o : XttCreateOperation} (hvalid : o.validate = .ok ())
    (hok : s.applyXttCreate env o = .ok s') : s'.XttBooks := by
  obtain ⟨token, s1, tokens, pool, htoken, hpaid, hnew, rfl⟩ := applyXttCreate_ok hok
  have hbooks : s1.XttBooks := by
    rcases payOrResetXtt_ok hpaid with ⟨-, -, s2, hspent, hnull⟩ | ⟨r, rfl, hphase, rfl⟩
    · have hsym := (of_xttCreate_validate hvalid).2
      obtain ⟨_, rfl⟩ := adjustBalance_xgt hspent hsym
      obtain ⟨_, rfl⟩ := adjustBalance_xgt hnull hsym
      exact h.of_same ⟨rfl, rfl⟩ h.escrows
    · have hrow := of_findTokenAgnostic htoken
      refine h.call (.remove hrow) (fun sym => ?_) trivial
      simp only [delta, of_row h.setup hrow hphase, ite_self, Int.neg_zero]
  have hcreated := hbooks.call (.create hnew) (fun sym => ?_) rfl
  · exact hcreated.of_same ⟨rfl, rfl⟩ hcreated.escrows
  · exact ite_self _

theorem XttBooks.escrowCall {c : RowCall EscrowObject} {escrows : ObjectIndex EscrowObject}
    (hrun : c.Runs s.escrows escrows) (hc : c.Writes InXgt) : { s with escrows := escrows }.XttBooks :=
  h.of_same ⟨rfl, rfl⟩ (hrun.forall_objects hc h.escrows)

theorem XttBooks.adjust
    (hadjust : s.adjustBalance name delta = .ok s') (hsym : delta.symbol = xgtSymbol) : s'.XttBooks := by
  obtain ⟨wallets, rfl⟩ := adjustBalance_xgt hadjust hsym
  exact h.of_same ⟨rfl, rfl⟩ h.escrows

theorem XttBooks.escrowTransfer {o : EscrowTransferOperation}
    (hvalid : o.validate cr = .ok ()) (hok : s.applyEscrowTransfer o = .ok s') : s'.XttBooks := by
  obtain ⟨hamount, hfee⟩ := EscrowTransferOperation.held_of_validate hvalid
  obtain ⟨spent, s1, escrows, hspent, hpaid, hnew, rfl⟩ := applyEscrowTransfer_ok hok
  unfold escrowSpent at hspent
  rw [if_pos hfee.symbol] at hspent
  obtain ⟨-, rfl⟩ := of_assetAdd hspent
  exact (h.adjust hpaid hamount.symbol).escrowCall (.create hnew) ⟨hamount.symbol, hfee.symbol⟩

theorem XttBooks.answers {i : Nat} {e : EscrowObject} {u : Objects}
    (hanswers : Answers s op s' i e u) : s'.XttBooks := by
  have hin : InXgt e := of_row h.escrows (of_namedEscrow hanswers.named).1
  have hpaid : u.XttBooks := foldlM_ok_of_step hanswers.paid h fun _ p _ hp hbooks hstep =>
    hbooks.adjust hstep (EscrowObject.payments_symbol hin.1 hin.2 hanswers.permits p hp)
  obtain ⟨t, hruns, rfl⟩ := hanswers.call
  refine hpaid.escrowCall hruns (EscrowObject.call_writes fun a ha => ?_)
  obtain ⟨_, _, _, _, _, rfl⟩ := EscrowObject.after_terms ha
  exact hin

theorem XttBooks.outside (hother : Does Call.Outside s s') : s'.XttBooks := by
  refine h.of_same hother.sameTokens_of_outside ?_
  rw [hother.escrows_eq fun _ => id]
  exact h.escrows

theorem XttBooks.step (hvalid : op.Valid cr) (hok : s.applyOperation cr env op = .ok s') : s'.XttBooks := by
  have outside (hts : .xttToken ∉ op.tables ∧ .accountRegularBalance ∉ op.tables) (hop : op.isEscrow = false) :
      s'.XttBooks := by
    refine h.of_same ((applyOperation_calls hok).sameTokens hts) ?_
    rw [applyOperation_escrows hop hok]
    exact h.escrows
  cases op with
  | transfer o =>
    obtain ⟨s1, s2, hnew, hspent, hpaid⟩ := applyTransfer_ok hok
    have hbooks : s1.XttBooks := by
      refine h.of_same ((createReceiver_still hnew).sameTokens (by decide)) ?_
      rw [(createReceiver_still hnew).escrows_eq fun _ hc => hc.2]
      exact h.escrows
    exact hbooks.transfer (of_transfer_validate hvalid) hspent hpaid
  | escrowTransfer o => exact h.escrowTransfer hvalid hok
  | escrowApprove o | escrowDispute o | escrowRelease o =>
    obtain ⟨_, _, _, hanswers⟩ := applyOperation_answers rfl hok
    exact h.answers hanswers
  | pow o =>
    refine h.of_same (applyPow_sameTokens hok) ?_
    have hkept : s'.escrows = s.escrows := applyOperation_escrows rfl hok
    rw [hkept]
    exact h.escrows
  | xttSetup o =>
    obtain ⟨t, tokens, ico, icos, actions, hrow, -, -, hmod, -, -, rfl⟩ := applyXttSetup_ok hok
    have hbooks := h.modify hrow hmod rfl rfl fun hphase => XttPhase.noConfusion hphase
    exact hbooks.of_same ⟨rfl, rfl⟩ hbooks.escrows
  | xttSetSetupParameters o =>
    obtain ⟨id, old, a, tokens, hrow, hsym, hsupply, hphase, hmod, rfl⟩ := applyXttSetSetupParameters_ok hok
    exact h.modify hrow hmod hsym hsupply hphase.symm.trans
  | xttSetRuntimeParameters o =>
    obtain ⟨id, old, a, tokens, hrow, hsym, hsupply, hphase, hmod, rfl⟩ := applyXttSetRuntimeParameters_ok hok
    exact h.modify hrow hmod hsym hsupply hphase.symm.trans
  | xttCreate o => exact h.create hvalid hok
  | xttContribute o =>
    obtain ⟨ico, cap, contributed, s1, contributions, icos, -, -, -, hpaid, -, -, rfl⟩ :=
      applyXttContribute_ok hok
    have hbooks := h.adjust hpaid (of_xttContribute_validate hvalid)
    exact hbooks.of_same ⟨rfl, rfl⟩ hbooks.escrows
  | _ => exact outside (by simp [Operation.tables]) rfl

end

/-! ## The check of the code -/

def totalWith (liquid : Asset) : Option Asset → Result Asset
  | none => .ok liquid
  | some total => total.add liquid

def addBalance (totals : AssetSymbol → Option Asset) (b : AccountRegularBalanceObject) :
    Result (AssetSymbol → Option Asset) := do
  let total ← totalWith b.liquid (totals b.liquid.symbol)
  pure fun sym => if sym = b.liquid.symbol then some total else totals sym

def validateXttInvariants (s : Objects) : Result Unit := do
  let totals ← s.balances.objects.foldlM addBalance fun _ => none
  s.xttTokens.objects.forM fun t =>
    fcAssert ((totals t.liquidSymbol).getD ⟨0, t.liquidSymbol⟩ = ⟨t.currentSupply, t.liquidSymbol⟩) ""

theorem addBalance_ok (htotals : ∀ sym, (totals sym).getD ⟨0, sym⟩ = ⟨n sym, sym⟩)
    (hrange : -2 ^ 63 ≤ n b.liquid.symbol + b.liquid.amount ∧ n b.liquid.symbol + b.liquid.amount < 2 ^ 63) :
    ∃ totals', addBalance totals b = .ok totals' ∧
      ∀ sym, (totals' sym).getD ⟨0, sym⟩ = ⟨n sym + b.liquid.amountIn sym, sym⟩ := by
  have hold := htotals b.liquid.symbol
  have htotal : totalWith b.liquid (totals b.liquid.symbol) =
      .ok ⟨n b.liquid.symbol + b.liquid.amount, b.liquid.symbol⟩ := by
    cases hfound : totals b.liquid.symbol with
    | none =>
      rw [hfound] at hold
      have hzero : 0 = n b.liquid.symbol := congrArg amount hold
      rw [← hzero, Int.zero_add]
      rfl
    | some total =>
      rw [hfound] at hold
      have hsum : total = ⟨n b.liquid.symbol, b.liquid.symbol⟩ := hold
      subst hsum
      exact bind_ok (fcAssert_ok rfl)
        (bind_ok (if_pos hrange) rfl)
  refine ⟨_, bind_ok htotal rfl, fun sym => ?_⟩
  by_cases hsym : sym = b.liquid.symbol
  · subst hsym
    rw [if_pos rfl, amountIn_self]
    rfl
  · rw [if_neg hsym, htotals, amountIn, if_neg fun h => hsym h.symm, Int.add_zero]

theorem addBalances_ok {l : List AccountRegularBalanceObject} (hl : ∀ b ∈ l, 0 ≤ b.liquid.amount)
    (hn : ∀ sym, 0 ≤ n sym) (htotals : ∀ sym, (totals sym).getD ⟨0, sym⟩ = ⟨n sym, sym⟩)
    (hrange : ∀ sym, n sym + (l.map fun b => b.liquid.amountIn sym).sum < 2 ^ 63) :
    ∃ totals', l.foldlM addBalance totals = .ok totals' ∧
      ∀ sym, (totals' sym).getD ⟨0, sym⟩ = ⟨n sym + (l.map fun b => b.liquid.amountIn sym).sum, sym⟩ := by
  have part {l : List AccountRegularBalanceObject} (hl : ∀ b ∈ l, 0 ≤ b.liquid.amount) (sym : AssetSymbol) :
      ∀ m ∈ l.map (fun b => b.liquid.amountIn sym), 0 ≤ m := by
    intro m hm
    obtain ⟨b, hb, rfl⟩ := mem_map.1 hm
    unfold amountIn
    split_ifs
    · exact hl b hb
    · exact le_rfl
  induction l generalizing totals n with
  | nil => exact ⟨totals, rfl, fun sym => by rw [map_nil, sum_nil, Int.add_zero]; exact htotals sym⟩
  | cons b l ih =>
    have hb := hl b (.head _)
    have hl' : ∀ b' ∈ l, 0 ≤ b'.liquid.amount := fun b' hb' => hl b' (.tail _ hb')
    have hrange' : ∀ sym, n sym + b.liquid.amountIn sym + (l.map fun b =>
      b.liquid.amountIn sym).sum < 2 ^ 63 := by
      intro sym
      have := hrange sym
      rw [map_cons, sum_cons] at this
      omega
    have hfirst := hrange' b.liquid.symbol
    rw [amountIn_self] at hfirst
    have hrest := sum_nonneg (part hl' b.liquid.symbol)
    have hold := hn b.liquid.symbol
    obtain ⟨totals1, htotals1, hsums⟩ := addBalance_ok (b := b) htotals ⟨by omega, by omega⟩
    obtain ⟨totals', htotals', hsums'⟩ := ih (n := fun sym => n sym + b.liquid.amountIn sym) hl'
      (fun sym => Int.add_nonneg (hn sym) (part hl sym _ (mem_map.2 ⟨b, .head _, rfl⟩))) hsums hrange'
    refine ⟨totals', foldlM_cons_ok_iff.2 ⟨totals1, htotals1, htotals'⟩, fun sym => ?_⟩
    rw [hsums' sym, map_cons, sum_cons, Int.add_assoc]

theorem XttBooks.balancesIn_lt (h : s.XttBooks) (sym : AssetSymbol) : s.balancesIn sym < 2 ^ 63 := by
  rw [← h.backed sym]
  by_cases htoken : ∃ t ∈ s.xttTokens.objects, t.liquidSymbol = sym
  · obtain ⟨t, ht, rfl⟩ := htoken
    obtain ⟨id, hrow⟩ := mem_objects.1 ht
    rw [supplyIn_of_mem h.unique hrow]
    exact h.range t ht
  · have hnone : s.supplyIn sym = 0 :=
      sumBy_eq_zero fun t ht => if_neg fun hsym => htoken ⟨t, ht, hsym⟩
    rw [hnone]
    decide

theorem XttBooks.validate (h : s.XttBooks) : s.validateXttInvariants = .ok () := by
  have hsum : ∀ sym, (s.balances.objects.map fun b => b.liquid.amountIn sym).sum = s.balancesIn sym := by
    intro sym
    rw [ObjectIndex.objects, map_map]
    rfl
  have hnone : ∀ sym, ((fun _ => none : AssetSymbol → Option Asset) sym).getD ⟨0, sym⟩ = ⟨0, sym⟩ :=
    fun _ => rfl
  obtain ⟨totals, htotals, hsums⟩ := addBalances_ok (l := s.balances.objects) (n := fun _ => 0) h.noDebt
    (fun _ => le_rfl) hnone fun sym => by
      rw [Int.zero_add, hsum]
      exact h.balancesIn_lt sym
  refine bind_ok htotals (forM_ok_iff.2 fun t ht => fcAssert_ok ?_)
  obtain ⟨id, hrow⟩ := mem_objects.1 ht
  rw [hsums, Int.zero_add, hsum, ← h.backed, supplyIn_of_mem h.unique hrow]

/-- Every token's supply is what the wallets hold. -/
structure XttBacked (s : Objects) : Prop where
  supply : ∀ t ∈ s.xttTokens.objects, t.currentSupply = s.balancesIn t.liquidSymbol
  noDebt : s.NoDebt

theorem XttBooks.xttBacked (h : s.XttBooks) : s.XttBacked := by
  refine ⟨fun t ht => ?_, h.noDebt⟩
  obtain ⟨id, hrow⟩ := mem_objects.1 ht
  rw [← h.backed, supplyIn_of_mem h.unique hrow]

end Objects

open Objects

variable {cr : Crypto} {s0 s : Objects} {steps : List OpStep}

theorem xtt_supply_backed (h0 : s0.XttBooks) (h : OperationRun cr (Operation.Valid cr) s0 steps s) :
    (s.XttBacked ∧ s.validateXttInvariants = .ok ()) ∧
      ∀ step ∈ steps, step.1.XttBacked ∧ step.1.validateXttInvariants = .ok () := by
  obtain ⟨hs, hsteps⟩ := h.invariant h0 (fun _ hs hv hop => hs.step hv hop) fun hs hother => hs.outside hother
  exact ⟨⟨hs.xttBacked, hs.validate⟩, fun step hstep =>
    ⟨(hsteps step hstep).xttBacked, (hsteps step hstep).validate⟩⟩

def xttStart : Objects :=
  { genesis ⟨1⟩ with
    xttTokens := .ofList
      [{ liquidSymbol := ⟨12345678 * 32 + 16 + 3⟩, controlAccount := xgtInitMinerName, desiredTicker := "",
         phase := .launchSuccess, currentSupply := 100 },
       { liquidSymbol := ⟨23456788 * 32 + 16⟩, controlAccount := xgtInitMinerName, desiredTicker := "" }]
    balances := .ofList [{ name := xgtInitMinerName, liquid := ⟨100, ⟨12345678 * 32 + 16 + 3⟩⟩ }] }

theorem xttBooks_xttStart : xttStart.XttBooks := by
  refine ⟨fun r hr r' hr' hclash => ?_, fun sym => ?_, ?_, ?_, ?_, ?_⟩
  · have hsymbols : (xttStart.xttTokens.rows.map fun r => r.2.liquidSymbol).Nodup := by decide
    exact inj_on_of_nodup_map hsymbols hr hr' (of_decide_eq_true hclash)
  · change ([_, _] : List Int).sum = ([_] : List Int).sum
    simp only [sum_cons, sum_nil, ite_self, amountIn]
    split_ifs <;> rfl
  · change ∀ b ∈ xttStart.balances.objects, 0 ≤ b.liquid.amount
    decide
  · decide
  · decide
  · exact fun e he => absurd he not_mem_nil

def xttSteps : List Operation :=
  [.transfer { fromWallet := xgtInitMinerName, toWallet := xgtTempWallet,
               amount := ⟨20, ⟨12345678 * 32 + 16 + 3⟩⟩, memo := "" },
   .transfer { fromWallet := xgtInitMinerName, toWallet := xgtNullWallet,
               amount := ⟨30, ⟨12345678 * 32 + 16 + 3⟩⟩, memo := "" },
   .xttCreate { controlAccount := xgtInitMinerName, symbol := ⟨23456788 * 32 + 16 + 5⟩, desiredTicker := "",
                xttCreationFee := .xgt 0, precision := 5 }]

theorem xtt_supply_backed_transfers : ∃ (steps : List OpStep) (s : Objects),
    steps.length = 3 ∧ s.xttTokens.objects.map (fun t => (t.liquidSymbol.assetNum % 16, t.currentSupply)) =
        [(3, 70), (5, 0)] ∧
      (s.XttBacked ∧ s.validateXttInvariants = .ok ()) ∧
      ∀ step ∈ steps, step.1.XttBacked ∧ step.1.validateXttInvariants = .ok () := by
  obtain ⟨s, hs, hshape⟩ := exists_ok_of_any
    (x := xttStart.applyOperations toyParams.toCrypto toyEnv xttSteps)
    (p := fun s => s.xttTokens.objects.map (fun t => (t.liquidSymbol.assetNum % 16, t.currentSupply)) =
      [(3, 70), (5, 0)]) (by decide +kernel)
  have hvalid : xttSteps.forM (fun op => op.validate toyParams.toCrypto) = .ok () := by decide +kernel
  have hrun := OperationRun.of_applyOperations (V := Operation.Valid toyParams.toCrypto)
    (forM_ok_iff.1 hvalid) hs
  exact ⟨_, s, by decide +kernel, of_decide_eq_true hshape, xtt_supply_backed xttBooks_xttStart hrun⟩

end Xgt
