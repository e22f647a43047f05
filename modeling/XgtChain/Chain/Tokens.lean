import XgtChain.Chain.OperationRuns

/-!
# Operations on tokens

What the operations do to tokens, their balances and their ICOs, one lemma for each evaluator.
-/

namespace Xgt

open Base ObjectIndex

variable (a : Asset) (sym : AssetSymbol)

def Asset.amountIn : Int := if a.symbol = sym then a.amount else 0

theorem Asset.amountIn_self : a.amountIn a.symbol = a.amount := if_pos rfl

theorem Asset.amountIn_neg : Asset.amountIn ⟨-a.amount, a.symbol⟩ sym = -a.amountIn sym := by
  unfold amountIn
  split_ifs
  · rfl
  · exact Int.neg_zero.symm

namespace Objects

variable {s s' : Objects}
variable {name : WalletName} {delta : Asset} {env : Env} {p : Call → Prop} {o : PowOperation}

def balancesIn (s : Objects) (sym : AssetSymbol) : Int := s.balances.sumBy fun b => b.liquid.amountIn sym

def NoDebt (s : Objects) : Prop := ∀ b ∈ s.balances.objects, 0 ≤ b.liquid.amount

inductive Adjusts (name : WalletName) (delta : Asset) (s : Objects) : Objects → Prop where
  | xgt (hsym : delta.symbol = xgtSymbol) (wallets : ObjectIndex WalletObject) :
      Adjusts name delta s { s with wallets := wallets }
  | supply {id : Nat} {t : XttTokenObject} {tokens : ObjectIndex XttTokenObject}
      (hrow : (id, t) ∈ s.xttTokens.rows) (hsym : t.liquidSymbol = delta.symbol)
      (hrange : 0 ≤ t.currentSupply - delta.amount ∧ t.currentSupply - delta.amount < 2 ^ 63)
      (hmod : s.xttTokens.modify? id { t with currentSupply := t.currentSupply - delta.amount } = some tokens)
      (hfunds : delta.amount < 0 → ∃ b ∈ s.balances.objects, b.liquid.symbol = delta.symbol ∧
        0 < b.liquid.amount) :
      Adjusts name delta s { s with xttTokens := tokens }
  | balance {balances : ObjectIndex AccountRegularBalanceObject}
      (hsum : ∀ sym, balances.sumBy (fun b => b.liquid.amountIn sym) = s.balancesIn sym + delta.amountIn sym)
      (hdebt : s.NoDebt → ∀ b ∈ balances.objects, 0 ≤ b.liquid.amount) :
      Adjusts name delta s { s with balances := balances }

theorem adjustXttBalance_adjusts (h : s.adjustXttBalance name delta = .ok s') :
    Adjusts name delta s s' := by
  rcases adjustXttBalance_ok h with ⟨hzero, rfl⟩ | ⟨balances, hpos, hnew, rfl⟩ |
    ⟨b, balances, ⟨hrow, -⟩, hsym, hpos, hmod, rfl⟩
  · have hsame : ∀ sym, s'.balances.sumBy (fun b => b.liquid.amountIn sym) =
      s'.balancesIn sym + delta.amountIn sym := by
      intro sym
      rw [Asset.amountIn, hzero, ite_self, Int.add_zero]
      rfl
    exact .balance hsame id
  · have hrun : RowCall.Runs (.create { name := name, liquid := delta }) s.balances balances := .create hnew
    exact .balance (fun sym => hrun.sumBy _) fun hdebt =>
      hrun.forall_objects (Q := fun b : AccountRegularBalanceObject => 0 ≤ b.liquid.amount) hpos hdebt
  · have hrun : RowCall.Runs (.modify b.1 b.2 { b.2 with liquid := _ }) s.balances balances :=
      .modify hrow hmod fun _ => rfl
    refine .balance (fun sym => (hrun.sumBy _).trans ?_) fun hdebt =>
      hrun.forall_objects (Q := fun b : AccountRegularBalanceObject => 0 ≤ b.liquid.amount) hpos hdebt
    simp only [RowCall.delta, Asset.amountIn, hsym, balancesIn]
    split_ifs <;> omega

theorem getBalance_funds {sym : AssetSymbol} {available : Asset} (hsym : sym ≠ xgtSymbol)
    (h : s.getBalance name sym = .ok available) (hpos : 0 < available.amount) :
    ∃ b ∈ s.balances.objects, b.liquid.symbol = sym ∧ 0 < b.liquid.amount := by
  unfold getBalance at h
  rw [if_pos (c := sym.isXtt = true) (decide_eq_true hsym)] at h
  split at h
  · next r hr =>
    cases h
    obtain ⟨hrow, hkey⟩ := of_find? hr
    exact ⟨r.2, mem_objects.2 ⟨r.1, hrow⟩, of_decide_eq_true (Bool.and_eq_true _ _ ▸ hkey).2, hpos⟩
  · cases h
    exact absurd hpos (Int.lt_irrefl 0)

theorem adjustBalance_adjusts (h : s.adjustBalance name delta = .ok s') : Adjusts name delta s s' := by
  obtain ⟨hfunds, ⟨hsym, h⟩ | ⟨hsym, h | h⟩⟩ := adjustBalance_ok h
  · obtain ⟨w, wallets, -, -, -, -, rfl⟩ := modifyBalance_ok h
    exact .xgt hsym wallets
  · obtain ⟨t, tokens, hrow, htoken, hrange, hmod, rfl⟩ := adjustSupply_ok h hsym
    refine .supply hrow htoken hrange hmod fun hneg => ?_
    obtain ⟨available, havailable, hle⟩ := hfunds hneg
    exact getBalance_funds hsym havailable (by omega)
  · exact adjustXttBalance_adjusts h

theorem of_transfer_validate {cr : Crypto} {o : TransferOperation} (h : o.validate cr = .ok ()) :
    0 < o.amount.amount := by
  unfold TransferOperation.validate at h
  obtain ⟨_, -, h⟩ := of_bind h
  obtain ⟨_, hpos, -⟩ := of_bind h
  exact of_fcAssert hpos

theorem of_xttContribute_validate {o : XttContributeOperation} (h : o.validate = .ok ()) :
    o.contribution.symbol = xgtSymbol := by
  unfold XttContributeOperation.validate at h
  iterate 2 obtain ⟨_, -, h⟩ := of_bind h
  obtain ⟨_, hsym, -⟩ := of_bind h
  exact of_fcAssert hsym

theorem of_xttCreate_validate {o : XttCreateOperation} (h : o.validate = .ok ()) :
    o.symbol.assetNum / 16 % 2 = 1 ∧ o.xttCreationFee.symbol = xgtSymbol := by
  unfold XttCreateOperation.validate xttAdminOperationValidate validateXttSymbol at h
  obtain ⟨_, hadmin, h⟩ := of_bind h
  obtain ⟨_, -, hadmin⟩ := of_bind hadmin
  obtain ⟨_, hsym, hxtt⟩ := of_bind hadmin
  have hne : o.symbol ≠ xgtSymbol := of_fcAssert hxtt
  rw [AssetSymbol.validate, if_neg hne] at hsym
  have hcontrol := of_fcAssert hsym
  refine ⟨hcontrol.2.2.1, ?_⟩
  split_ifs at h
  · iterate 5 obtain ⟨_, -, h⟩ := of_bind h
    obtain ⟨_, hfee, -⟩ := of_bind h
    exact of_fcAssert hfee
  · iterate 2 obtain ⟨_, -, h⟩ := of_bind h
    obtain ⟨_, hfee, -⟩ := of_bind h
    exact of_fcAssert hfee

theorem Does.xttTokens_eq (h : Does p s s') (hp : ∀ c, p c → c.table ≠ .xttToken) :
    s'.xttTokens = s.xttTokens := by
  refine h.keeps Objects.xttTokens fun hc hrun => ?_
  cases hrun with
  | xttToken h => exact absurd rfl (hp _ hc)
  | _ => rfl

theorem Does.balances_eq (h : Does p s s') (hp : ∀ c, p c → c.table ≠ .accountRegularBalance) :
    s'.balances = s.balances := by
  refine h.keeps Objects.balances fun hc hrun => ?_
  cases hrun with
  | balance h => exact absurd rfl (hp _ hc)
  | _ => rfl

theorem adjustBalance_xgt (h : s.adjustBalance name delta = .ok s')
    (hsym : delta.symbol = xgtSymbol) : ∃ wallets, s' = { s with wallets := wallets } := by
  rcases adjustBalance_cases (List.mem_singleton_self _) h with ⟨hne, -⟩ | ⟨-, hmod⟩
  · exact absurd hsym hne
  · obtain ⟨w, wallets, -, -, -, -, rfl⟩ := modifyBalance_ok hmod
    exact ⟨wallets, rfl⟩

structure SameTokens (s s' : Objects) : Prop where
  xttTokens : s'.xttTokens = s.xttTokens
  balances : s'.balances = s.balances

theorem SameTokens.trans {s'' : Objects} (h : SameTokens s s') (h' : SameTokens s' s'') : SameTokens s s'' :=
  ⟨h'.xttTokens.trans h.xttTokens, h'.balances.trans h.balances⟩

theorem Does.sameTokens {ts : List TableName} (h : Does (Call.On ts p) s s')
    (hts : .xttToken ∉ ts ∧ .accountRegularBalance ∉ ts) : SameTokens s s' :=
  ⟨h.xttTokens_eq fun _ hc heq => hts.1 (heq ▸ hc.1), h.balances_eq fun _ hc heq => hts.2 (heq ▸ hc.1)⟩

theorem Does.sameTokens_of_outside (h : Does Call.Outside s s') : SameTokens s s' := by
  refine ⟨h.xttTokens_eq fun c hc heq => ?_, h.balances_eq fun c hc heq => ?_⟩
  all_goals cases c <;> first | exact hc.elim | exact TableName.noConfusion heq

theorem applyPow_sameTokens (h : s.applyPow env o = .ok s') : SameTokens s s' := by
  obtain ⟨u, hstill, hpaid⟩ := applyPow_rewards h
  refine (hstill.sameTokens (by decide)).trans ?_
  split_ifs at hpaid
  · obtain ⟨wallets, rfl⟩ := adjustBalance_xgt hpaid rfl
    exact ⟨rfl, rfl⟩
  · exact hpaid ▸ ⟨rfl, rfl⟩

/-! ## Tokens that stay -/

def SameSymbols (s s' : Objects) : Prop :=
  ∀ r ∈ s'.xttTokens.rows, ∃ t, (r.1, t) ∈ s.xttTokens.rows ∧ t.liquidSymbol = r.2.liquidSymbol

structure TokensKept (s s' : Objects) : Prop where
  before : SameSymbols s s'
  after : ∀ r ∈ s.xttTokens.rows, ∃ t, (r.1, t) ∈ s'.xttTokens.rows ∧ t.liquidSymbol = r.2.liquidSymbol ∧
    (t.phase = .setup → r.2.phase = .setup)

namespace TokensKept

theorem of_eq (h : s'.xttTokens = s.xttTokens) : TokensKept s s' := by
  refine ⟨fun r hr => ⟨r.2, h ▸ hr, rfl⟩, fun r hr => ⟨r.2, ?_, rfl, id⟩⟩
  rw [h]
  exact hr

theorem trans {s'' : Objects} (h : TokensKept s s') (h' : TokensKept s' s'') : TokensKept s s'' := by
  refine ⟨fun r hr => ?_, fun r hr => ?_⟩
  · obtain ⟨t, ht, hsym⟩ := h'.before r hr
    obtain ⟨t', ht', hsym'⟩ := h.before (r.1, t) ht
    exact ⟨t', ht', hsym'.trans hsym⟩
  · obtain ⟨t, ht, hsym, hphase⟩ := h.after r hr
    obtain ⟨t', ht', hsym', hphase'⟩ := h'.after (r.1, t) ht
    exact ⟨t', ht', hsym'.trans hsym, hphase ∘ hphase'⟩

theorem of_modify {id : Nat} {old a : XttTokenObject} {tokens : ObjectIndex XttTokenObject}
    (hrow : (id, old) ∈ s.xttTokens.rows) (hmod : s.xttTokens.modify? id a = some tokens)
    (hsym : a.liquidSymbol = old.liquidSymbol) (hphase : a.phase = .setup → old.phase = .setup)
    (htokens : s'.xttTokens = tokens) : TokensKept s s' := by
  have hset := htokens.trans (modify?_eq hmod)
  refine ⟨fun r hr => ?_, fun r hr => ?_⟩
  · rw [hset] at hr
    obtain ⟨r0, hr0, rfl⟩ := List.mem_map.1 hr
    unfold ObjectIndex.setRow
    split_ifs with hid
    · exact ⟨old, hrow, hsym.symm⟩
    · exact ⟨r0.2, hr0, rfl⟩
  · by_cases hid : r.1 = id
    · cases eq_of_mem hr hrow hid
      exact ⟨a, htokens ▸ mem_modify? hmod hrow, hsym, hphase⟩
    · exact ⟨r.2, hset ▸ mem_set_of_ne hr hid, rfl, fun h => h⟩

theorem of_adjust (h : s.adjustBalance name delta = .ok s') : TokensKept s s' := by
  cases adjustBalance_adjusts h with
  | xgt hsym wallets => exact .of_eq rfl
  | supply hrow hsym hrange hmod hfunds => exact .of_modify hrow hmod rfl id rfl
  | balance hsum hdebt => exact .of_eq rfl

end TokensKept

theorem applyOperation_tokensKept {cr : Crypto} {op : Operation} (hop : ∀ o, op ≠ .xttCreate o)
    (h : s.applyOperation cr env op = .ok s') : TokensKept s s' := by
  have outside (hts : .xttToken ∉ op.tables) : TokensKept s s' :=
    .of_eq ((applyOperation_calls h).xttTokens_eq fun _ hc heq => hts (heq ▸ hc.1))
  cases op with
  | transfer o =>
    obtain ⟨s1, s2, hnew, hspent, hpaid⟩ := applyTransfer_ok h
    have hsame := (createReceiver_still hnew).sameTokens (by decide)
    exact ((TokensKept.of_eq hsame.xttTokens).trans (.of_adjust hspent)).trans (.of_adjust hpaid)
  | escrowTransfer o =>
    obtain ⟨spent, s1, escrows, -, hpaid, -, rfl⟩ := applyEscrowTransfer_ok h
    exact (TokensKept.of_adjust hpaid).trans (.of_eq rfl)
  | escrowApprove o | escrowRelease o =>
    obtain ⟨i, e, u, hanswers⟩ := applyOperation_answers rfl h
    have hpaid : TokensKept s u := foldlM_ok_of_step (P := TokensKept s) hanswers.paid (.of_eq rfl)
      fun _ _ _ _ hkept hstep => hkept.trans (.of_adjust hstep)
    rw [hanswers.eq]
    exact hpaid.trans (.of_eq rfl)
  | pow o => exact .of_eq (applyPow_sameTokens h).xttTokens
  | xttSetup o =>
    obtain ⟨t, tokens, ico, icos, actions, hrow, -, -, hmod, -, -, rfl⟩ := applyXttSetup_ok h
    exact .of_modify hrow hmod rfl (fun hphase => XttPhase.noConfusion hphase) rfl
  | xttSetSetupParameters o =>
    obtain ⟨id, old, a, tokens, hrow, hsym, -, hphase, hmod, rfl⟩ := applyXttSetSetupParameters_ok h
    exact .of_modify hrow hmod hsym hphase.symm.trans rfl
  | xttSetRuntimeParameters o =>
    obtain ⟨id, old, a, tokens, hrow, hsym, -, hphase, hmod, rfl⟩ := applyXttSetRuntimeParameters_ok h
    exact .of_modify hrow hmod hsym hphase.symm.trans rfl
  | xttCreate o => exact absurd rfl (hop o)
  | xttContribute o =>
    obtain ⟨ico, cap, contributed, s1, contributions, icos, -, -, -, hpaid, -, -, rfl⟩ :=
      applyXttContribute_ok h
    exact (TokensKept.of_adjust hpaid).trans (.of_eq rfl)
  | _ => exact outside (by simp [Operation.tables])

def Completed (s : Objects) (sym : AssetSymbol) : Prop :=
  ∃ t ∈ s.xttTokens.objects, t.liquidSymbol = sym ∧ t.phase ≠ .setup

variable {sym}

theorem Completed.of_kept (h : s.Completed sym) (hkept : TokensKept s s') : s'.Completed sym := by
  obtain ⟨t, ht, hsym, hphase⟩ := h
  obtain ⟨i, hi⟩ := mem_objects.1 ht
  obtain ⟨t', ht', hsym', hphase'⟩ := hkept.after (i, t) hi
  exact ⟨t', mem_objects.2 ⟨i, ht'⟩, hsym'.trans hsym, hphase ∘ hphase'⟩

theorem Completed.create (h : s.Completed sym) {a : XttTokenObject} {tokens : ObjectIndex XttTokenObject}
    (hnew : s.xttTokens.create? a = some tokens) : { s with xttTokens := tokens }.Completed sym := by
  obtain ⟨t, ht, hrest⟩ := h
  exact ⟨t, (mem_create? hnew).2 (.inl ht), hrest⟩

theorem Completed.remove (h : s.Completed sym) {r : Nat × XttTokenObject} (hrow : r ∈ s.xttTokens.rows)
    (hphase : r.2.phase = .setup) : { s with xttTokens := s.xttTokens.remove r.1 }.Completed sym := by
  obtain ⟨t, ht, htsym, htphase⟩ := h
  obtain ⟨i, hi⟩ := mem_objects.1 ht
  have hne : i ≠ r.1 := by
    rintro rfl
    have heq : t = r.2 := congrArg Prod.snd (eq_of_mem hi hrow rfl)
    exact htphase (heq ▸ hphase)
  exact ⟨t, mem_objects.2 ⟨i, List.mem_filter.2 ⟨hi, decide_eq_true hne⟩⟩, htsym, htphase⟩

theorem applyXttCreate_completed {o : XttCreateOperation} (hs : s.Completed sym)
    (h : s.applyXttCreate env o = .ok s') : s'.Completed sym := by
  obtain ⟨token, s1, tokens, pool, htoken, hpaid, hnew, rfl⟩ := applyXttCreate_ok h
  have hpaid : s1.Completed sym := by
    rcases payOrResetXtt_ok hpaid with ⟨-, -, s2, hspent, hnull⟩ | ⟨r, rfl, hphase, rfl⟩
    · exact (hs.of_kept (.of_adjust hspent)).of_kept (.of_adjust hnull)
    · exact hs.remove (of_findTokenAgnostic htoken) hphase
  exact (hpaid.create hnew :)

end Objects

end Xgt
