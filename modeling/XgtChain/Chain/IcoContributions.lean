import XgtChain.Base.Run
import XgtChain.Chain.PushBlock
import XgtChain.Chain.Tokens

/-!
# The contributions to ICOs

A token whose setup is completed has an ICO, which counts what was contributed to it.
-/

namespace Xgt

open Base ObjectIndex List

def Operation.isIco : Operation → Bool
  | .xttSetup _ | .xttSetupIcoTier _ | .xttContribute _ => true
  | _ => false

namespace Objects

variable (s : Objects)
variable {env : Env} {sym : AssetSymbol}

def applyXttIcoLaunch (env : Env) (symbol : AssetSymbol) : Result Objects := do
  let t ← getRow (s.xttTokens.find? fun t => t.liquidSymbol = symbol)
  let ico ← getRow (s.xttIcos.find? fun i => i.symbol = t.2.liquidSymbol)
  let tokens ← dbModify s.xttTokens t.1 { t.2 with phase := .ico }
  pushRequiredAction { s with xttTokens := tokens } env (.xttIcoEvaluation t.2.controlAccount t.2.liquidSymbol)
    ico.2.contributionEndTime

def applyXttIcoEvaluation (env : Env) (symbol : AssetSymbol) : Result Objects := do
  let t ← getRow (s.xttTokens.find? fun t => t.liquidSymbol = symbol)
  let ico ← getRow (s.xttIcos.find? fun i => i.symbol = t.2.liquidSymbol)
  if ico.2.xgtUnitsMin ≤ ico.2.contributed.amount then
    let tokens ← dbModify s.xttTokens t.1 { t.2 with phase := .icoCompleted }
    pushRequiredAction { s with xttTokens := tokens } env (.xttTokenLaunch t.2.controlAccount t.2.liquidSymbol)
      ico.2.launchTime
  else
    let tokens ← dbModify s.xttTokens t.1 { t.2 with phase := .launchFailed }
    pure { s with xttTokens := tokens }

def applyXttTokenLaunch (symbol : AssetSymbol) : Result Objects := do
  let t ← getRow (s.xttTokens.find? fun t => t.liquidSymbol = symbol)
  let tokens ← dbModify s.xttTokens t.1 { t.2 with phase := .launchSuccess }
  pure { s with xttTokens := tokens }

def applyRequiredAction (env : Env) : RequiredAutomatedAction → Result Objects
  | .xttIcoLaunch _ symbol => s.applyXttIcoLaunch env symbol
  | .xttIcoEvaluation _ symbol => s.applyXttIcoEvaluation env symbol
  | .xttTokenLaunch _ symbol => s.applyXttTokenLaunch symbol
  | .xttRefund _ _ _ _ | .exampleRequired _ => pure s

variable {s} {s' : Objects} {o : XttSetupIcoTierOperation} {a : RequiredAutomatedAction}
  {r : Nat × XttTokenObject}

theorem applyRequiredAction_ok (h : s.applyRequiredAction env a = .ok s') :
    s' = s ∨ ∃ (t : Nat × XttTokenObject) (phase : XttPhase) (tokens : ObjectIndex XttTokenObject)
      (actions : ObjectIndex PendingRequiredActionObject), (t.1, t.2) ∈ s.xttTokens.rows ∧ phase ≠ .setup ∧
      s.xttTokens.modify? t.1 { t.2 with phase := phase } = some tokens ∧
      s' = { s with xttTokens := tokens, pendingRequiredActions := actions } := by
  cases a with
  | xttIcoLaunch name sym =>
    obtain ⟨t, ht, h⟩ := of_bind h
    obtain ⟨ico, -, h⟩ := of_bind h
    obtain ⟨tokens, hmod, h⟩ := of_bind h
    obtain ⟨actions, -, rfl⟩ := pushRequiredAction_ok h
    exact .inr ⟨t, .ico, tokens, actions, (of_getRow ht).1, by decide, dbModify_ok_iff.1 hmod, rfl⟩
  | xttIcoEvaluation name sym =>
    obtain ⟨t, ht, h⟩ := of_bind h
    obtain ⟨ico, -, h⟩ := of_bind h
    split_ifs at h
    · obtain ⟨tokens, hmod, h⟩ := of_bind h
      obtain ⟨actions, -, rfl⟩ := pushRequiredAction_ok h
      exact .inr ⟨t, .icoCompleted, tokens, actions, (of_getRow ht).1, by decide, dbModify_ok_iff.1 hmod, rfl⟩
    · obtain ⟨tokens, hmod, h⟩ := of_bind h
      cases h
      exact .inr ⟨t, .launchFailed, tokens, _, (of_getRow ht).1, by decide, dbModify_ok_iff.1 hmod, rfl⟩
  | xttTokenLaunch name sym =>
    obtain ⟨t, ht, h⟩ := of_bind h
    obtain ⟨tokens, hmod, h⟩ := of_bind h
    cases h
    exact .inr ⟨t, .launchSuccess, tokens, _, (of_getRow ht).1, by decide, dbModify_ok_iff.1 hmod, rfl⟩
  | xttRefund contributor sym contributionId refund => exact .inl (Except.ok.inj h).symm
  | exampleRequired account => exact .inl (Except.ok.inj h).symm

theorem applyXttSetupIcoTier_tiers (hvalid : o.validate = .ok ()) (h : s.applyXttSetupIcoTier o = .ok s') :
    ∃ (t : Nat × XttTokenObject) (c : RowCall XttIcoTierObject) (tiers : ObjectIndex XttIcoTierObject),
      t ∈ s.xttTokens.rows ∧ t.2.phase = .setup ∧ c.Runs s.xttIcoTiers tiers ∧
      (∀ sym, sym ≠ t.2.liquidSymbol → tiers.objects.filter (fun x => x.symbol = sym) =
        s.xttIcoTiers.objects.filter (fun x => x.symbol = sym)) ∧
      c.Writes (fun x => 0 ≤ x.xgtUnitsCap) ∧ s' = { s with xttIcoTiers := tiers } := by
  obtain ⟨t, hrow, hphase, ⟨r, hr, hsym, rfl⟩ | ⟨a, tiers, hsym, hcap, hnew, rfl⟩⟩ := applyXttSetupIcoTier_ok h
  · refine ⟨t, .remove r.1 r.2, _, hrow, hphase, .remove hr, fun sym hne => ?_, trivial, rfl⟩
    exact filter_objects_remove hr (decide_eq_false fun heq => hne (heq.symm.trans hsym))
  · refine ⟨t, .create a, tiers, hrow, hphase, .create hnew, fun sym hne => ?_, ?_, rfl⟩
    · rw [create?_eq hnew]
      have hother : a.symbol ≠ sym := fun heq => hne (heq.symm.trans hsym)
      simp [objects, append, hother]
    · unfold XttSetupIcoTierOperation.validate at hvalid
      obtain ⟨_, -, hvalid⟩ := of_bind hvalid
      obtain ⟨_, hpos, -⟩ := of_bind hvalid
      have hpos := of_fcAssert hpos
      exact hpos.trans_eq hcap.symm

theorem Completed.ne_setup (hunique : s.xttTokens.Unique) (h : s.Completed sym)
    (hrow : r ∈ s.xttTokens.rows) (hphase : r.2.phase = .setup) : sym ≠ r.2.liquidSymbol := by
  obtain ⟨t, ht, htsym, htphase⟩ := h
  obtain ⟨i, hi⟩ := mem_objects.1 ht
  intro hsym
  have heq := hunique _ hi _ hrow (decide_eq_true (htsym.trans hsym))
  exact htphase ((congrArg (fun r => r.2.phase) heq).trans hphase)

def contributionsIn (s : Objects) (sym : AssetSymbol) : Int :=
  s.xttContributions.sumBy fun c => if c.symbol = sym then c.contribution.amount else 0

/-! ## The books -/

structure IcoBooks (s : Objects) : Prop where
  unique : s.XttUnique
  completed : ∀ i ∈ s.xttIcos.objects, s.Completed i.symbol
  known : ∀ c ∈ s.xttContributions.objects, ∃ i ∈ s.xttIcos.objects, i.symbol = c.symbol
  contributed : ∀ i ∈ s.xttIcos.objects, i.contributed.amount = s.contributionsIn i.symbol
  capped : ∀ i ∈ s.xttIcos.objects, ∀ cap, s.xgtUnitsHardCap i.symbol = some cap → i.contributed.amount ≤ cap
  uncapped : ∀ i ∈ s.xttIcos.objects, s.xgtUnitsHardCap i.symbol = none → i.contributed.amount = 0
  tiers : ∀ t ∈ s.xttIcoTiers.objects, 0 ≤ t.xgtUnitsCap

theorem IcoBooks.of_empty (htokens : s.xttTokens.Unique) (hicos : s.xttIcos = .empty)
    (htiers : s.xttIcoTiers = .empty) (hcontributions : s.xttContributions = .empty) : s.IcoBooks := by
  refine ⟨⟨htokens, ?_, ?_, ?_⟩, ?_, ?_, ?_, ?_, ?_, ?_⟩
  all_goals simp only [hicos, htiers, hcontributions]
  all_goals exact fun _ hmem => absurd hmem not_mem_nil

structure SameIcos (s s' : Objects) : Prop where
  xttIcos : s'.xttIcos = s.xttIcos
  xttIcoTiers : s'.xttIcoTiers = s.xttIcoTiers
  xttContributions : s'.xttContributions = s.xttContributions

theorem SameIcos.hardCap (h : SameIcos s s') (sym : AssetSymbol) :
    s'.xgtUnitsHardCap sym = s.xgtUnitsHardCap sym := by
  unfold xgtUnitsHardCap
  rw [h.xttIcoTiers]

theorem IcoBooks.of_same (h : s.IcoBooks) (hsame : SameIcos s s') (hunique : s'.XttUnique)
    (hcompleted : ∀ sym, s.Completed sym → s'.Completed sym) : s'.IcoBooks := by
  refine ⟨hunique, ?_, ?_, ?_, ?_, ?_, ?_⟩
  · rw [hsame.xttIcos]
    exact fun i hi => hcompleted _ (h.completed i hi)
  · rw [hsame.xttIcos, hsame.xttContributions]
    exact h.known
  · unfold contributionsIn
    rw [hsame.xttIcos, hsame.xttContributions]
    exact h.contributed
  · simp only [hsame.xttIcos, hsame.hardCap]
    exact h.capped
  · simp only [hsame.xttIcos, hsame.hardCap]
    exact h.uncapped
  · rw [hsame.xttIcoTiers]
    exact h.tiers

theorem IcoBooks.contributionsIn_setup (h : s.IcoBooks)
    (hrow : r ∈ s.xttTokens.rows) (hphase : r.2.phase = .setup) : s.contributionsIn r.2.liquidSymbol = 0 := by
  refine sumBy_eq_zero fun c hc => if_neg fun hsym => ?_
  obtain ⟨i, hi, hisym⟩ := h.known c hc
  exact (h.completed i hi).ne_setup h.unique.xttTokens hrow hphase (hisym.trans hsym)

theorem IcoBooks.hardCap_nonneg (h : s.IcoBooks) {cap : Int}
    (hcap : s.xgtUnitsHardCap sym = some cap) : 0 ≤ cap := by
  obtain ⟨t, ht, rfl⟩ := mem_map.1 (max?_mem hcap)
  exact h.tiers t (mem_of_mem_filter ht)

theorem IcoBooks.setup {o : XttSetupOperation} (h : s.IcoBooks) (hunique : s'.XttUnique)
    (hok : s.applyXttSetup env o = .ok s') : s'.IcoBooks := by
  obtain ⟨t, tokens, ico, icos, actions, hrow, hsym, hphase, hmod, ⟨hisym, hnone, hnew⟩, -, rfl⟩ :=
    applyXttSetup_ok hok
  have hcases : ∀ i ∈ icos.objects, i ∈ s.xttIcos.objects ∨ i = ico := fun i hi => (mem_create? hnew).1 hi
  have hzero : ico.contributed.amount = 0 := congrArg Asset.amount hnone
  refine ⟨hunique, fun i hi => ?_, fun c hc => ?_, fun i hi => ?_, fun i hi cap hcap =>
    ?_, fun i hi hcap => ?_, h.tiers⟩
  · rcases hcases i hi with hi | rfl
    · exact (h.completed i hi).of_kept (.of_modify hrow hmod rfl (fun hp => XttPhase.noConfusion hp) rfl)
    · exact ⟨_, mem_objects.2 ⟨t.1, mem_modify? hmod hrow⟩, hsym.trans hisym.symm,
        fun hp => XttPhase.noConfusion hp⟩
  · obtain ⟨i, hi, hic⟩ := h.known c hc
    exact ⟨i, (mem_create? hnew).2 (.inl hi), hic⟩
  · rcases hcases i hi with hi | rfl
    · exact h.contributed i hi
    · rw [hzero, hisym, ← hsym]
      exact (h.contributionsIn_setup hrow hphase).symm
  · rcases hcases i hi with hi | rfl
    · exact h.capped i hi cap hcap
    · exact hzero.trans_le (h.hardCap_nonneg hcap)
  · rcases hcases i hi with hi | rfl
    · exact h.uncapped i hi hcap
    · exact hzero

theorem hardCap_of_filter {tiers : ObjectIndex XttIcoTierObject}
    (h : tiers.objects.filter (fun x => x.symbol = sym) = s.xttIcoTiers.objects.filter (fun x =>
      x.symbol = sym)) :
    xgtUnitsHardCap { s with xttIcoTiers := tiers } sym = s.xgtUnitsHardCap sym := by
  unfold xgtUnitsHardCap
  rw [h]

theorem IcoBooks.tier (h : s.IcoBooks) (hunique : s'.XttUnique)
    (hvalid : o.validate = .ok ()) (hok : s.applyXttSetupIcoTier o = .ok s') : s'.IcoBooks := by
  obtain ⟨t, c, tiers, hrow, hphase, hrun, hothers, hwrites, rfl⟩ := applyXttSetupIcoTier_tiers hvalid hok
  have hcap : ∀ i ∈ s.xttIcos.objects, xgtUnitsHardCap { s with xttIcoTiers := tiers } i.symbol =
      s.xgtUnitsHardCap i.symbol := fun i hi =>
    hardCap_of_filter (hothers _ ((h.completed i hi).ne_setup h.unique.xttTokens hrow hphase))
  exact ⟨hunique, h.completed, h.known, h.contributed, fun i hi cap hc => h.capped i hi cap (hcap i hi ▸ hc),
    fun i hi hc => h.uncapped i hi (hcap i hi ▸ hc), hrun.forall_objects hwrites h.tiers⟩

theorem IcoBooks.contribute {o : XttContributeOperation} (h : s.IcoBooks) (hunique : s'.XttUnique)
    (hok : s.applyXttContribute o = .ok s') : s'.IcoBooks := by
  obtain ⟨ico, cap, contributed, s1, contributions, icos, ⟨hrow, hsym, hcap⟩, hadd, hle, hpaid,
    hnew, hmod, rfl⟩ :=
    applyXttContribute_ok hok
  have hamount : contributed.amount = ico.2.contributed.amount +
    o.contribution.amount := by rw [(of_assetAdd hadd).2]
  have hcompleted : ∀ i ∈ s.xttIcos.objects, s1.Completed i.symbol :=
    fun i hi => (h.completed i hi).of_kept (.of_adjust hpaid)
  obtain ⟨_, _, _, rfl⟩ := adjustBalance_eq hpaid
  have hico : ico.2 ∈ s.xttIcos.objects := mem_objects.2 ⟨ico.1, hrow⟩
  -- no other ICO has the symbol
  have hcases : ∀ i ∈ icos.objects, (i ∈ s.xttIcos.objects ∧ i.symbol ≠ o.symbol) ∨
      i = { ico.2 with contributed := contributed } := by
    intro i hi
    obtain ⟨id, hid⟩ := mem_objects.1 hi
    rw [modify?_eq hmod] at hid
    obtain ⟨r, hr, hset⟩ := mem_map.1 hid
    by_cases hid : r.1 = ico.1
    · rw [ObjectIndex.setRow, if_pos hid] at hset
      exact .inr (congrArg Prod.snd hset).symm
    · rw [ObjectIndex.setRow, if_neg hid] at hset
      subst hset
      refine .inl ⟨mem_objects.2 ⟨_, hr⟩, fun hsame => hid ?_⟩
      exact congrArg Prod.fst (h.unique.xttIcos _ hr _ hrow (decide_eq_true (hsame.trans hsym.symm)))
  have hrun : RowCall.Runs (.create ⟨o.symbol, o.contributor, o.contributionId, o.contribution⟩)
    s.xttContributions contributions := .create hnew
  have hsum : ∀ sym, contributions.sumBy (fun c => if c.symbol = sym then c.contribution.amount else 0) =
      s.contributionsIn sym + if o.symbol = sym then o.contribution.amount else 0 := fun sym => hrun.sumBy _
  have hnewIco : { ico.2 with contributed := contributed } ∈ icos.objects :=
    mem_objects.2 ⟨ico.1, mem_modify? hmod hrow⟩
  refine ⟨hunique, fun i hi => ?_, fun c hc => ?_, fun i hi => ?_, fun i hi cap' hcap' =>
    ?_, fun i hi hcap' => ?_,
    h.tiers⟩
  · rcases hcases i hi with ⟨hi, -⟩ | rfl
    · exact hcompleted i hi
    · exact hcompleted ico.2 hico
  · rcases (mem_create? hnew).1 hc with hc | rfl
    · obtain ⟨i, hi, hisym⟩ := h.known c hc
      by_cases hsame : i.symbol = o.symbol
      · exact ⟨_, hnewIco, hsym.trans (hsame.symm.trans hisym)⟩
      · obtain ⟨id, hid⟩ := mem_objects.1 hi
        refine ⟨i, mem_objects.2 ⟨id, ?_⟩, hisym⟩
        change (id, i) ∈ icos.rows
        rw [modify?_eq hmod]
        refine mem_set_of_ne hid fun heq => hsame ?_
        have hi : i = ico.2 := congrArg Prod.snd (eq_of_mem hid hrow heq)
        exact hi ▸ hsym
    · exact ⟨_, hnewIco, hsym⟩
  · change i.contributed.amount = contributions.sumBy _
    rw [hsum]
    rcases hcases i hi with ⟨hi, hne⟩ | rfl
    · rw [if_neg fun heq => hne heq.symm, Int.add_zero]
      exact h.contributed i hi
    · rw [if_pos hsym.symm, ← h.contributed ico.2 hico]
      exact hamount
  · rcases hcases i hi with ⟨hi, -⟩ | rfl
    · exact h.capped i hi cap' hcap'
    · have heq : some cap = some cap' := hcap.symm.trans (hsym ▸ hcap')
      cases heq
      exact hle
  · rcases hcases i hi with ⟨hi, -⟩ | rfl
    · exact h.uncapped i hi hcap'
    · have heq : some cap = none := hcap.symm.trans (hsym ▸ hcap')
      cases heq

/-! ## Runs -/

inductive IcoEvent where
  | operation (op : Operation)
  | action (a : RequiredAutomatedAction)
  | block

/-- An operation, an automated action or a block's bookkeeping. -/
def IcoStep (cr : Crypto) (s : Objects) (e : IcoEvent) (s' : Objects) : Prop :=
  match e with
  | .operation op => op.Valid cr ∧ ∃ env, s.applyOperation cr env op = .ok s'
  | .action a => ∃ env, s.applyRequiredAction env a = .ok s'
  | .block => Does Call.Outside s s'

theorem Does.sameIcos {p : Call → Prop} (h : Does p s s')
    (hp : ∀ c, p c → c.table ≠ .xttIco ∧ c.table ≠ .xttIcoTier ∧
      c.table ≠ .xttContribution) : SameIcos s s' := by
  refine ⟨h.keeps Objects.xttIcos fun hc hrun => ?_, h.keeps Objects.xttIcoTiers fun hc hrun => ?_,
    h.keeps Objects.xttContributions fun hc hrun => ?_⟩
  · cases hrun with
    | xttIco h => exact absurd rfl (hp _ hc).1
    | _ => rfl
  · cases hrun with
    | xttIcoTier h => exact absurd rfl (hp _ hc).2.1
    | _ => rfl
  · cases hrun with
    | xttContribution h => exact absurd rfl (hp _ hc).2.2
    | _ => rfl

theorem applyOperation_sameIcos {cr : Crypto} {op : Operation} (hop : op.isIco = false)
    (h : s.applyOperation cr env op = .ok s') : SameIcos s s' := by
  refine (applyOperation_calls h).sameIcos fun c hc => ?_
  have hmem : c.table ∈ op.tables := hc.1
  refine ⟨fun heq => ?_, fun heq => ?_, fun heq => ?_⟩
  all_goals
    rw [heq] at hmem
    cases op <;> first | exact Bool.noConfusion hop | exact absurd hmem (by simp [Operation.tables])

variable {cr : Crypto} {e : IcoEvent}

section

variable (hstep : IcoStep cr s e s')
include hstep

theorem IcoStep.xttUnique (h : s.XttUnique) : s'.XttUnique := by
  cases e with
  | operation op =>
    obtain ⟨-, env, hok⟩ := hstep
    exact (applyOperation_calls hok).xttUnique h
  | action a =>
    obtain ⟨env, hok⟩ := hstep
    rcases applyRequiredAction_ok hok with rfl | ⟨t, phase, tokens, actions, hrow, -, hmod, rfl⟩
    · exact h
    · exact { h with xttTokens := (RowCall.Runs.modify hrow hmod fun _ => rfl).unique h.xttTokens }
  | block => exact Does.xttUnique hstep h

theorem IcoStep.tokensKept (he : ∀ o, e ≠ .operation (.xttCreate o)) : TokensKept s s' := by
  cases e with
  | operation op =>
    obtain ⟨-, env, hok⟩ := hstep
    exact applyOperation_tokensKept (fun o ho => he o (ho ▸ rfl)) hok
  | action a =>
    obtain ⟨env, hok⟩ := hstep
    rcases applyRequiredAction_ok hok with rfl | ⟨t, phase, tokens, actions, hrow, hphase, hmod, rfl⟩
    · exact .of_eq rfl
    · exact .of_modify hrow hmod rfl (fun hp => absurd hp hphase) rfl
  | block => exact .of_eq hstep.sameTokens_of_outside.xttTokens

theorem IcoStep.completed (h : s.Completed sym) : s'.Completed sym := by
  by_cases he : ∃ o, e = .operation (.xttCreate o)
  · obtain ⟨o, rfl⟩ := he
    obtain ⟨-, env, hok⟩ := hstep
    exact applyXttCreate_completed h hok
  · exact h.of_kept (hstep.tokensKept fun o ho => he ⟨o, ho⟩)

theorem IcoStep.sameIcos (he : ∀ op, e = .operation op → op.isIco = false) : SameIcos s s' := by
  cases e with
  | operation op =>
    obtain ⟨-, env, hok⟩ := hstep
    exact applyOperation_sameIcos (he op rfl) hok
  | action a =>
    obtain ⟨env, hok⟩ := hstep
    rcases applyRequiredAction_ok hok with rfl | ⟨t, phase, tokens, actions, -, -, -, rfl⟩
    · exact ⟨rfl, rfl, rfl⟩
    · exact ⟨rfl, rfl, rfl⟩
  | block =>
    refine Does.sameIcos hstep fun c hc => ⟨fun heq => ?_, fun heq => ?_, fun heq => ?_⟩
    all_goals cases c <;> first | exact hc.elim | exact TableName.noConfusion heq

end

theorem IcoBooks.step (h : s.IcoBooks) (hstep : IcoStep cr s e s') : s'.IcoBooks := by
  have hunique := hstep.xttUnique h.unique
  by_cases he : ∃ op, e = .operation op ∧ op.isIco = true
  · obtain ⟨op, rfl, hop⟩ := he
    obtain ⟨hvalid, env, hok⟩ := hstep
    cases op with
    | xttSetup o => exact h.setup hunique hok
    | xttSetupIcoTier o => exact h.tier hunique hvalid hok
    | xttContribute o => exact h.contribute hunique hok
    | _ => exact Bool.noConfusion hop
  · refine h.of_same (hstep.sameIcos fun op heq => ?_) hunique fun sym => hstep.completed
    exact eq_false_of_ne_true fun hop => he ⟨op, heq, hop⟩

theorem frozen_step (hunique : s.xttTokens.Unique) (hstep : IcoStep cr s e s')
    (h : s.Completed sym) : s'.xgtUnitsHardCap sym = s.xgtUnitsHardCap sym := by
  by_cases he : ∃ op, e = .operation op ∧ op.isIco = true
  · obtain ⟨op, rfl, hop⟩ := he
    obtain ⟨hvalid, env, hok⟩ := hstep
    cases op with
    | xttSetup o =>
      obtain ⟨t, tokens, ico, icos, actions, -, -, -, -, -, -, rfl⟩ := applyXttSetup_ok hok
      rfl
    | xttSetupIcoTier o =>
      obtain ⟨t, c, tiers, hrow, hphase, -, hothers, -, rfl⟩ := applyXttSetupIcoTier_tiers hvalid hok
      exact hardCap_of_filter (hothers _ (h.ne_setup hunique hrow hphase))
    | xttContribute o =>
      obtain ⟨ico, cap, contributed, s1, contributions, icos, -, -, -, hpaid, -, -, rfl⟩ :=
        applyXttContribute_ok hok
      obtain ⟨_, _, _, rfl⟩ := adjustBalance_eq hpaid
      rfl
    | _ => exact Bool.noConfusion hop
  · refine (hstep.sameIcos fun op heq => ?_).hardCap sym
    exact eq_false_of_ne_true fun hop => he ⟨op, heq, hop⟩

theorem frozen_run {events : List (Objects × IcoEvent)} (hunique : s.XttUnique)
    (hrun : Run (IcoStep cr) s events s') (h : s.Completed sym) : s'.xgtUnitsHardCap sym =
      s.xgtUnitsHardCap sym := by
  have hall := hrun.invariant (I := fun u => u.XttUnique ∧ u.Completed sym ∧
    u.xgtUnitsHardCap sym = s.xgtUnitsHardCap sym) ⟨hunique, h, rfl⟩ fun _ hu hstep =>
      ⟨hstep.xttUnique hu.1, hstep.completed hu.2.1, (frozen_step hu.1.xttTokens hstep hu.2.1).trans hu.2.2⟩
  exact hall.1.2.2

end Objects

open Objects

variable {cr : Crypto} {s0 s : Objects} {events : List (Objects × IcoEvent)}

theorem ico_contributions (htokens : s0.xttTokens.Unique) (hicos : s0.xttIcos = .empty)
    (htiers : s0.xttIcoTiers = .empty) (hcontributions : s0.xttContributions = .empty)
    (h : Run (IcoStep cr) s0 events s) :
    (∀ i ∈ s.xttIcos.objects, i.contributed.amount = s.contributionsIn i.symbol ∧
      (∀ cap, s.xgtUnitsHardCap i.symbol = some cap → i.contributed.amount ≤ cap) ∧
      (s.xgtUnitsHardCap i.symbol = none → i.contributed.amount = 0)) ∧
    (∀ t ∈ s.xttTokens.objects, t.phase ≠ .setup → ∀ events' s', Run (IcoStep cr) s events' s' →
      s'.xgtUnitsHardCap t.liquidSymbol = s.xgtUnitsHardCap t.liquidSymbol) ∧
    ∀ r ∈ s.xttContributions.rows, ∀ r' ∈ s.xttContributions.rows, r.2.symbol = r'.2.symbol →
      r.2.contributor = r'.2.contributor → r.2.contributionId = r'.2.contributionId → r = r' := by
  have hs := (h.invariant (IcoBooks.of_empty htokens hicos htiers hcontributions) fun _ hs hstep =>
    hs.step hstep).1
  refine ⟨fun i hi => ⟨hs.contributed i hi, hs.capped i hi, hs.uncapped i hi⟩,
    fun t ht hphase events' s' hrun =>
    frozen_run hs.unique hrun ⟨t, ht, rfl, hphase⟩, fun r hr r' hr' hsym hname hid => ?_⟩
  refine hs.unique.xttContributions r hr r' hr' ?_
  simp only [Keyed.clash, hsym, hname, hid, decide_true, Bool.and_self]

def icoStart : Objects :=
  { genesis ⟨1⟩ with
    xttTokens := .ofList
      [{ liquidSymbol := ⟨12345678 * 32 + 16 + 3⟩, controlAccount := xgtInitMinerName, desiredTicker := "" }] }

def icoEvents : List IcoEvent :=
  let units : XttGenerationUnit := ⟨⟨[("$from", 1)], pairwise_singleton _ _⟩, .empty⟩
  let tier cap := Operation.xttSetupIcoTier
    { controlAccount := xgtInitMinerName, symbol := ⟨12345678 * 32 + 16 + 3⟩, xgtUnitsCap := cap,
      generationPolicy := units }
  let contribute n amount := Operation.xttContribute
    { contributor := xgtInitMinerName, symbol := ⟨12345678 * 32 + 16 + 3⟩, contributionId := n,
      contribution := .xgt amount }
  [.operation (tier 60), .operation (tier 90),
   .operation (.xttSetup
    { controlAccount := xgtInitMinerName, symbol := ⟨12345678 * 32 + 16 + 3⟩,
      contributionBeginTime := xgtGenesisTime + 1, contributionEndTime := xgtGenesisTime + 2,
      launchTime := xgtGenesisTime + 3, xgtUnitsMin := 50 }),
   .action (.xttIcoLaunch xgtInitMinerName ⟨12345678 * 32 + 16 + 3⟩),
   .operation (contribute 1 50), .operation (contribute 2 40)]

def applyIcoEvent (cr : Crypto) (env : Env) (s : Objects) : IcoEvent → Result Objects
  | .operation op => do
    op.validate cr
    s.applyOperation cr env op
  | .action a => s.applyRequiredAction env a
  | .block => pure s

theorem applyIcoEvent_step {env : Env} {e : IcoEvent} {s' : Objects} (h : applyIcoEvent cr env s e = .ok s') :
    IcoStep cr s e s' := by
  cases e with
  | operation op =>
    obtain ⟨_, hvalid, h⟩ := of_bind h
    exact ⟨hvalid, env, h⟩
  | action a => exact ⟨env, h⟩
  | block =>
    cases h
    exact .refl

theorem ico_contributions_filled : ∃ (events : List (Objects × IcoEvent)) (s : Objects),
    Run (IcoStep toyParams.toCrypto) icoStart events s ∧
      s.xttIcos.objects.map (fun i => i.contributed.amount) = [90] ∧
      ((∀ i ∈ s.xttIcos.objects, i.contributed.amount = s.contributionsIn i.symbol ∧
        (∀ cap, s.xgtUnitsHardCap i.symbol = some cap → i.contributed.amount ≤ cap) ∧
        (s.xgtUnitsHardCap i.symbol = none → i.contributed.amount = 0)) ∧
      (∀ t ∈ s.xttTokens.objects, t.phase ≠ .setup →
        ∀ events' s', Run (IcoStep toyParams.toCrypto) s events' s' →
        s'.xgtUnitsHardCap t.liquidSymbol = s.xgtUnitsHardCap t.liquidSymbol) ∧
      ∀ r ∈ s.xttContributions.rows, ∀ r' ∈ s.xttContributions.rows, r.2.symbol = r'.2.symbol →
        r.2.contributor = r'.2.contributor → r.2.contributionId = r'.2.contributionId → r = r') := by
  obtain ⟨s, hs, hshape⟩ := exists_ok_of_any
    (x := icoEvents.foldlM (applyIcoEvent toyParams.toCrypto toyEnv) icoStart)
    (p := fun s => s.xttIcos.objects.map (fun i => i.contributed.amount) = [90]) (by decide +kernel)
  have hrun := (Run.of_foldlM hs).mono fun _ _ _ => applyIcoEvent_step
  have htokens : icoStart.xttTokens.Unique := fun r hr r' hr' _ => by
    rw [mem_singleton.1 hr, mem_singleton.1 hr']
  exact ⟨_, s, hrun, of_decide_eq_true hshape, ico_contributions htokens rfl rfl rfl hrun⟩

end Xgt
