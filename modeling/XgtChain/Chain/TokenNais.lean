import XgtChain.Chain.IcoContributions
import XgtChain.Chain.NaiPool
import XgtChain.Protocol.AssetSymbol

/-!
# One token for each NAI

A symbol is the number of an identifier, one control bit and the precision, so the unique index of the
tokens lets two tokens with one identifier pass.
-/

namespace Xgt

open Base ObjectIndex AssetSymbol List

namespace Objects

variable {s s' : Objects} {r : Nat × XttTokenObject} {o : XttCreateOperation}

structure NaisDistinct (s : Objects) : Prop where
  control : s.ControlBits
  distinct : ∀ r ∈ s.xttTokens.rows, ∀ r' ∈ s.xttTokens.rows,
    r.2.liquidSymbol.assetNum / 32 = r'.2.liquidSymbol.assetNum / 32 → r = r'

theorem NaisDistinct.of_empty (h : s.xttTokens = .empty) : s.NaisDistinct := by
  refine ⟨fun r hr => ?_, fun r hr => ?_⟩
  all_goals exact absurd (h ▸ hr) not_mem_nil

section

variable (h : s.NaisDistinct)
include h

theorem NaisDistinct.find {sym : AssetSymbol} {token : Option (Nat × XttTokenObject)}
    (hfind : s.findTokenAgnostic sym = .ok token) (hr : r ∈ s.xttTokens.rows)
    (hsym : r.2.liquidSymbol.assetNum / 32 = sym.assetNum / 32) : token = some r := by
  rw [findTokenAgnostic_lower] at hfind
  iterate 2 obtain ⟨_, -, hfind⟩ := of_bind hfind
  cases hfind
  obtain ⟨b, hb⟩ := lowestToken_of_mem hr (h.control r hr) hsym
  obtain ⟨hmem, hdigits⟩ := of_lowestToken hb
  rw [hb, h.distinct b hmem r hr (hdigits.trans hsym.symm)]

theorem NaisDistinct.of_same (hsame : SameSymbols s s') : s'.NaisDistinct := by
  refine ⟨fun r hr => ?_, fun r hr r' hr' hnai => ?_⟩
  · obtain ⟨t, ht, hsym⟩ := hsame r hr
    exact hsym ▸ h.control _ ht
  · obtain ⟨t, ht, hsym⟩ := hsame r hr
    obtain ⟨t', ht', hsym'⟩ := hsame r' hr'
    have heq : (r.1, t) = (r'.1, t') := h.distinct _ ht _ ht' (by rw [hsym, hsym', hnai])
    exact eq_of_mem hr hr' (Prod.ext_iff.1 heq).1

theorem NaisDistinct.create {env : Env}
    (hvalid : o.validate = .ok ()) (hok : s.applyXttCreate env o = .ok s') : s'.NaisDistinct := by
  obtain ⟨token, s1, tokens, pool, hfind, hpaid, hnew, rfl⟩ := applyXttCreate_ok hok
  obtain ⟨hcontrol, hfee⟩ := of_xttCreate_validate hvalid
  -- no token with the identifier is left
  have hleft : ∀ r ∈ s1.xttTokens.rows, r ∈ s.xttTokens.rows ∧
      r.2.liquidSymbol.assetNum / 32 ≠ o.symbol.assetNum / 32 := by
    rcases payOrResetXtt_ok hpaid with ⟨-, rfl, s2, hspent, hnull⟩ | ⟨t, rfl, -, rfl⟩
    · obtain ⟨wallets, rfl⟩ := adjustBalance_xgt hspent hfee
      obtain ⟨wallets', rfl⟩ := adjustBalance_xgt hnull hfee
      exact fun r hr => ⟨hr, fun hnai => nomatch h.find hfind hr hnai⟩
    · intro r hr
      obtain ⟨hr, hne⟩ := mem_filter.1 hr
      refine ⟨hr, fun hnai => ?_⟩
      cases h.find hfind hr hnai
      exact of_decide_eq_true hne rfl
  have hrows : ∀ r ∈ tokens.rows, r ∈ s1.xttTokens.rows ∨ r = (s1.xttTokens.nextId, newToken o) := by
    intro r hr
    rw [create?_eq hnew] at hr
    exact (mem_append.1 hr).imp_right mem_singleton.1
  refine ⟨fun r hr => ?_, fun r hr r' hr' hnai => ?_⟩
  · rcases hrows r hr with hr | rfl
    · exact h.control r (hleft r hr).1
    · exact hcontrol
  · rcases hrows r hr with hr | rfl <;> rcases hrows r' hr' with hr' | rfl
    · exact h.distinct r (hleft r hr).1 r' (hleft r' hr').1 hnai
    · exact absurd hnai (hleft r hr).2
    · exact absurd hnai.symm (hleft r' hr').2
    · rfl

theorem NaisDistinct.step {cr : Crypto} {e : IcoEvent} (hstep : IcoStep cr s e s') : s'.NaisDistinct := by
  by_cases he : ∃ o, e = .operation (.xttCreate o)
  · obtain ⟨o, rfl⟩ := he
    obtain ⟨hvalid, env, hok⟩ := hstep
    exact h.create hvalid hok
  · exact h.of_same (hstep.tokensKept fun o ho => he ⟨o, ho⟩).before

end

/-! ## Resets -/

/-- The token is as it was created, with nothing left of an earlier one. -/
structure AsNew (s : Objects) (o : XttCreateOperation) : Prop where
  token : ∃ id, s.xttTokens.find? (fun t => t.liquidSymbol = o.symbol) = some (id, newToken o)
  icos : ∀ i ∈ s.xttIcos.objects, i.symbol.toNai ≠ o.symbol.toNai
  tiers : ∀ t ∈ s.xttIcoTiers.objects, t.symbol.toNai ≠ o.symbol.toNai

theorem NaisDistinct.no_ico (h : s.NaisDistinct) (hbooks : s.IcoBooks)
    (hfind : s.findTokenAgnostic o.symbol = .ok (some r)) (hphase : r.2.phase = .setup)
    (hcontrol : o.symbol.assetNum / 16 % 2 = 1) {i : XttIcoObject} (hi : i ∈ s.xttIcos.objects) :
    i.symbol.toNai ≠ o.symbol.toNai := by
  intro hnai
  obtain ⟨t, ht, hsym, hdone⟩ := hbooks.completed i hi
  obtain ⟨id, hrow⟩ := mem_objects.1 ht
  have hne : i.symbol ≠ xgtSymbol := hsym ▸ ne_xgt (h.control _ hrow)
  have hdigits := (toNai_inj hne (ne_xgt hcontrol)).1 hnai
  cases h.find hfind hrow ((congrArg (·.assetNum / 32) hsym).trans hdigits)
  exact hdone hphase

end Objects

open Objects

theorem one_token_per_nai {cr : Crypto} {s0 s : Objects} {events : List (Objects × IcoEvent)}
    (h0 : s0.xttTokens = .empty) (h : Run (IcoStep cr) s0 events s) :
    ∀ state, state = s ∨ (∃ e, (state, e) ∈ events) → ∀ r ∈ state.xttTokens.rows,
      ∀ r' ∈ state.xttTokens.rows, r.2.liquidSymbol.toNai = r'.2.liquidSymbol.toNai → r = r' := by
  obtain ⟨hs, hevents⟩ := h.invariant (NaisDistinct.of_empty h0) fun _ hs hstep => hs.step hstep
  intro state hstate r hr r' hr' hnai
  have hdistinct : state.NaisDistinct := by
    rcases hstate with rfl | ⟨e, he⟩
    · exact hs
    · exact hevents _ he
  have hxtt := ne_xgt (hdistinct.control r hr)
  have hxtt' := ne_xgt (hdistinct.control r' hr')
  exact hdistinct.distinct r hr r' hr' ((toNai_inj hxtt hxtt').1 hnai)

def naiStart : Objects :=
  { genesis ⟨1⟩ with naiPool := { nais := naiGenerate 3 :: replicate 9 ⟨0⟩, numAvailableNais := 1 } }

def naiCreations : List IcoEvent :=
  let create (precision : Nat) (fee : Int) := IcoEvent.operation (.xttCreate
    { naiCreate 3 with
      symbol := ⟨(naiGenerate 3).assetNum + precision⟩, precision := precision, xttCreationFee := .xgt fee })
  [create 3 1000, create 5 0, create 1 0]

theorem one_token_per_nai_resets : ∃ (events : List (Objects × IcoEvent)) (s : Objects),
    Run (IcoStep toyParams.toCrypto) naiStart events s ∧
      s.xttTokens.objects.map (fun t => t.liquidSymbol.decimals) = [1] ∧
      ∀ state, state = s ∨ (∃ e, (state, e) ∈ events) → ∀ r ∈ state.xttTokens.rows,
        ∀ r' ∈ state.xttTokens.rows, r.2.liquidSymbol.toNai = r'.2.liquidSymbol.toNai → r = r' := by
  obtain ⟨s, hs, hshape⟩ := exists_ok_of_any
    (x := naiCreations.foldlM (applyIcoEvent toyParams.toCrypto toyEnv) naiStart)
    (p := fun s => s.xttTokens.objects.map (fun t => t.liquidSymbol.decimals) = [1]) (by decide +kernel)
  have hrun := (Run.of_foldlM hs).mono fun _ _ _ => applyIcoEvent_step
  exact ⟨_, s, hrun, of_decide_eq_true hshape, one_token_per_nai rfl hrun⟩

theorem reset_as_new_iff {cr : Crypto} {s0 s s' : Objects} {events : List (Objects × IcoEvent)} {env : Env}
    {o : XttCreateOperation} (htokens : s0.xttTokens = .empty) (hicos : s0.xttIcos = .empty)
    (htiers : s0.xttIcoTiers = .empty) (hcontributions : s0.xttContributions = .empty)
    (h : Run (IcoStep cr) s0 events s) (hvalid : o.validate = .ok ()) (hreset : ¬0 < o.xttCreationFee.amount)
    (hok : s.applyXttCreate env o = .ok s') :
    s'.AsNew o ↔ ∀ t ∈ s.xttIcoTiers.objects, t.symbol.toNai ≠ o.symbol.toNai := by
  have hnais := (h.invariant (NaisDistinct.of_empty htokens) fun _ hs hstep => hs.step hstep).1
  have hbooks := (h.invariant (IcoBooks.of_empty (htokens ▸ unique_empty) hicos htiers hcontributions)
    fun _ hs hstep => hs.step hstep).1
  obtain ⟨token, s1, tokens, pool, hfind, hpaid, hnew, rfl⟩ := applyXttCreate_ok hok
  rcases payOrResetXtt_ok hpaid with ⟨hfee, -⟩ | ⟨t, rfl, hphase, rfl⟩
  · exact absurd hfee hreset
  · obtain ⟨hnone, rfl⟩ := create?_eq_some_iff.1 hnew
    refine ⟨fun h => h.tiers, fun h => ⟨⟨_, find?_append_of_none ?_ (decide_eq_true rfl)⟩, fun i hi => ?_, h⟩⟩
    · exact find?_eq_none.2 fun a ha => decide_eq_false (Ne.symm (of_decide_eq_false (hnone a ha)))
    · exact hnais.no_ico hbooks hfind hphase (of_xttCreate_validate hvalid).1 hi

def naiReset : XttCreateOperation :=
  { naiCreate 3 with symbol := ⟨(naiGenerate 3).assetNum + 5⟩, precision := 5, xttCreationFee := .xgt 0 }

def naiTier : Operation :=
  .xttSetupIcoTier
    { controlAccount := xgtInitMinerName, symbol := ⟨(naiGenerate 3).assetNum + 3⟩, xgtUnitsCap := 60,
      generationPolicy := ⟨⟨[("$from", 2)], pairwise_singleton _ _⟩, .empty⟩ }

theorem exists_reset (later : List IcoEvent) {p : Objects × Objects → Bool} (h : (do
      let s ← (naiCreations.take 1 ++ later).foldlM (applyIcoEvent toyParams.toCrypto toyEnv) naiStart
      let s' ← s.applyXttCreate toyEnv naiReset
      pure (s, s') : Result (Objects × Objects)).toOption.any p = true) :
    ∃ (events : List (Objects × IcoEvent)) (s s' : Objects),
      Run (IcoStep toyParams.toCrypto) naiStart events s ∧
      s.applyXttCreate toyEnv naiReset = .ok s' ∧ p (s, s') = true := by
  obtain ⟨_, hs', hp⟩ := exists_ok_of_any h
  obtain ⟨s, hs, hreset⟩ := of_bind hs'
  obtain ⟨s', hok, hpair⟩ := of_bind hreset
  cases hpair
  exact ⟨_, s, s', (Run.of_foldlM hs).mono fun _ _ _ => applyIcoEvent_step, hok, hp⟩

theorem reset_as_new : ∃ s s' : Objects, s.applyXttCreate toyEnv naiReset = .ok s' ∧
    s'.AsNew naiReset := by
  obtain ⟨events, s, s', hrun, hok, hp⟩ :=
    exists_reset [] (p := fun r => r.1.xttIcoTiers.objects.isEmpty) (by decide +kernel)
  refine ⟨s, s', hok, (reset_as_new_iff rfl rfl rfl rfl hrun (by decide) (by decide) hok).2 ?_⟩
  rw [isEmpty_iff.1 hp]
  exact fun t ht => absurd ht not_mem_nil

theorem reset_leaves_tier : ∃ (events : List (Objects × IcoEvent)) (s s' : Objects),
    Run (IcoStep toyParams.toCrypto) naiStart events s ∧
    s.applyXttCreate toyEnv naiReset = .ok s' ∧
    ∃ t ∈ s'.xttIcoTiers.objects, t.symbol.toNai = naiReset.symbol.toNai := by
  obtain ⟨events, s, s', hrun, hok, hp⟩ := exists_reset [.operation naiTier]
    (p := fun r => r.2.xttIcoTiers.objects.any fun t => t.symbol.toNai = naiReset.symbol.toNai)
    (by decide +kernel)
  obtain ⟨t, ht, hnai⟩ := any_eq_true.1 hp
  exact ⟨events, s, s', hrun, hok, t, ht, of_decide_eq_true hnai⟩

end Xgt
