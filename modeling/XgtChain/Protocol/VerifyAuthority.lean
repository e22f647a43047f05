import XgtChain.Protocol.Validate

/-!
# `verify_authority`

The check that the keys of a transaction satisfy every authority its operations require.
-/

namespace Xgt

open Base

abbrev Check := SignState → Result (Bool × SignState)

namespace Check

def or (a b : Check) : Check := fun s => do
  let (answer, s) ← a s
  if answer then pure (true, s) else b s

def require (c : Check) (e : Exc) (s : SignState) : Result SignState := do
  let (answer, s) ← c s
  ensure answer e
  pure s

def byGetter (ctx : SignContext) (get : AuthorityGetter) (id : WalletName) : Check := fun s => do
  checkAuthority ctx (← get id) s

end Check

structure Approvals where
  money : FlatSet WalletName := .empty
  recovery : FlatSet WalletName := .empty
  social : FlatSet WalletName := .empty

structure Getters where
  money : AuthorityGetter
  recovery : AuthorityGetter
  social : AuthorityGetter

variable (ctx : SignContext) (get : Getters) (s : SignState) (ids : List WalletName)

def verifyMoney : Result SignState :=
  ids.foldlM (fun s id =>
    ((Check.or (checkAuthorityOf ctx id) (Check.byGetter ctx get.recovery id)).require
      ⟨.txMissingMoneyAuth, "Missing Money Authority " ++ id⟩ s)) s

def verifyRecovery (approvals : Approvals) (s : SignState) (ids : List WalletName) : Result SignState :=
  ids.foldlM (fun s id =>
    if id ∈ approvals.recovery then pure s
    else (Check.byGetter ctx get.recovery id).require
      ⟨.txMissingRecoveryAuth, "Missing Recovery Authority " ++ id⟩ s) s

def verifyOther (other : List Authority) : Result SignState :=
  other.foldlM (fun s auth =>
    Check.require (checkAuthority ctx auth) ⟨.txMissingOtherAuth, "Missing Authority"⟩ s) s

def verifySocial : Result SignState :=
  ids.foldlM (fun s id =>
    ((Check.or (checkAuthorityOf ctx id)
        (Check.or (Check.byGetter ctx get.money id) (Check.byGetter ctx get.recovery id))).require
      ⟨.txMissingSocialAuth, "Missing Social Authority " ++ id⟩ s)) s

def verifyAuthority (limits : SignLimits) (ops : List Operation) (sigs : FlatSet PublicKey)
    (get : Getters) (approvals : Approvals := {}) : Result SignState :=
  let required := requiredAuthorities ops
  if required.social ≠ .empty then do
    fcAssert (required.money = .empty) "required_money.size() == 0"
    fcAssert (required.recovery = .empty) "required_recovery.size() == 0"
    fcAssert (required.other = []) "other.size() == 0"
    let s := SignState.init sigs
    verifySocial ⟨get.social, .empty, limits⟩ get
      { s with approvedBy := s.approvedBy.insertAll approvals.social.elems } required.social.elems
  else do
    let ctx : SignContext := ⟨get.money, .empty, limits⟩
    let s := SignState.init sigs
    let s := { s with
      approvedBy := (s.approvedBy.insertAll approvals.money.elems).insertAll
        approvals.recovery.elems }
    let s ← verifyOther ctx s required.other
    let s ← verifyMoney ctx get s required.money.elems
    verifyRecovery ctx get approvals s required.recovery.elems

/-! ## What it guarantees -/

/-- The policies of a wallet's own and recovery authorities. -/
def Getters.policies (w : WalletName) : Set (Policy PublicKey WalletName) :=
  {p | ∃ a, (get.money w = .ok a ∨ get.recovery w = .ok a) ∧ p = a.policy}

def signedIn (sigs : FlatSet PublicKey) (k : PublicKey) : Bool := k ∈ sigs

section Soundness

variable {signed : PublicKey → Bool} {W : WalletName → Prop} {get} {ctx}
variable {s} {s' : SignState} {ids} {id : WalletName}

section

variable (hctx : ctx.Sound signed W) (hs : s.Sound signed W)
  (hclosed : ∀ w, ∀ p ∈ get.policies w, Meets signed W p → W w)
include hctx hs hclosed

theorem Check.byGetter_sound {answer : Bool} (h : Check.byGetter ctx get.recovery id s = .ok (answer, s')) :
    s'.Sound signed W ∧ (answer = true → W id) := by
  obtain ⟨auth, hauth, h⟩ := of_bind h
  obtain ⟨hs', hmeets⟩ := checkAuthority_sound hctx hs h
  exact ⟨hs', fun ha => hclosed id _ ⟨auth, .inr hauth, rfl⟩ (hmeets ha)⟩

omit hclosed in
theorem verifyOther_sound {other : List Authority} (h : verifyOther ctx s other = .ok s') :
    s'.Sound signed W := by
  refine foldlM_ok_of_step h hs fun s auth s' _ hs h => ?_
  obtain ⟨⟨answer, s''⟩, hcheck, h⟩ := of_bind h
  obtain ⟨_, -, h⟩ := of_bind h
  cases h
  exact (checkAuthority_sound hctx hs hcheck).1

theorem requireMoney_sound {e : Exc}
    (h : (Check.or (checkAuthorityOf ctx id) (Check.byGetter ctx get.recovery id)).require e s = .ok s') :
    s'.Sound signed W ∧ W id := by
  obtain ⟨⟨answer, s''⟩, hor, h⟩ := of_bind h
  obtain ⟨_, hanswer, h⟩ := of_bind h
  cases h
  obtain ⟨⟨first, s1⟩, hfirst, hor⟩ := of_bind hor
  obtain ⟨hs1, hd⟩ := checkAuthorityOf_sound hctx hs hfirst
  cases first with
  | true =>
    cases hor
    exact ⟨hs1, hd rfl⟩
  | false =>
    obtain ⟨hs2, hd2⟩ := Check.byGetter_sound hctx hs1 hclosed hor
    exact ⟨hs2, hd2 (ensure_ok_iff.1 hanswer)⟩

theorem verifyMoney_sound (h : verifyMoney ctx get s ids = .ok s') :
    s'.Sound signed W ∧ ∀ w ∈ ids, W w := by
  induction ids generalizing s with
  | nil =>
    cases h
    exact ⟨hs, by simp⟩
  | cons id ids ih =>
    obtain ⟨s1, hstep, hrest⟩ := foldlM_cons_ok_iff.1 h
    obtain ⟨hs1, hd⟩ := requireMoney_sound hctx hs hclosed hstep
    obtain ⟨hs', hds⟩ := ih hs1 hrest
    exact ⟨hs', List.forall_mem_cons.2 ⟨hd, hds⟩⟩

theorem verifyRecovery_sound {approvals : Approvals} (h : verifyRecovery ctx get approvals s ids = .ok s') :
    s'.Sound signed W := by
  refine foldlM_ok_of_step h hs fun s id s' _ hs h => ?_
  split_ifs at h with happroved
  · cases h
    exact hs
  · obtain ⟨⟨answer, s''⟩, hcheck, h⟩ := of_bind h
    obtain ⟨_, -, h⟩ := of_bind h
    cases h
    exact (Check.byGetter_sound hctx hs hclosed hcheck).1

end

variable {sigs : FlatSet PublicKey}

theorem SignState.init_sound (htemp : W "temp") : (SignState.init sigs).Sound (signedIn sigs) W := by
  refine ⟨fun k hk => ?_, fun w hw => ?_⟩
  · obtain ⟨v, hv⟩ := FlatMap.mem_keys.1 hk
    have hmem := FlatMap.mem_entries_ofList hv
    simp only [List.mem_map, Prod.mk.injEq] at hmem
    obtain ⟨k', hk', rfl, -⟩ := hmem
    exact decide_eq_true (FlatSet.mem_def.2 hk')
  · have hname : w = "temp" := by simpa [SignState.init] using hw
    exact hname ▸ htemp

theorem verifyAuthority_sound {limits : SignLimits} {ops : List Operation}
    (h : verifyAuthority limits ops sigs get = .ok s) (htemp : W "temp")
    (hclosed : ∀ w, ∀ p ∈ get.policies w, Meets (signedIn sigs) W p → W w) :
    (∀ w ∈ (requiredAuthorities ops).money, W w) ∧
      ((requiredAuthorities ops).social = .empty → ∀ w ∈ s.approvedBy, W w) := by
  unfold verifyAuthority at h
  by_cases hsocial : (requiredAuthorities ops).social = .empty
  · rw [if_neg (by simpa using hsocial)] at h
    have hctx : SignContext.Sound (signedIn sigs) W ⟨get.money, .empty, limits⟩ :=
      ⟨fun k hk => absurd hk (FlatSet.not_mem_empty k), fun w a ha => hclosed w _ ⟨a, .inl ha, rfl⟩⟩
    obtain ⟨s1, hother, h⟩ := of_bind h
    obtain ⟨s2, hmoney, hrecovery⟩ := of_bind h
    have hs1 := verifyOther_sound hctx (SignState.init_sound htemp) hother
    obtain ⟨hs2, hd⟩ := verifyMoney_sound hctx hs1 hclosed hmoney
    exact ⟨hd, fun _ => (verifyRecovery_sound hctx hs2 hclosed hrecovery).approved⟩
  · rw [if_pos (by simpa using hsocial)] at h
    obtain ⟨_, hmoney, -⟩ := of_bind h
    have hnone : (requiredAuthorities ops).money = .empty := by simpa using hmoney
    exact ⟨fun w hw => absurd hw (by simp [hnone]), fun he => absurd he hsocial⟩

end Soundness

theorem verifyAuthority_temp (limits : SignLimits) (sigs : FlatSet PublicKey) (get : Getters)
    (toWallet : WalletName) (amount : Asset) (memo : String) :
    verifyAuthority limits [.transfer ⟨"temp", toWallet, amount, memo⟩] sigs get =
      .ok (SignState.init sigs) := rfl

theorem verifyAuthority_derives_iff (sigs : FlatSet PublicKey) (get : Getters) (limits : SignLimits) :
    (∀ (ops : List Operation) (s : SignState), verifyAuthority limits ops sigs get = .ok s →
      (∀ w ∈ (requiredAuthorities ops).money, Derives (signedIn sigs) get.policies w) ∧
      ((requiredAuthorities ops).social = .empty →
        ∀ w ∈ s.approvedBy, Derives (signedIn sigs) get.policies w)) ↔
    Derives (signedIn sigs) get.policies "temp" := by
  constructor
  · intro h
    exact (h _ _ (verifyAuthority_temp limits sigs get "" (.xgt 1) "")).1 "temp" (by decide)
  · intro htemp ops s h
    exact verifyAuthority_sound h htemp fun _ _ => .of_meets

theorem verifyAuthority_temp_unsigned :
    ∃ (ops : List Operation) (get : Getters) (s : SignState),
      verifyAuthority {} ops .empty get = .ok s ∧
      ∃ w ∈ (requiredAuthorities ops).money,
        ¬ Derives (signedIn .empty) get.policies w := by
  let getKey : AuthorityGetter := fun _ => .ok (.ofKey 1 ⟨7⟩ 1)
  refine ⟨[.transfer ⟨"temp", "thief", .xgt 5, ""⟩], ⟨getKey, getKey, getKey⟩, _,
    verifyAuthority_temp .., "temp", by decide, fun hd => ?_⟩
  cases hd with
  | reach hp counted hsub _ hweight =>
    have hpolicy : ∀ p ∈ Getters.policies ⟨getKey, getKey, getKey⟩ "temp",
        p = (Authority.ofKey 1 ⟨7⟩ 1).policy := by
      rintro p ⟨a, ha | ha, rfl⟩ <;> cases ha <;> rfl
    rw [hpolicy _ hp] at hsub hweight
    rw [List.sublist_nil.1 (show counted.Sublist [] from hsub)] at hweight
    exact absurd hweight (by decide)

end Xgt
