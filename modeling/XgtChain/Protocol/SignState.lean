import XgtChain.Base.Threshold
import XgtChain.Protocol.Types

/-!
# Authorities and the signature check

A depth limited search over the wallets that an authority names, with a memo set `approved_by`.
-/

namespace Xgt

open Base

structure Authority where
  weightThreshold : Nat
  walletAuths : FlatMap WalletName Nat
  keyAuths : FlatMap PublicKey Nat
  deriving DecidableEq

namespace Authority

def default : Authority := ⟨0, .empty, .empty⟩

def ofKey (threshold : Nat) (k : PublicKey) (w : Nat) : Authority :=
  ⟨threshold, .empty, FlatMap.empty.set k w⟩

variable (a : Authority)

def getKeys : List PublicKey := a.keyAuths.keys.elems

def isImpossible : Bool :=
  (totalWeight a.walletAuths.entries + totalWeight a.keyAuths.entries) % 2 ^ 64 < a.weightThreshold

def isValidWalletName (_ : WalletName) : Bool := true

def validate : Result Unit :=
  a.walletAuths.entries.forM fun item => fcAssert
    (isValidWalletName item.1) "is_valid_wallet_name( item.first )"

def policy : Policy PublicKey WalletName :=
  ⟨a.weightThreshold, a.keyAuths.entries, a.walletAuths.entries⟩

end Authority

abbrev AuthorityGetter := WalletName → Result Authority

/-! ## `sign_state` -/

structure SignLimits where
  maxRecursion : Nat := xgtMaxSigCheckDepth
  maxMembership : Nat := xgtMaxAuthorityMembership
  maxWalletAuths : Nat := xgtMaxSigCheckWallets
  deriving DecidableEq, Repr

structure SignState where
  providedSignatures : FlatMap PublicKey Bool
  approvedBy : FlatSet WalletName
  deriving DecidableEq

structure SignContext where
  getMoney : AuthorityGetter
  availableKeys : FlatSet PublicKey
  limits : SignLimits

namespace SignState

def init (sigs : FlatSet PublicKey) : SignState where
  providedSignatures := FlatMap.ofList (sigs.elems.map fun k => (k, false))
  approvedBy := FlatSet.empty.insert "temp"

def signedBy (ctx : SignContext) (s : SignState) (k : PublicKey) : Bool × SignState :=
  if k ∈ s.providedSignatures.keys ∨ k ∈ ctx.availableKeys then
    (true, { s with providedSignatures := s.providedSignatures.set k true })
  else (false, s)

end SignState

structure Tally where
  totalWeight : Nat
  membership : Nat
  accountAuthCount : Nat
  state : SignState

inductive Verdict where
  | returned (answer : Bool) (t : Tally)
  | fellThrough (t : Tally)

namespace Tally

def addWeight (t : Tally) (w : Nat) : Tally :=
  { t with totalWeight := (t.totalWeight + w) % 2 ^ 32 }

def member (ctx : SignContext) (threshold w : Nat) (counts : Bool) (t : Tally) : Verdict :=
  let t := if counts then t.addWeight w else t
  if counts ∧ threshold ≤ t.totalWeight then .returned true t
  else
    let t := { t with membership := t.membership + 1 }
    if 0 < ctx.limits.maxMembership ∧ ctx.limits.maxMembership ≤ t.membership then
      .returned false t
    else .fellThrough t

end Tally

def checkKeys (ctx : SignContext) (threshold : Nat) : List (PublicKey × Nat) → Tally → Verdict
  | [], t => .fellThrough t
  | k :: rest, t =>
    let (signed, state) := t.state.signedBy ctx k.1
    match { t with state := state }.member ctx threshold k.2 signed with
    | .returned answer t => .returned answer t
    | .fellThrough t => checkKeys ctx threshold rest t

abbrev AuthorityCheck := Authority → Nat → SignState → Result (Bool × Nat × SignState)

inductive Approval where
  | skipped
  | limit
  | checked (counts : Bool) (t : Tally)

variable (ctx : SignContext) (nested : Option AuthorityCheck)

def approveWallet (w : WalletName) (t : Tally) : Result Approval :=
  if w ∈ t.state.approvedBy then .ok (.checked true t)
  else
    match nested with
    | none => .ok .skipped
    | some check =>
      if 0 < ctx.limits.maxWalletAuths ∧ ctx.limits.maxWalletAuths ≤ t.accountAuthCount then
        .ok .limit
      else do
        let auth ← ctx.getMoney w
        let (approved, count, state) ← check auth (t.accountAuthCount + 1) t.state
        let state :=
          if approved then { state with approvedBy := state.approvedBy.insert w } else state
        pure (.checked approved { t with accountAuthCount := count, state := state })

def checkWallets (ctx : SignContext) (nested : Option AuthorityCheck) (threshold : Nat) :
    List (WalletName × Nat) → Tally → Result Verdict
  | [], t => .ok (.fellThrough t)
  | a :: rest, t => do
    match ← approveWallet ctx nested a.1 t with
    | .skipped => checkWallets ctx nested threshold rest t
    | .limit => pure (.returned false t)
    | .checked counts t =>
      match t.member ctx threshold a.2 counts with
      | .returned answer t => pure (.returned answer t)
      | .fellThrough t => checkWallets ctx nested threshold rest t

def checkAuthorityBody : AuthorityCheck :=
  fun auth count state =>
    match checkKeys ctx auth.weightThreshold auth.keyAuths.entries ⟨0, 0, count, state⟩ with
    | .returned answer t => .ok (answer, t.accountAuthCount, t.state)
    | .fellThrough t => do
      match ← checkWallets ctx nested auth.weightThreshold auth.walletAuths.entries t with
      | .returned answer t => pure (answer, t.accountAuthCount, t.state)
      | .fellThrough t =>
        pure (auth.weightThreshold ≤ t.totalWeight, t.accountAuthCount, t.state)

def checkAuthorityImpl (ctx : SignContext) : Nat → AuthorityCheck
  | 0 => checkAuthorityBody ctx none
  | n + 1 => checkAuthorityBody ctx (some (checkAuthorityImpl ctx n))

def checkAuthority (auth : Authority) (s : SignState) :
    Result (Bool × SignState) := do
  let (answer, _, s) ← checkAuthorityImpl ctx ctx.limits.maxRecursion auth 0 s
  pure (answer, s)

def checkAuthorityOf (id : WalletName) (s : SignState) : Result (Bool × SignState) :=
  if id ∈ s.approvedBy then .ok (true, s)
  else do
    let auth ← ctx.getMoney id
    let (answer, _, s) ← checkAuthorityImpl ctx ctx.limits.maxRecursion auth 1 s
    pure (answer, s)

/-! ## Soundness of the search -/

section Soundness

variable (signed : PublicKey → Bool) (W : WalletName → Prop)

variable {s : SignState} {ctx} {t : Tally} {nested}

/-- The keys of the state are signed, and the wallets it has approved are in `W`. -/
structure SignState.Sound (s : SignState) : Prop where
  provided : ∀ k ∈ s.providedSignatures.keys, signed k = true
  approved : ∀ w ∈ s.approvedBy, W w

/-- The keys at hand are signed, and a wallet whose authority the signed keys meet with `W` is in `W`. -/
structure SignContext.Sound (ctx : SignContext) : Prop where
  available : ∀ k ∈ ctx.availableKeys, signed k = true
  money : ∀ w a, ctx.getMoney w = .ok a → Meets signed W a.policy → W w

def Verdict.Sound (threshold budget : Nat) : Verdict → Prop
  | .returned answer t => t.state.Sound signed W ∧ (answer = true → threshold ≤ budget)
  | .fellThrough t => t.state.Sound signed W ∧ t.totalWeight ≤ budget

variable {signed W} {w : WalletName} {s' : SignState} {answer : Bool} {v : Verdict}

theorem Verdict.Sound.mono {threshold budget budget' : Nat} (h : v.Sound signed W threshold budget)
    (hle : budget ≤ budget') : v.Sound signed W threshold budget' := by
  cases v with
  | returned answer t => exact ⟨h.1, fun ha => (h.2 ha).trans hle⟩
  | fellThrough t => exact ⟨h.1, h.2.trans hle⟩

theorem SignState.Sound.approve (h : s.Sound signed W) (hw : W w) :
    ({ s with approvedBy := s.approvedBy.insert w } : SignState).Sound signed W := by
  refine ⟨h.provided, fun v hv => ?_⟩
  rcases FlatSet.mem_insert.1 hv with rfl | hv
  · exact hw
  · exact h.approved v hv

theorem signedBy_sound (hctx : ctx.Sound signed W) (h : s.Sound signed W) (k : PublicKey) :
    (s.signedBy ctx k).2.Sound signed W ∧
      ((s.signedBy ctx k).1 = true → signed k = true) := by
  unfold SignState.signedBy
  split_ifs with hk
  · have hsigned : signed k = true := hk.elim (h.provided k) (hctx.available k)
    refine ⟨⟨fun k' hk' => ?_, h.approved⟩, fun _ => hsigned⟩
    rcases FlatMap.mem_keys_set hk' with rfl | hk'
    · exact hsigned
    · exact h.provided k' hk'
  · exact ⟨h, fun hf => absurd hf (by simp)⟩

theorem member_sound (ctx : SignContext) (threshold w : Nat) (counts : Bool) (ht : t.state.Sound signed W) :
    (t.member ctx threshold w counts).Sound signed W threshold
      (t.totalWeight + if counts then w else 0) := by
  have hle : (t.totalWeight + w) % 2 ^ 32 ≤ t.totalWeight + w := Nat.mod_le _ _
  unfold Tally.member
  cases counts with
  | false =>
    simp only [Bool.false_eq_true, if_false, false_and]
    split_ifs
    · exact ⟨ht, fun hf => absurd hf (by simp)⟩
    · exact ⟨ht, Nat.le_refl _⟩
  | true =>
    simp only [if_true, true_and]
    split_ifs with hreached
    · exact ⟨ht, fun _ => le_trans hreached hle⟩
    · exact ⟨ht, fun hf => absurd hf (by simp)⟩
    · exact ⟨ht, hle⟩

section

variable (hctx : ctx.Sound signed W)
include hctx

theorem checkKeys_sound (threshold : Nat) (l : List (PublicKey × Nat)) (ht : t.state.Sound signed W) :
    (checkKeys ctx threshold l t).Sound signed W threshold
      (t.totalWeight + totalWeight (l.filter fun e => signed e.1)) := by
  induction l generalizing t with
  | nil => exact ⟨ht, by simp⟩
  | cons k rest ih =>
    obtain ⟨hstate, hsigned⟩ := signedBy_sound hctx ht k.1
    rw [checkKeys]
    generalize t.state.signedBy ctx k.1 = r at hstate hsigned ⊢
    obtain ⟨counts, state⟩ := r
    have hmember := member_sound ctx threshold k.2 counts (t := { t with state := state }) hstate
    have hweight : (if counts then k.2 else 0) + totalWeight (rest.filter fun e => signed e.1) ≤
        totalWeight ((k :: rest).filter fun e => signed e.1) := by
      cases counts with
      | true => simp [show signed k.1 = true from hsigned rfl]
      | false =>
        rw [if_neg (by simp), Nat.zero_add, List.filter_cons]
        split_ifs <;> simp
    dsimp only at hmember ⊢
    generalize Tally.member ctx threshold k.2 counts { t with state := state } = v at hmember ⊢
    cases v with
    | returned answer t' => exact hmember.mono (by omega)
    | fellThrough t' => exact (ih hmember.1).mono (by have := hmember.2; omega)

def AuthorityCheck.Sound (signed : PublicKey → Bool) (W : WalletName → Prop) (check : AuthorityCheck) : Prop :=
  ∀ auth count s answer count' s', s.Sound signed W →
    check auth count s = .ok (answer, count', s') →
    s'.Sound signed W ∧ (answer = true → Meets signed W auth.policy)

section

variable (hnested : ∀ check ∈ nested, AuthorityCheck.Sound signed W check)
include hnested

theorem approveWallet_sound {t' : Tally} {counts : Bool} (ht : t.state.Sound signed W)
    (h : approveWallet ctx nested w t = .ok (.checked counts t')) :
    t'.state.Sound signed W ∧ t'.totalWeight = t.totalWeight ∧
      (counts = true → W w) := by
  unfold approveWallet at h
  by_cases happroved : w ∈ t.state.approvedBy
  · rw [if_pos happroved] at h
    cases h
    exact ⟨ht, rfl, fun _ => ht.approved _ happroved⟩
  · rw [if_neg happroved] at h
    cases nested with
    | none => cases h
    | some check =>
      simp only at h
      split_ifs at h with hlimit
      · cases h
      · obtain ⟨auth, hauth, h⟩ := of_bind h
        obtain ⟨⟨approved, count, state⟩, hcheck, h⟩ := of_bind h
        obtain ⟨hstate, hmeets⟩ := hnested check rfl _ _ _ _ _ _ ht hcheck
        cases h
        cases approved with
        | false => exact ⟨hstate, rfl, fun hf => absurd hf (by simp)⟩
        | true =>
          have hw : W w := hctx.money w auth hauth (hmeets rfl)
          exact ⟨hstate.approve hw, rfl, fun _ => hw⟩

theorem checkWallets_sound (threshold : Nat) (l : List (WalletName × Nat)) (ht : t.state.Sound signed W)
    (h : checkWallets ctx nested threshold l t = .ok v) :
    ∃ counted : List (WalletName × Nat), counted.Sublist l ∧
      (∀ m ∈ counted, W m.1) ∧
      v.Sound signed W threshold (t.totalWeight + totalWeight counted) := by
  induction l generalizing t with
  | nil =>
    cases h
    exact ⟨[], .slnil, by simp, ht, by simp⟩
  | cons a rest ih =>
    obtain ⟨approval, happrove, h⟩ := of_bind h
    cases approval with
    | skipped =>
      obtain ⟨counted, hsub, hd, hv⟩ := ih ht h
      exact ⟨counted, hsub.cons a, hd, hv⟩
    | limit =>
      cases h
      exact ⟨[], by simp, by simp, ht, fun hf => absurd hf (by simp)⟩
    | checked counts t' =>
      obtain ⟨ht', htotal, hderives⟩ := approveWallet_sound hctx hnested ht happrove
      have hmember := member_sound ctx threshold a.2 counts ht'
      -- the wallets counted so far: this one, if it counts
      have hhere : ∀ m ∈ (if counts then [a] else []), W m.1 := by
        cases counts with
        | true => simpa using hderives rfl
        | false => simp
      have hweight : totalWeight (if counts then [a] else []) = if counts then a.2 else 0 := by
        cases counts <;> simp
      have hsub1 : (if counts then [a] else []).Sublist [a] := by cases counts <;> simp
      dsimp only at h
      generalize Tally.member ctx threshold a.2 counts t' = r at hmember h
      cases r with
      | returned answer t'' =>
        cases h
        exact ⟨_, hsub1.trans (by simp), hhere, hmember.mono (by omega)⟩
      | fellThrough t'' =>
        obtain ⟨counted, hsub, hd, hv⟩ := ih hmember.1 h
        refine ⟨_, hsub1.append hsub, fun m hm => ?_, hv.mono ?_⟩
        · exact (List.mem_append.1 hm).elim (hhere m) (hd m)
        · rw [totalWeight_append]
          have := hmember.2
          omega

theorem checkAuthorityBody_sound : AuthorityCheck.Sound signed W (checkAuthorityBody ctx nested) := by
  intro auth count s answer count' s' hs h
  have hkeys := checkKeys_sound hctx auth.weightThreshold auth.keyAuths.entries
    (t := ⟨0, 0, count, s⟩) hs
  unfold checkAuthorityBody at h
  generalize checkKeys ctx auth.weightThreshold auth.keyAuths.entries ⟨0, 0, count, s⟩ = v
    at hkeys h
  cases v with
  | returned a t =>
    cases h
    refine ⟨hkeys.1, fun ha => ⟨[], by simp, by simp, ?_⟩⟩
    simpa [Authority.policy, Policy.keyWeight] using hkeys.2 ha
  | fellThrough t =>
    obtain ⟨v, hv, h⟩ := of_bind h
    obtain ⟨counted, hsub, hd, hsound⟩ :=
      checkWallets_sound hctx hnested _ _ hkeys.1 hv
    have hkeyWeight : t.totalWeight ≤ auth.policy.keyWeight signed := by
      simpa [Authority.policy, Policy.keyWeight] using hkeys.2
    have hmeets : auth.weightThreshold ≤ t.totalWeight + totalWeight counted →
        Meets signed W auth.policy := fun hle =>
      ⟨counted, hsub, hd, hle.trans (Nat.add_le_add_right hkeyWeight _)⟩
    cases v with
    | returned a t' =>
      cases h
      exact ⟨hsound.1, fun ha => hmeets (hsound.2 ha)⟩
    | fellThrough t' =>
      cases h
      exact ⟨hsound.1, fun ha => hmeets ((of_decide_eq_true ha).trans hsound.2)⟩

end

theorem checkAuthorityImpl_sound (n : Nat) :
    AuthorityCheck.Sound signed W (checkAuthorityImpl ctx n) := by
  induction n with
  | zero => exact checkAuthorityBody_sound hctx (by simp)
  | succ n ih =>
    refine checkAuthorityBody_sound hctx fun check hcheck => ?_
    cases hcheck
    exact ih

theorem checkAuthority_sound {auth : Authority}
    (hs : s.Sound signed W) (h : checkAuthority ctx auth s = .ok (answer, s')) :
    s'.Sound signed W ∧ (answer = true → Meets signed W auth.policy) := by
  obtain ⟨⟨a, count, s''⟩, hcheck, heq⟩ := of_bind h
  cases heq
  exact checkAuthorityImpl_sound hctx _ _ _ _ _ _ _ hs hcheck

theorem checkAuthorityOf_sound {id : WalletName} (hs : s.Sound signed W)
    (h : checkAuthorityOf ctx id s = .ok (answer, s')) : s'.Sound signed W ∧ (answer = true → W id) := by
  unfold checkAuthorityOf at h
  split_ifs at h with happroved
  · cases h
    exact ⟨hs, fun _ => hs.approved id happroved⟩
  · obtain ⟨auth, hauth, h⟩ := of_bind h
    obtain ⟨⟨a, count, s''⟩, hcheck, heq⟩ := of_bind h
    cases heq
    obtain ⟨hs', hmeets⟩ := checkAuthorityImpl_sound hctx _ _ _ _ _ _ _ hs hcheck
    exact ⟨hs', fun ha => hctx.money id auth hauth (hmeets ha)⟩

end

end Soundness

end Xgt
