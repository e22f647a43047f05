import XgtChain.Protocol.AuthoritySearch

/-!
# Which sets of keys `verify_authority` accepts

As long as the limits cut nothing off (`Uncut`), `verify_authority` accepts exactly the sets of keys that
win the votes of all the required authorities (`verifyAuthority_accepts_iff`).
-/

namespace Xgt

open Base SignState FlatMap

/-! ## Checks and their votes -/

section Checks

variable {ctx : SignContext} {seed : FlatSet WalletName} {s s' : SignState}
    {f g : (PublicKey → Bool) → Result Bool}
  {a : Result Bool} {id : WalletName} (limits : SignLimits) (get : AuthorityGetter)

def Finds (ctx : SignContext) (seed : FlatSet WalletName) (f : (PublicKey → Bool) →
    Result Bool) (s : SignState) :
    Result (Bool × SignState) → Prop
  | .ok (answer, s') => Grows ctx s s' ∧ Trusted ctx seed s' ∧
      ∀ signed, Between ctx s' signed → f signed = .ok answer
  | .error e => f (s.signs ctx) = .error e

def Within (seed : FlatSet WalletName) (count : Nat) (a : Authority) : Prop :=
  Tame get seed limits.maxRecursion a ∧ Allowed limits (count + lookups get seed limits.maxRecursion a)

instance (limits : SignLimits) (get : AuthorityGetter) (seed : FlatSet WalletName) (count : Nat)
    (a : Authority) :
    Decidable (Within limits get seed count a) := inferInstanceAs (Decidable (_ ∧ _))

def vote (seed : FlatSet WalletName) (a : Authority) (signed : PublicKey → Bool) : Result Bool :=
  evalAuthority signed get seed limits.maxMembership limits.maxRecursion a

theorem Searches.finds {cost count : Nat} {r : Result (Bool × Nat × SignState)}
    (h : Searches ctx seed f cost count s r) : Finds ctx seed f s (r >>= fun r => pure (r.1, r.2.2)) := by
  cases r with
  | error e => exact h
  | ok r => exact ⟨h.grows, h.trusted, h.answer⟩

theorem checkAuthority_finds {a : Authority} (hwithin : Within ctx.limits ctx.getMoney seed 0 a)
    (hs : Trusted ctx seed s) :
    Finds ctx seed (vote ctx.limits ctx.getMoney seed a) s (checkAuthority ctx a s) :=
  (checkAuthorityImpl_search _ a 0 s hwithin.1 hs hwithin.2).finds

theorem checkAuthorityOf_finds
    (hwithin : id ∉ seed → ∀ a, ctx.getMoney id = .ok a → Within ctx.limits ctx.getMoney seed 1 a)
    (hs : Trusted ctx seed s) :
    Finds ctx seed (fun signed => voteOf ctx.getMoney seed (vote ctx.limits ctx.getMoney seed · signed) id) s
      (checkAuthorityOf ctx id s) := by
  unfold checkAuthorityOf
  by_cases hmemo : id ∈ s.approvedBy
  · rw [if_pos hmemo]
    refine ⟨.refl ctx s, hs, fun signed hb => ?_⟩
    by_cases hseed : id ∈ seed
    · exact voteOf_seed hseed _
    · obtain ⟨m, a, hget, hm, hvote⟩ := hs.memo id hmemo hseed signed hb
      dsimp only
      rw [voteOf_get hseed, hget, ok_bind, vote, evalAuthority_level (hwithin hseed a hget).1 hm, hvote]
  · have hseed : id ∉ seed := fun h => hmemo (hs.seeds id h)
    rw [if_neg hmemo]
    simp only [voteOf_get hseed]
    cases hget : ctx.getMoney id with
    | error e => exact rfl
    | ok a =>
      have hwithin := hwithin hseed a hget
      exact (checkAuthorityImpl_search _ a 1 s hwithin.1 hs hwithin.2).finds

theorem byGetter_finds {get : AuthorityGetter}
    (hwithin : ∀ a, get id = .ok a → Within ctx.limits ctx.getMoney seed 0 a) (hs : Trusted ctx seed s) :
    Finds ctx seed (fun signed => get id >>= (vote ctx.limits ctx.getMoney seed · signed)) s
      (Check.byGetter ctx get id s) := by
  unfold Check.byGetter
  cases hget : get id with
  | error e => exact rfl
  | ok a => exact checkAuthority_finds (hwithin a hget) hs

def either (a b : Result Bool) : Result Bool := do
  if ← a then pure true else b

theorem either_of_true (h : a = .ok true) (b : Result Bool) : either a b = .ok true := by
  rw [either, h, ok_bind]
  rfl

theorem either_of_false (h : a = .ok false) (b : Result Bool) : either a b = b := by
  rw [either, h, ok_bind]
  rfl

theorem either_of_error {e : Exc} (h : a = .error e) (b : Result Bool) : either a b = .error e := by
  rw [either, h]
  rfl

theorem either_finds {a b : Check} (ha : Finds ctx seed f s (a s))
    (hb : ∀ s', Trusted ctx seed s' → Finds ctx seed g s' (b s')) :
    Finds ctx seed (fun signed => either (f signed) (g signed)) s (Check.or a b s) := by
  unfold Check.or
  generalize a s = r at ha ⊢
  cases r with
  | error e => exact either_of_error ha _
  | ok r =>
    obtain ⟨answer, s1⟩ := r
    obtain ⟨hgrows, htrusted, hanswer⟩ := ha
    rw [ok_bind]
    cases answer with
    | true => exact ⟨hgrows, htrusted, fun signed hbetween => either_of_true (hanswer signed hbetween) _⟩
    | false =>
      have hsecond := hb s1 htrusted
      dsimp only
      rw [if_neg (by simp)]
      generalize b s1 = r at hsecond ⊢
      cases r with
      | error e =>
        refine (either_of_false (hanswer _ hgrows.between_signs) _).trans ?_
        rw [← funext hgrows.signs]
        exact hsecond
      | ok r =>
        obtain ⟨hgrows', htrusted', hanswer'⟩ := hsecond
        refine ⟨hgrows.trans hgrows', htrusted', fun signed hbetween => ?_⟩
        exact (either_of_false (hanswer signed (hgrows'.between hbetween)) _).trans (hanswer' signed hbetween)

variable {P Q : (PublicKey → Bool) → Prop} {r : Result SignState}

def Settles (ctx : SignContext) (seed : FlatSet WalletName) (P : (PublicKey → Bool) → Prop) (s : SignState)
    (r : Result SignState) : Prop :=
  (∀ s', r = .ok s' → Grows ctx s s' ∧ Trusted ctx seed s' ∧ ∀ signed, Between ctx s' signed → P signed) ∧
    ∀ e, r = .error e → ¬ P (s.signs ctx)

theorem Settles.of_iff (h : Settles ctx seed P s r) (hiff : ∀ signed, P signed ↔ Q signed) :
    Settles ctx seed Q s r := by
  rw [← show P = Q from funext fun signed => propext (hiff signed)]
  exact h

theorem Settles.pure (hs : Trusted ctx seed s) (hP : ∀ signed, P signed) : Settles ctx seed P s (.ok s) := by
  refine ⟨fun s' h => ?_, fun e h => by cases h⟩
  cases h
  exact ⟨.refl ctx s, hs, fun signed _ => hP signed⟩

theorem Settles.bind {k : SignState → Result SignState} (hr : Settles ctx seed P s r)
    (hk : ∀ s', Grows ctx s s' → Trusted ctx seed s' → Settles ctx seed Q s' (k s')) :
    Settles ctx seed (fun signed => P signed ∧ Q signed) s (r >>= k) := by
  cases r with
  | error e => exact ⟨fun s' h => (by cases h), fun e' _ hPQ => hr.2 e rfl hPQ.1⟩
  | ok s1 =>
    obtain ⟨hgrows, htrusted, hP⟩ := hr.1 s1 rfl
    obtain ⟨hok, herror⟩ := hk s1 hgrows htrusted
    rw [ok_bind]
    refine ⟨fun s' h => ?_, fun e h hPQ => herror e h ?_⟩
    · obtain ⟨hgrows', htrusted', hQ⟩ := hok s' h
      exact ⟨hgrows.trans hgrows', htrusted', fun signed hb => ⟨hP signed (hgrows'.between hb), hQ signed hb⟩⟩
    · rw [funext hgrows.signs]
      exact hPQ.2

theorem Settles.foldlM {α : Type} {step : SignState → α → Result SignState} {P : α → (PublicKey → Bool) → Prop}
    {l : List α} (hs : Trusted ctx seed s)
    (hstep : ∀ x ∈ l, ∀ s', Grows ctx s s' → Trusted ctx seed s' → Settles ctx seed (P x) s' (step s' x)) :
    Settles ctx seed (fun signed => ∀ x ∈ l, P x signed) s (l.foldlM step s) := by
  induction l generalizing s with
  | nil => exact .pure hs fun _ x hx => absurd hx List.not_mem_nil
  | cons x l ih =>
    have hfirst := hstep x (.head _) s (.refl ctx s) hs
    rw [List.foldlM_cons]
    refine (hfirst.bind fun s' hgrows hs' => ih hs' fun y hy s'' hgrows' =>
      hstep y (.tail _ hy) s'' (hgrows.trans hgrows')).of_iff fun signed => ?_
    exact (List.forall_mem_cons (p := (P · signed))).symm

theorem Finds.require {c : Check} (h : Finds ctx seed f s (c s)) (e : Exc) :
    Settles ctx seed (fun signed => f signed = .ok true) s (c.require e s) := by
  unfold Check.require
  generalize c s = r at h ⊢
  cases r with
  | error e' =>
    refine ⟨fun s' h' => (by cases h'), fun _ _ htrue => ?_⟩
    cases (show f (s.signs ctx) = .error e' from h).symm.trans htrue
  | ok r =>
    obtain ⟨answer, s1⟩ := r
    obtain ⟨hgrows, htrusted, hanswer⟩ := h
    rw [ok_bind]
    cases answer with
    | true =>
      refine ⟨fun s' h' => ?_, fun _ h' => (by cases h')⟩
      cases h'
      exact ⟨hgrows, htrusted, hanswer⟩
    | false =>
      refine ⟨fun s' h' => (by cases h'), fun _ _ htrue => ?_⟩
      cases (hanswer _ hgrows.between_signs).symm.trans htrue

end Checks

/-! ## The whole check -/

section Whole

variable (limits : SignLimits) (get : Getters) (approvals : Approvals) (ops : List Operation)
  (w : WalletName) (signed : PublicKey → Bool)

def Approvals.moneySeed : FlatSet WalletName :=
  ((FlatSet.empty.insert "temp").insertAll approvals.money.elems).insertAll approvals.recovery.elems

def Approvals.socialSeed : FlatSet WalletName :=
  (FlatSet.empty.insert "temp").insertAll approvals.social.elems

def voteBy (get : AuthorityGetter) (seed : FlatSet WalletName) (lookup : AuthorityGetter) (w : WalletName)
    (signed : PublicKey → Bool) : Result Bool :=
  lookup w >>= (vote limits get seed · signed)

def voteAs (get : AuthorityGetter) (seed : FlatSet WalletName) (w : WalletName) (signed : PublicKey → Bool) :
    Result Bool :=
  voteOf get seed (vote limits get seed · signed) w

def moneyVote : Result Bool :=
  either (voteAs limits get.money approvals.moneySeed w signed)
    (voteBy limits get.money approvals.moneySeed get.recovery w signed)

def socialFallback : Result Bool :=
  either (voteBy limits get.social approvals.socialSeed get.money w signed)
    (voteBy limits get.social approvals.socialSeed get.recovery w signed)

def socialVote : Result Bool :=
  either (voteAs limits get.social approvals.socialSeed w signed) (socialFallback limits get approvals w signed)

def Accepts : Prop :=
  let required := requiredAuthorities ops
  if required.social ≠ .empty then
    required.money = .empty ∧ required.recovery = .empty ∧ required.other = [] ∧
      ∀ w ∈ required.social.elems, socialVote limits get approvals w signed = .ok true
  else
    (∀ a ∈ required.other, vote limits get.money approvals.moneySeed a signed = .ok true) ∧
      (∀ w ∈ required.money.elems, moneyVote limits get approvals w signed = .ok true) ∧
      ∀ w ∈ required.recovery.elems, w ∉ approvals.recovery →
        voteBy limits get.money approvals.moneySeed get.recovery w signed = .ok true

/-- No limit cuts the search for any required authority. -/
structure Uncut : Prop where
  other : ∀ a ∈ (requiredAuthorities ops).other, Within limits get.money approvals.moneySeed 0 a
  money : ∀ w ∈ (requiredAuthorities ops).money.elems, w ∉ approvals.moneySeed → ∀ a, get.money w = .ok a →
    Within limits get.money approvals.moneySeed 1 a
  moneyRecovery : ∀ w ∈ (requiredAuthorities ops).money.elems, ∀ a, get.recovery w = .ok a →
    Within limits get.money approvals.moneySeed 0 a
  recovery : ∀ w ∈ (requiredAuthorities ops).recovery.elems, ∀ a, get.recovery w = .ok a →
    Within limits get.money approvals.moneySeed 0 a
  social : ∀ w ∈ (requiredAuthorities ops).social.elems, w ∉ approvals.socialSeed → ∀ a, get.social w = .ok a →
    Within limits get.social approvals.socialSeed 1 a
  socialMoney : ∀ w ∈ (requiredAuthorities ops).social.elems, ∀ a, get.money w = .ok a →
    Within limits get.social approvals.socialSeed 0 a
  socialRecovery : ∀ w ∈ (requiredAuthorities ops).social.elems, ∀ a, get.recovery w = .ok a →
    Within limits get.social approvals.socialSeed 0 a

variable {limits get approvals ops}

theorem Trusted.start (ctx : SignContext) (seed : FlatSet WalletName) (provided : FlatMap PublicKey Bool) :
    Trusted ctx seed ⟨provided, seed⟩ :=
  ⟨fun _ => id, fun _ hw hnot => absurd hw hnot⟩

theorem signs_init {ctx : SignContext} {s : SignState} {sigs : FlatSet PublicKey}
    (hs : s.providedSignatures = (init sigs).providedSignatures) (k : PublicKey) :
    s.signs ctx k = decide (k ∈ sigs ∨ k ∈ ctx.availableKeys) := by
  rw [signs, hs]
  refine decide_eq_decide.2 (or_congr_left (mem_keys_ofList.trans ?_))
  simp [FlatSet.mem_def]

section Loops

variable {ctx : SignContext} {seed : FlatSet WalletName} {s : SignState} {ids : List WalletName}

theorem verifyOther_settles {other : List Authority} (hs : Trusted ctx seed s)
    (hwithin : ∀ a ∈ other, Within ctx.limits ctx.getMoney seed 0 a) :
    Settles ctx seed (fun signed => ∀ a ∈ other, vote ctx.limits ctx.getMoney seed a signed = .ok true) s
      (verifyOther ctx s other) :=
  .foldlM hs fun a ha _ _ hs' => (checkAuthority_finds (hwithin a ha) hs').require _

section

variable (hs : Trusted ctx seed s)
  (hrecovery : ∀ w ∈ ids, ∀ a, get.recovery w = .ok a → Within ctx.limits ctx.getMoney seed 0 a)
include hs hrecovery

theorem verifyRecovery_settles (approvals : Approvals) :
    Settles ctx seed (fun signed => ∀ w ∈ ids, w ∉ approvals.recovery →
        voteBy ctx.limits ctx.getMoney seed get.recovery w signed = .ok true) s
      (verifyRecovery ctx get approvals s ids) := by
  refine .foldlM hs fun w hw s' _ hs' => ?_
  by_cases happroved : w ∈ approvals.recovery
  · rw [if_pos happroved]
    exact .pure hs' fun _ hnot => absurd happroved hnot
  · rw [if_neg happroved]
    exact ((byGetter_finds (hrecovery w hw) hs').require _).of_iff fun signed =>
      ⟨fun h _ => h, fun h => h happroved⟩

variable (hown : ∀ w ∈ ids, w ∉ seed → ∀ a, ctx.getMoney w = .ok a → Within ctx.limits ctx.getMoney seed 1 a)
include hown

theorem verifyMoney_settles :
    Settles ctx seed (fun signed => ∀ w ∈ ids, either (voteAs ctx.limits ctx.getMoney seed w signed)
        (voteBy ctx.limits ctx.getMoney seed get.recovery w signed) = .ok true) s
      (verifyMoney ctx get s ids) :=
  .foldlM hs fun w hw _ _ hs' => (either_finds (checkAuthorityOf_finds (hown w hw) hs')
    fun _ hs'' => byGetter_finds (hrecovery w hw) hs'').require _

theorem verifySocial_settles
    (hmoney : ∀ w ∈ ids, ∀ a, get.money w = .ok a → Within ctx.limits ctx.getMoney seed 0 a) :
    Settles ctx seed (fun signed => ∀ w ∈ ids, either (voteAs ctx.limits ctx.getMoney seed w signed)
        (either (voteBy ctx.limits ctx.getMoney seed get.money w signed)
          (voteBy ctx.limits ctx.getMoney seed get.recovery w signed)) = .ok true) s
      (verifySocial ctx get s ids) :=
  .foldlM hs fun w hw _ _ hs' => (either_finds (checkAuthorityOf_finds (hown w hw) hs') fun _ hs'' =>
    either_finds (byGetter_finds (hmoney w hw) hs'') fun _ hs3 => byGetter_finds (hrecovery w hw) hs3).require _

end

theorem Settles.ok_iff {P : (PublicKey → Bool) → Prop} {r : Result SignState} (h : Settles ctx seed P s r) :
    (∃ s', r = .ok s') ↔ P (s.signs ctx) := by
  cases r with
  | error e => exact ⟨fun ⟨s', hs'⟩ => (by cases hs'), fun hP => absurd hP (h.2 e rfl)⟩
  | ok s' =>
    obtain ⟨hgrows, -, hP⟩ := h.1 s' rfl
    exact ⟨fun _ => hP _ hgrows.between_signs, fun _ => ⟨s', rfl⟩⟩

end Loops

theorem exists_fcAssert_ok_iff {α : Type} {c : Bool} {message : String} {r : Result α} :
    (∃ a, (fcAssert c message >>= fun _ => r) = .ok a) ↔ c = true ∧ ∃ a, r = .ok a := by
  simp [bind_ok_iff]

theorem verifyAuthority_accepts_iff (huncut : Uncut limits get approvals ops) (sigs : FlatSet PublicKey) :
    (∃ s, verifyAuthority limits ops sigs get approvals = .ok s) ↔
      Accepts limits get approvals ops (signedIn sigs) := by
  have hsigns : ∀ (ctx : SignContext) (approved : FlatSet WalletName), ctx.availableKeys = .empty →
      signs { init sigs with approvedBy := approved } ctx = signedIn sigs := by
    intro ctx approved hnone
    funext k
    refine (signs_init (s := { init sigs with approvedBy := approved }) rfl k).trans (decide_eq_decide.2 ?_)
    rw [hnone]
    exact or_iff_left (FlatSet.not_mem_empty k)
  unfold verifyAuthority Accepts
  dsimp only
  by_cases hsocial : (requiredAuthorities ops).social ≠ .empty
  · rw [if_pos hsocial, if_pos hsocial]
    have hall := verifySocial_settles
      (Trusted.start ⟨get.social, .empty, limits⟩ approvals.socialSeed (init sigs).providedSignatures)
      huncut.socialRecovery huncut.social huncut.socialMoney
    rw [exists_fcAssert_ok_iff, exists_fcAssert_ok_iff, exists_fcAssert_ok_iff, decide_eq_true_iff,
      decide_eq_true_iff,
      decide_eq_true_iff]
    refine and_congr_right fun _ => and_congr_right fun _ => and_congr_right fun _ => hall.ok_iff.trans ?_
    rw [hsigns _ _ rfl]
    exact Iff.rfl
  · rw [if_neg hsocial, if_neg hsocial]
    have hother := verifyOther_settles
      (Trusted.start ⟨get.money, .empty, limits⟩ approvals.moneySeed
        (init sigs).providedSignatures) huncut.other
    have hall := hother.bind fun s' _ hs' => (verifyMoney_settles hs' huncut.moneyRecovery huncut.money).bind
      fun s'' _ hs'' => verifyRecovery_settles hs'' huncut.recovery approvals
    refine hall.ok_iff.trans ?_
    rw [hsigns _ _ rfl]
    exact Iff.rfl

end Whole

/-! ## More keys -/

section More

variable {limits : SignLimits} {get : Getters} {approvals : Approvals} {ops : List Operation}
  {signed signed' : PublicKey → Bool}

theorem either_concedes {a a' b b' : Result Bool} (ha : Concedes a a') (hb : Concedes b b') :
    Concedes (either a b) (either a' b') := by
  intro answer h
  obtain ⟨first, hfirst, h⟩ := of_bind h
  obtain ⟨first', hfirst', himp⟩ := ha first hfirst
  cases first' with
  | true => exact ⟨true, either_of_true hfirst' b', fun _ => rfl⟩
  | false =>
    have hno : first = false := by
      rw [Bool.eq_false_iff]
      exact fun hyes => Bool.false_ne_true (himp hyes)
    rw [hno, if_neg (by simp)] at h
    rw [either_of_false hfirst']
    exact hb answer h

section

variable (hsigned : ∀ k, signed k = true → signed' k = true)
include hsigned

variable (g : AuthorityGetter) (seed : FlatSet WalletName)

theorem voteAs_mono (w : WalletName) :
    Concedes (voteAs limits g seed w signed) (voteAs limits g seed w signed') := by
  unfold voteAs voteOf
  split_ifs
  · exact .refl _
  · exact .bind fun a _ => evalAuthority_mono hsigned _ a

theorem voteBy_mono (lookup : AuthorityGetter) (w : WalletName) :
    Concedes (voteBy limits g seed lookup w signed) (voteBy limits g seed lookup w signed') :=
  .bind fun a _ => evalAuthority_mono hsigned _ a

theorem Accepts.mono
    (h : Accepts limits get approvals ops signed) : Accepts limits get approvals ops signed' := by
  unfold Accepts at h ⊢
  dsimp only at h ⊢
  split_ifs at h ⊢ with hsocial
  · obtain ⟨hmoney, hrecovery, hother, hvotes⟩ := h
    refine ⟨hmoney, hrecovery, hother, fun w hw => ?_⟩
    exact (either_concedes (voteAs_mono hsigned _ _ w) (either_concedes (voteBy_mono hsigned _ _ _ w)
      (voteBy_mono hsigned _ _ _ w))).yes (hvotes w hw)
  · obtain ⟨hother, hmoney, hrecovery⟩ := h
    refine ⟨fun a ha => ?_, fun w hw => ?_, fun w hw hnot => ?_⟩
    · exact (evalAuthority_mono hsigned _ a).yes (hother a ha)
    · exact (either_concedes (voteAs_mono hsigned _ _ w) (voteBy_mono hsigned _ _ _ w)).yes (hmoney w hw)
    · exact (voteBy_mono hsigned _ _ _ w).yes (hrecovery w hw hnot)

end

end More

theorem verifyAuthority_mono (limits : SignLimits) (get : Getters) (approvals : Approvals)
    (ops : List Operation)
    (huncut : Uncut limits get approvals ops) (sigs sigs' : FlatSet PublicKey) (hsub : ∀ k ∈ sigs, k ∈ sigs')
    (h : ∃ s, verifyAuthority limits ops sigs get approvals = .ok s) :
    ∃ s, verifyAuthority limits ops sigs' get approvals = .ok s := by
  rw [verifyAuthority_accepts_iff huncut] at h ⊢
  refine h.mono fun k hk => decide_eq_true ?_
  exact hsub k (of_decide_eq_true hk)

def vaultGetter : AuthorityGetter
  | "vault" => .ok ⟨2, ofList [("left", 1), ("right", 1)], .empty⟩
  | "left" => .ok ⟨1, ofList [("base", 1)], ofList [(⟨1⟩, 1)]⟩
  | "right" => .ok ⟨1, ofList [("middle", 1)], .empty⟩
  | "middle" => .ok ⟨1, ofList [("base", 1)], .empty⟩
  | "base" => .ok (.ofKey 1 ⟨2⟩ 1)
  | _ => .error ⟨.unknownKey, "unknown key"⟩

def vaultGetters : Getters := ⟨vaultGetter, vaultGetter, vaultGetter⟩

def shopping : List Operation := [.transfer ⟨"vault", "shop", .xgt 1, ""⟩]

def baseKey : FlatSet PublicKey := FlatSet.empty.insert ⟨2⟩

def leftKeys : FlatSet PublicKey := baseKey.insert ⟨1⟩

theorem uncut_vault : Uncut { maxRecursion := 3 } vaultGetters {} shopping := by
  constructor <;> decide +kernel

theorem verifyAuthority_mono_vault :
    (∀ k ∈ baseKey, k ∈ leftKeys) ∧ ∃ s, verifyAuthority { maxRecursion :=
      3 } shopping leftKeys vaultGetters = .ok s :=
  ⟨by decide, verifyAuthority_mono _ _ _ _ uncut_vault baseKey leftKeys (by decide) (by decide +kernel)⟩

theorem verifyAuthority_more_keys :
    (∃ s, verifyAuthority {} shopping baseKey vaultGetters = .ok s) ∧
      ¬ ∃ s, verifyAuthority {} shopping leftKeys vaultGetters = .ok s := by
  decide +kernel

end Xgt
