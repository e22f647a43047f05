import Mathlib.Data.List.Forall2
import XgtChain.Base.Weigh
import XgtChain.Protocol.VerifyAuthority

/-!
# What the search for signatures computes

`check_authority_impl` keeps the wallets it has approved for the whole transaction, marks the keys it has
used, and stops at limits.
-/

namespace Xgt

open Base List

/-! ## The vote -/

section Vote

variable (signed : PublicKey → Bool) (get : AuthorityGetter) (seed : FlatSet WalletName) (limit : Nat)
variable {w : WalletName} {a : Authority}

def Authority.members (a : Authority) (wallet : WalletName → Result Bool) : List (Result Bool × Nat) :=
  a.keyAuths.entries.map (fun k => (.ok (signed k.1), k.2)) ++
    a.walletAuths.entries.map fun w => (wallet w.1, w.2)

def voteOf (below : Authority → Result Bool) (w : WalletName) : Result Bool :=
  if w ∈ seed then .ok true else get w >>= below

def evalAuthority : Nat → Authority → Result Bool
  | 0, a => weigh limit a.weightThreshold (a.members signed fun w => .ok (decide (w ∈ seed))) 0 0
  | n + 1, a => weigh limit a.weightThreshold (a.members signed (voteOf get seed (evalAuthority n))) 0 0

def Authority.Fits (a : Authority) : Prop :=
  totalWeight a.keyAuths.entries + totalWeight a.walletAuths.entries < 2 ^ 32

def Tame : Nat → Authority → Prop
  | 0, a => a.Fits ∧ ∀ w ∈ a.walletAuths.entries, w.1 ∈ seed
  | n + 1, a => a.Fits ∧ ∀ w ∈ a.walletAuths.entries, w.1 ∉ seed → ∀ b, get w.1 = .ok b → Tame n b

def lookupsOf (below : Authority → Nat) (w : WalletName) : Nat :=
  if w ∈ seed then 0 else
    match get w with
    | .ok b => 1 + below b
    | .error _ => 1

def lookups : Nat → Authority → Nat
  | 0, _ => 0
  | n + 1, a => (a.walletAuths.entries.map fun w => lookupsOf get seed (lookups n) w.1).sum

instance (a : Authority) : Decidable a.Fits := inferInstanceAs (Decidable (_ < _))

instance decidableTame : ∀ (n : Nat) (a : Authority), Decidable (Tame get seed n a)
  | 0, a => inferInstanceAs (Decidable (a.Fits ∧ ∀ w ∈ a.walletAuths.entries, w.1 ∈ seed))
  | n + 1, a =>
    have := decidableTame n
    inferInstanceAs (Decidable (a.Fits ∧ ∀ w ∈ a.walletAuths.entries, w.1 ∉ seed → ∀ b, get w.1 = .ok b →
      Tame get seed n b))

variable {signed get seed limit} {f g : WalletName → Result Bool} {signed' : PublicKey → Bool}

theorem voteOf_seed (hw : w ∈ seed) (below : Authority → Result Bool) :
    voteOf get seed below w = .ok true := if_pos hw

theorem voteOf_get (hw : w ∉ seed) (below : Authority → Result Bool) :
    voteOf get seed below w = get w >>= below := if_neg hw

theorem lookupsOf_ok (hw : w ∉ seed) (hget : get w = .ok a) (below : Authority → Nat) :
    lookupsOf get seed below w = 1 + below a := by
  rw [lookupsOf, if_neg hw, hget]

theorem lookupsOf_pos (hw : w ∉ seed) (below : Authority → Nat) : 0 < lookupsOf get seed below w := by
  rw [lookupsOf, if_neg hw]
  split <;> omega

theorem Tame.fits {n : Nat} (h : Tame get seed n a) : a.Fits := by
  cases n <;> exact h.1

theorem members_congr
    (h : ∀ w ∈ a.walletAuths.entries, f w.1 = g w.1) : a.members signed f = a.members signed g := by
  have hwallets : (a.walletAuths.entries.map fun w => (f w.1, w.2)) = a.walletAuths.entries.map
    fun w => (g w.1, w.2) :=
    map_congr_left fun w hw => by rw [h w hw]
  rw [Authority.members, hwallets, Authority.members]

theorem evalAuthority_level {n m : Nat} (hn : Tame get seed n a) (hm : Tame get seed m a) :
    evalAuthority signed get seed limit n a = evalAuthority signed get seed limit m a := by
  induction n generalizing m a with
  | zero =>
    cases m with
    | zero => rfl
    | succ m =>
      rw [evalAuthority, evalAuthority, members_congr fun w hw => ?_]
      rw [voteOf_seed (hn.2 w hw), decide_eq_true (hn.2 w hw)]
  | succ n ih =>
    cases m with
    | zero =>
      rw [evalAuthority, evalAuthority, members_congr fun w hw => ?_]
      rw [voteOf_seed (hm.2 w hw), decide_eq_true (hm.2 w hw)]
    | succ m =>
      rw [evalAuthority, evalAuthority, members_congr fun w hw => ?_]
      by_cases hseed : w.1 ∈ seed
      · rw [voteOf_seed hseed, voteOf_seed hseed]
      · rw [voteOf_get hseed, voteOf_get hseed]
        exact bind_congr_of_ok fun b hb => ih (hn.2 w hw hseed b hb) (hm.2 w hw hseed b hb)

variable (hsigned : ∀ k, signed k = true → signed' k = true)
include hsigned

theorem members_concede (hfg : ∀ w, Concedes (f w) (g w)) (a : Authority) :
    List.Forall₂ (fun m m' => m.2 = m'.2 ∧ Concedes m.1 m'.1) (a.members signed f) (a.members signed' g) := by
  refine rel_append ?_ ?_
  · rw [forall₂_map_left_iff, forall₂_map_right_iff, forall₂_same]
    exact fun k _ => ⟨rfl, .of_imp (hsigned k.1)⟩
  · rw [forall₂_map_left_iff, forall₂_map_right_iff, forall₂_same]
    exact fun w _ => ⟨rfl, hfg w.1⟩

theorem evalAuthority_mono (n : Nat) (a : Authority) :
    Concedes (evalAuthority signed get seed limit n a) (evalAuthority signed' get seed limit n a) := by
  induction n generalizing a with
  | zero => exact weigh_mono (members_concede hsigned (fun w => .refl _) a) le_rfl 0
  | succ n ih =>
    refine weigh_mono (members_concede hsigned (fun w => ?_) a) le_rfl 0
    unfold voteOf
    split_ifs
    · exact .refl _
    · exact .bind fun b _ => ih b

end Vote

/-! ## What a search may use, and what it has used -/

section State

def SignState.signs (s : SignState) (ctx : SignContext) (k : PublicKey) : Bool :=
  decide (k ∈ s.providedSignatures.keys ∨ k ∈ ctx.availableKeys)

def SignState.Used (s : SignState) (k : PublicKey) : Prop := s.providedSignatures.find? k = some true

structure Between (ctx : SignContext) (s : SignState) (signed : PublicKey → Bool) : Prop where
  used : ∀ k, s.Used k → signed k = true
  usable : ∀ k, signed k = true → s.signs ctx k = true

structure Grows (ctx : SignContext) (s s' : SignState) : Prop where
  signs : ∀ k, s'.signs ctx k = s.signs ctx k
  used : ∀ k, s.Used k → s'.Used k

variable {ctx : SignContext} {seed : FlatSet WalletName} {s s' s'' : SignState} {signed : PublicKey → Bool}

theorem Grows.refl (ctx : SignContext) (s : SignState) : Grows ctx s s := ⟨fun _ => rfl, fun _ => id⟩

theorem Grows.trans (h : Grows ctx s s') (h' : Grows ctx s' s'') : Grows ctx s s'' :=
  ⟨fun k => (h'.signs k).trans (h.signs k), fun k hk => h'.used k (h.used k hk)⟩

theorem Grows.between (h : Grows ctx s s') (hs' : Between ctx s' signed) : Between ctx s signed :=
  ⟨fun k hk => hs'.used k (h.used k hk), fun k hk => (h.signs k).symm.trans (hs'.usable k hk)⟩

theorem between_signs (ctx : SignContext) (s : SignState) : Between ctx s (s.signs ctx) := by
  refine ⟨fun k hk => decide_eq_true (.inl ?_), fun _ => id⟩
  exact FlatMap.mem_keys.2 ⟨true, FlatMap.find?_eq_some_iff.1 hk⟩

theorem Grows.between_signs (h : Grows ctx s s') : Between ctx s' (s.signs ctx) := by
  rw [← funext h.signs]
  exact Xgt.between_signs ctx s'

theorem signedBy_search (ctx : SignContext) (s : SignState) (k : PublicKey) :
    Grows ctx s (s.signedBy ctx k).2 ∧ (s.signedBy ctx k).2.approvedBy = s.approvedBy ∧
      ∀ signed, Between ctx (s.signedBy ctx k).2 signed → signed k = (s.signedBy ctx k).1 := by
  unfold SignState.signedBy
  split_ifs with hk
  · have hused : ({ s with providedSignatures := s.providedSignatures.set k true } : SignState).Used k := by
      rw [SignState.Used, FlatMap.find?_set, if_pos rfl]
    refine ⟨⟨fun k' => decide_eq_decide.2 ?_, fun k' hk' => ?_⟩, rfl, fun signed hb => hb.used k hused⟩
    · rw [FlatMap.mem_keys_set_iff, or_assoc]
      refine or_iff_right_of_imp ?_
      rintro rfl
      exact hk
    · rw [SignState.Used, FlatMap.find?_set]
      split_ifs
      · rfl
      · exact hk'
  · refine ⟨.refl ctx s, rfl, fun signed hb => ?_⟩
    rw [Bool.eq_false_iff]
    exact fun hsigned => hk (of_decide_eq_true (hb.usable k hsigned))

def Approves (ctx : SignContext) (seed : FlatSet WalletName) (signed : PublicKey →
    Bool) (w : WalletName) : Prop :=
  ∃ n a, ctx.getMoney w = .ok a ∧ Tame ctx.getMoney seed n a ∧
    evalAuthority signed ctx.getMoney seed ctx.limits.maxMembership n a = .ok true

structure Trusted (ctx : SignContext) (seed : FlatSet WalletName) (s : SignState) : Prop where
  seeds : ∀ w ∈ seed, w ∈ s.approvedBy
  memo : ∀ w ∈ s.approvedBy, w ∉ seed → ∀ signed, Between ctx s signed → Approves ctx seed signed w

theorem Trusted.grow (h : Trusted ctx seed s) (hgrows : Grows ctx s s') (hsame : s'.approvedBy = s.approvedBy) :
    Trusted ctx seed s' where
  seeds w hw := hsame ▸ h.seeds w hw
  memo w hw hout signed hb := h.memo w (hsame ▸ hw) hout signed (hgrows.between hb)

theorem Trusted.approve (h : Trusted ctx seed s) {w : WalletName}
    (hw : ∀ signed, Between ctx s signed → Approves ctx seed signed w) :
    Trusted ctx seed { s with approvedBy := s.approvedBy.insert w } where
  seeds v hv := FlatSet.mem_insert.2 (.inr (h.seeds v hv))
  memo v hv hout signed hb := by
    rcases FlatSet.mem_insert.1 hv with rfl | hv
    · exact hw signed ⟨hb.used, hb.usable⟩
    · exact h.memo v hv hout signed ⟨hb.used, hb.usable⟩

def Allowed (limits : SignLimits) (count : Nat) : Prop :=
  limits.maxWalletAuths = 0 ∨ count ≤ limits.maxWalletAuths

instance (limits : SignLimits) (count : Nat) : Decidable (Allowed limits count) :=
    inferInstanceAs (Decidable (_ ∨ _))

theorem Allowed.mono {limits : SignLimits} {count count' : Nat} (h : Allowed limits count)
    (hle : count' ≤ count) :
    Allowed limits count' :=
  h.imp id hle.trans

end State

/-! ## The loops -/

section Loops

variable {ctx : SignContext} {seed : FlatSet WalletName} {f : WalletName → (PublicKey → Bool) → Result Bool}
  {nested : Option AuthorityCheck} {t : Tally}

def Verdict.tally : Verdict → Tally
  | .returned _ t => t
  | .fellThrough t => t

open Verdict

def Verdict.finish (limit threshold : Nat) (rest : List (Result Bool × Nat)) : Verdict → Result Bool
  | .returned answer _ => .ok answer
  | .fellThrough t => weigh limit threshold rest t.totalWeight t.membership

theorem member_search (ctx : SignContext) (threshold w : Nat) (counts : Bool) (t : Tally)
    (hfits : t.totalWeight + w < 2 ^ 32) :
    (t.member ctx threshold w counts).tally.state = t.state ∧
      (t.member ctx threshold w counts).tally.accountAuthCount = t.accountAuthCount ∧
      (t.member ctx threshold w counts).tally.totalWeight ≤ t.totalWeight + w ∧
      ∀ rest, weigh ctx.limits.maxMembership threshold ((.ok counts, w) :: rest) t.totalWeight t.membership =
        (t.member ctx threshold w counts).finish ctx.limits.maxMembership threshold rest := by
  have hmod : (t.totalWeight + w) % 2 ^ 32 = t.totalWeight + w := Nat.mod_eq_of_lt hfits
  simp only [Tally.member, Tally.addWeight, weigh, ok_bind, hmod]
  cases counts with
  | false =>
    simp only [Bool.false_eq_true, if_false, false_and]
    split_ifs with hlimit
    · exact ⟨rfl, rfl, Nat.le_add_right _ _, fun rest => rfl⟩
    · exact ⟨rfl, rfl, Nat.le_add_right _ _, fun rest => rfl⟩
  | true =>
    simp only [if_true, true_and]
    split_ifs with hreached hlimit
    · exact ⟨rfl, rfl, le_rfl, fun rest => rfl⟩
    · exact ⟨rfl, rfl, le_rfl, fun rest => rfl⟩
    · exact ⟨rfl, rfl, le_rfl, fun rest => rfl⟩

theorem checkKeys_search (ctx : SignContext) (threshold : Nat) (l : List (PublicKey × Nat)) (t : Tally)
    (hfits : t.totalWeight + totalWeight l < 2 ^ 32) :
    Grows ctx t.state (checkKeys ctx threshold l t).tally.state ∧
      (checkKeys ctx threshold l t).tally.state.approvedBy = t.state.approvedBy ∧
      (checkKeys ctx threshold l t).tally.accountAuthCount = t.accountAuthCount ∧
      (checkKeys ctx threshold l t).tally.totalWeight ≤ t.totalWeight + totalWeight l ∧
      ∀ signed rest, Between ctx (checkKeys ctx threshold l t).tally.state signed →
        weigh ctx.limits.maxMembership threshold (l.map (fun k => (.ok (signed k.1), k.2)) ++ rest)
            t.totalWeight t.membership =
          (checkKeys ctx threshold l t).finish ctx.limits.maxMembership threshold rest := by
  induction l generalizing t with
  | nil => exact ⟨.refl ctx _, rfl, rfl, Nat.le_add_right _ _, fun signed rest _ => rfl⟩
  | cons k rest ih =>
    rw [totalWeight_cons] at hfits ⊢
    obtain ⟨hgrows, happroved, hanswer⟩ := signedBy_search ctx t.state k.1
    rw [checkKeys]
    generalize t.state.signedBy ctx k.1 = r at hgrows happroved hanswer ⊢
    obtain ⟨counts, state⟩ := r
    obtain ⟨hstate, hcount, htotal, hweigh⟩ :=
      member_search ctx threshold k.2 counts { t with state := state } (by dsimp only; omega)
    dsimp only at hgrows happroved hanswer hstate hcount htotal hweigh ⊢
    generalize Tally.member ctx threshold k.2 counts { t with state := state } = v
      at hstate hcount htotal hweigh ⊢
    cases v with
    | returned answer t' =>
      dsimp only [tally] at hstate hcount htotal ⊢
      rw [hstate]
      refine ⟨hgrows, happroved, hcount, by omega, fun signed rest hb => ?_⟩
      rw [map_cons, cons_append, hanswer signed hb, hweigh]
      rfl
    | fellThrough t' =>
      dsimp only [tally] at hstate hcount htotal
      obtain ⟨hgrows', happroved', hcount', htotal', hweigh'⟩ := ih t' (by omega)
      rw [hstate] at hgrows' happroved'
      refine ⟨hgrows.trans hgrows', happroved'.trans happroved, hcount'.trans hcount, htotal'.trans (by omega),
        fun signed rest hb => ?_⟩
      rw [map_cons, cons_append, hanswer signed (hgrows'.between hb), hweigh]
      exact hweigh' signed rest hb

structure Answers (ctx : SignContext) (seed : FlatSet WalletName) (f : (PublicKey → Bool) →
    Result Bool) (cost : Nat)
    (count : Nat) (s : SignState) (answer : Result Bool) (count' : Nat) (s' : SignState) : Prop where
  grows : Grows ctx s s'
  trusted : Trusted ctx seed s'
  spent : count' ≤ count + cost
  answer : ∀ signed, Between ctx s' signed → f signed = answer

def Searches (ctx : SignContext) (seed : FlatSet WalletName) (f : (PublicKey → Bool) → Result Bool) (cost : Nat)
    (count : Nat) (s : SignState) : Result (Bool × Nat × SignState) → Prop
  | .ok (answer, count', s') => Answers ctx seed f cost count s (.ok answer) count' s'
  | .error e => f (s.signs ctx) = .error e

def Looks (ctx : SignContext) (seed : FlatSet WalletName) (f : (PublicKey → Bool) → Result Bool) (cost : Nat)
    (t : Tally) : Result Approval → Prop
  | .ok (.checked counts t') => t'.totalWeight = t.totalWeight ∧ t'.membership = t.membership ∧
      Answers ctx seed f cost t.accountAuthCount t.state (.ok counts) t'.accountAuthCount t'.state
  | .ok _ => False
  | .error e => f (t.state.signs ctx) = .error e

theorem checkWallets_search (threshold : Nat) {cost : WalletName → Nat} {l : List (WalletName × Nat)}
    (hlooks : ∀ w ∈ l, ∀ t, Trusted ctx seed t.state → Allowed ctx.limits (t.accountAuthCount + cost w.1) →
      Looks ctx seed (f w.1) (cost w.1) t (approveWallet ctx nested w.1 t))
    (hfits : t.totalWeight + totalWeight l < 2 ^ 32) (htrusted : Trusted ctx seed t.state)
    (hallowed : Allowed ctx.limits (t.accountAuthCount + (l.map fun w => cost w.1).sum)) :
    (∀ v, checkWallets ctx nested threshold l t = .ok v →
      Answers ctx seed (fun signed => weigh ctx.limits.maxMembership threshold (l.map fun w =>
        (f w.1 signed, w.2))
          t.totalWeight t.membership) (l.map fun w => cost w.1).sum t.accountAuthCount t.state
        (v.finish ctx.limits.maxMembership threshold []) v.tally.accountAuthCount v.tally.state) ∧
    ∀ e, checkWallets ctx nested threshold l t = .error e →
      weigh ctx.limits.maxMembership threshold (l.map fun w => (f w.1 (t.state.signs ctx), w.2))
        t.totalWeight t.membership = .error e := by
  induction l generalizing t with
  | nil =>
    refine ⟨fun v hv => ?_, fun e he => by cases he⟩
    cases hv
    exact ⟨.refl ctx _, htrusted, Nat.le_add_right _ _, fun signed _ => rfl⟩
  | cons w rest ih =>
    rw [totalWeight_cons] at hfits
    rw [map_cons, sum_cons] at hallowed ⊢
    have hhere := hlooks w (.head _) t htrusted (hallowed.mono (by omega))
    rw [checkWallets]
    generalize approveWallet ctx nested w.1 t = r at hhere ⊢
    cases r with
    | error e =>
      -- the look-up fails, and so does the member of the vote
      refine ⟨fun v hv => (by cases hv), fun e' he => ?_⟩
      cases he
      rw [map_cons, weigh, show f w.1 (t.state.signs ctx) = .error e from hhere]
      rfl
    | ok approval =>
      obtain _ | _ | ⟨counts, t'⟩ := approval
      · exact hhere.elim
      · exact hhere.elim
      obtain ⟨htotal', hmember', hanswers⟩ := hhere
      obtain ⟨hstate, hcount, htotal, hweigh⟩ := member_search ctx threshold w.2 counts t' (by omega)
      have hspent := hanswers.spent
      rw [ok_bind]
      dsimp only
      generalize Tally.member ctx threshold w.2 counts t' = v at hstate hcount htotal hweigh ⊢
      -- the vote, with any set of keys in question up to here
      have hstep : ∀ signed, Between ctx t'.state signed →
          weigh ctx.limits.maxMembership threshold ((w :: rest).map fun w => (f w.1 signed, w.2)) t.totalWeight
            t.membership =
          v.finish ctx.limits.maxMembership threshold (rest.map fun w => (f w.1 signed, w.2)) := by
        intro signed hb
        rw [map_cons, hanswers.answer signed hb, ← htotal', ← hmember', hweigh]
      cases v with
      | returned answer t'' =>
        dsimp only [tally] at hstate hcount htotal
        refine ⟨fun v hv => ?_, fun e he => by cases he⟩
        cases hv
        dsimp only [tally]
        rw [hstate, hcount]
        exact ⟨hanswers.grows, hanswers.trusted, by omega, hstep⟩
      | fellThrough t'' =>
        dsimp only [tally] at hstate hcount htotal
        obtain ⟨hok, herror⟩ := ih (fun w hw => hlooks w (.tail _ hw)) (t := t'') (by omega)
          (hstate ▸ hanswers.trusted) (hallowed.mono (by omega))
        refine ⟨fun v hv => ?_, fun e he => ?_⟩
        · obtain ⟨hgrows, htrusted', hspent', hrest⟩ := hok v hv
          rw [hstate] at hgrows
          refine ⟨hanswers.grows.trans hgrows, htrusted', by omega, fun signed hb => ?_⟩
          rw [hstep signed (hgrows.between hb)]
          exact hrest signed hb
        · rw [hstep _ hanswers.grows.between_signs]
          have hrest := herror e he
          rw [hstate, funext hanswers.grows.signs] at hrest
          exact hrest

theorem checkAuthorityBody_search {a : Authority} (hfits : a.Fits) (cost : WalletName → Nat)
    (hlooks : ∀ w ∈ a.walletAuths.entries, ∀ t, Trusted ctx seed t.state →
      Allowed ctx.limits (t.accountAuthCount + cost w.1) →
      Looks ctx seed (f w.1) (cost w.1) t (approveWallet ctx nested w.1 t))
    {count : Nat} {s : SignState} (htrusted : Trusted ctx seed s)
    (hallowed : Allowed ctx.limits (count + (a.walletAuths.entries.map fun w => cost w.1).sum)) :
    Searches ctx seed (fun signed => weigh ctx.limits.maxMembership a.weightThreshold
        (a.members signed fun w => f w signed) 0 0)
      (a.walletAuths.entries.map fun w => cost w.1).sum count s (checkAuthorityBody ctx nested a count s) := by
  have hsum : totalWeight a.keyAuths.entries + totalWeight a.walletAuths.entries < 2 ^ 32 := hfits
  obtain ⟨hgrows, happroved, hcount, htotal, hweigh⟩ :=
    checkKeys_search ctx a.weightThreshold a.keyAuths.entries ⟨0, 0, count, s⟩ (by dsimp only; omega)
  unfold checkAuthorityBody
  dsimp only at hgrows happroved hcount htotal hweigh
  generalize checkKeys ctx a.weightThreshold a.keyAuths.entries ⟨0, 0, count, s⟩ = v
    at hgrows happroved hcount htotal hweigh ⊢
  cases v with
  | returned answer t =>
    dsimp only [tally] at hgrows happroved hcount
    exact ⟨hgrows, htrusted.grow hgrows happroved, by omega, fun signed hb => hweigh signed _ hb⟩
  | fellThrough t =>
    dsimp only [tally] at hgrows happroved hcount htotal hweigh ⊢
    obtain ⟨hok, herror⟩ := checkWallets_search a.weightThreshold hlooks (t := t) (by omega)
      (htrusted.grow hgrows happroved) (hallowed.mono (by omega))
    cases hwallets : checkWallets ctx nested a.weightThreshold a.walletAuths.entries t with
    | error e =>
      have hrest := herror e hwallets
      rw [funext hgrows.signs] at hrest
      exact (hweigh _ _ hgrows.between_signs).trans hrest
    | ok v =>
      obtain ⟨hgrows', htrusted', hspent, hanswer⟩ := hok v hwallets
      -- whether the loop returns or ends, the vote has the same answer
      have hvote : ∀ signed, Between ctx v.tally.state signed →
          weigh ctx.limits.maxMembership a.weightThreshold (a.members signed fun w => f w signed) 0 0 =
            v.finish ctx.limits.maxMembership a.weightThreshold [] := fun signed hb =>
        (hweigh signed _ (hgrows'.between hb)).trans (hanswer signed hb)
      rw [ok_bind]
      cases v with
      | returned answer t' | fellThrough t' =>
        exact ⟨hgrows.trans hgrows', htrusted', hcount ▸ hspent, hvote⟩

theorem approveWallet_search {n : Nat} {check : AuthorityCheck}
    (hcheck : ∀ a count s, Tame ctx.getMoney seed n a → Trusted ctx seed s →
      Allowed ctx.limits (count + lookups ctx.getMoney seed n a) →
      Searches ctx seed (fun signed => evalAuthority signed ctx.getMoney seed ctx.limits.maxMembership n a)
        (lookups ctx.getMoney seed n a) count s (check a count s)) {w : WalletName}
    (htame : w ∉ seed → ∀ b, ctx.getMoney w = .ok b → Tame ctx.getMoney seed n b)
    (htrusted : Trusted ctx seed t.state)
    (hallowed : Allowed ctx.limits (t.accountAuthCount + lookupsOf ctx.getMoney seed
      (lookups ctx.getMoney seed n) w))
    :
    Looks ctx seed (fun signed => voteOf ctx.getMoney seed
        (evalAuthority signed ctx.getMoney seed ctx.limits.maxMembership n) w)
      (lookupsOf ctx.getMoney seed (lookups ctx.getMoney seed n) w) t (approveWallet ctx (some check) w t) := by
  unfold approveWallet
  by_cases hmemo : w ∈ t.state.approvedBy
  · rw [if_pos hmemo]
    refine ⟨rfl, rfl, .refl ctx _, htrusted, Nat.le_add_right _ _, fun signed hb => ?_⟩
    by_cases hseed : w ∈ seed
    · exact voteOf_seed hseed _
    · obtain ⟨m, a, hget, hm, hvote⟩ := htrusted.memo w hmemo hseed signed hb
      rw [voteOf_get hseed, hget, ok_bind, evalAuthority_level (htame hseed a hget) hm, hvote]
  · have hseed : w ∉ seed := fun h => hmemo (htrusted.seeds w h)
    have hnot : ¬(0 < ctx.limits.maxWalletAuths ∧ ctx.limits.maxWalletAuths ≤ t.accountAuthCount) := by
      have hpos : 0 < lookupsOf ctx.getMoney seed (lookups ctx.getMoney seed n) w := lookupsOf_pos hseed _
      rintro ⟨hlimit, hle⟩
      rcases hallowed with hzero | hallowed <;> omega
    rw [if_neg hmemo]
    dsimp only
    rw [if_neg hnot]
    cases hget : ctx.getMoney w with
    | error e =>
      refine (voteOf_get hseed _).trans ?_
      rw [hget]
      rfl
    | ok a =>
      rw [lookupsOf_ok hseed hget] at hallowed ⊢
      have hnested := hcheck a (t.accountAuthCount + 1) t.state (htame hseed a hget) htrusted
        (hallowed.mono (by omega))
      have hvote : ∀ signed, voteOf ctx.getMoney seed
          (evalAuthority signed ctx.getMoney seed ctx.limits.maxMembership n) w =
          evalAuthority signed ctx.getMoney seed ctx.limits.maxMembership n a := fun signed => by
        rw [voteOf_get hseed, hget, ok_bind]
      rw [ok_bind]
      generalize check a (t.accountAuthCount + 1) t.state = r at hnested ⊢
      cases r with
      | error e => exact (hvote _).trans hnested
      | ok r =>
        obtain ⟨approved, count, state⟩ := r
        obtain ⟨hgrows, htrusted', hspent, hanswer⟩ := hnested
        rw [ok_bind]
        cases approved with
        | false =>
          exact ⟨rfl, rfl, hgrows, htrusted', by dsimp only; omega, fun signed hb =>
            (hvote signed).trans (hanswer signed hb)⟩
        | true =>
          have happroves : ∀ signed, Between ctx state signed → Approves ctx seed signed w := fun signed hb =>
            ⟨n, a, hget, htame hseed a hget, hanswer signed hb⟩
          exact ⟨rfl, rfl, ⟨hgrows.signs, hgrows.used⟩, htrusted'.approve happroves, by dsimp only; omega,
            fun signed hb => (hvote signed).trans (hanswer signed ⟨hb.used, hb.usable⟩)⟩

theorem checkAuthorityImpl_search (n : Nat) (a : Authority) (count : Nat) (s : SignState)
    (htame : Tame ctx.getMoney seed n a) (htrusted : Trusted ctx seed s)
    (hallowed : Allowed ctx.limits (count + lookups ctx.getMoney seed n a)) :
    Searches ctx seed (fun signed => evalAuthority signed ctx.getMoney seed ctx.limits.maxMembership n a)
      (lookups ctx.getMoney seed n a) count s (checkAuthorityImpl ctx n a count s) := by
  induction n generalizing a count s with
  | zero =>
    -- all the wallets are seeds, so none is skipped and none is looked up
    have hnone : (a.walletAuths.entries.map fun _ => 0).sum = 0 := by simp
    have hlooks : ∀ w ∈ a.walletAuths.entries, ∀ t : Tally, Trusted ctx seed t.state →
        Allowed ctx.limits (t.accountAuthCount + 0) →
        Looks ctx seed (fun _ => .ok (decide (w.1 ∈ seed))) 0 t (approveWallet ctx none w.1 t) := by
      intro w hw t ht _
      rw [approveWallet, if_pos (ht.seeds _ (htame.2 w hw)), decide_eq_true (htame.2 w hw)]
      exact ⟨rfl, rfl, .refl ctx _, ht, le_rfl, fun _ _ => rfl⟩
    have hbody := checkAuthorityBody_search htame.fits (f := fun w _ => .ok (decide (w ∈ seed)))
      (fun _ => 0) hlooks
      htrusted (hallowed.mono (by rw [hnone]; exact le_rfl))
    rw [hnone] at hbody
    exact hbody
  | succ n ih =>
    exact checkAuthorityBody_search htame.1 _
      (fun w hw t ht ha => approveWallet_search ih (htame.2 w hw) ht ha) htrusted hallowed

end Loops

end Xgt
