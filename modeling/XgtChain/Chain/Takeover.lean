import Mathlib.Logic.Relation
import XgtChain.Chain.ApplyTransaction

/-!
# Wallet names and their keys

The name of a wallet is computed from keys, so a name belongs to its keys before the wallet exists.
-/

namespace Xgt

open Base Relation Objects List

theorem zero_not_mem_base58Digits (fuel n : Nat) : '0' ∉ base58Digits fuel n := by
  induction fuel generalizing n with
  | zero => simp [base58Digits]
  | succ fuel ih =>
    rw [base58Digits]
    split_ifs
    · simp
    · have hdigit : ∀ i < 58, '0' ≠ "123456789ABCDEFGHJKLMNPQRSTUVWXYZabcdefghijkmnopqrstuvwxyz".toList.getD
          i '1' := by decide
      simp only [mem_cons, not_or]
      exact ⟨hdigit _ (Nat.mod_lt _ (by decide)), ih _⟩

theorem zero_not_mem_getWalletName (cr : Crypto) (keys : List PublicKey) :
    '0' ∉ (getWalletName cr keys).toList := by
  have hlist : (getWalletName cr keys).toList =
      "XGT".toList ++ (toBase58 (cr.hashKeys keys)).take 40 := String.toList_ofList
  intro h
  rcases mem_append.1 (hlist ▸ h) with h | h
  · exact absurd h (by decide)
  · rcases mem_append.1 (mem_of_mem_take h) with h | h
    · exact absurd (eq_of_mem_replicate h) (by decide)
    · exact zero_not_mem_base58Digits _ _ (mem_reverse.1 h)

section Run

variable (cr : Crypto) (K : FlatSet PublicKey) (R : Set PublicKey) (s : Objects)

def SignedBy (t : SignedTransaction) (k : PublicKey) : Prop :=
  ∃ canon keys, cr.getSignatureKeys canon t = .ok keys ∧ k ∈ keys

structure AsksFor (a : Authority) : Prop where
  threshold : 0 < a.weightThreshold
  wallets : a.walletAuths = .empty
  keys : ∀ k ∈ a.getKeys, k ∈ K ∨ k ∈ R

structure KeepsAway (ops : List Operation) : Prop where
  create : ∀ o, Operation.walletCreate o ∈ ops →
    o.getWalletName cr = getWalletName cr K.elems → AsksFor K R o.money
  update : ∀ o, Operation.walletUpdate o ∈ fromFirstCreate ops → o.wallet ≠ getWalletName cr K.elems
  pow : ∀ o, Operation.pow o ∈ fromFirstCreate ops → o.getWorkerName ≠ getWalletName cr K.elems

/-- A transaction without the keys `K` and `R`, or a step that changes no authority. -/
inductive QuietStep : Objects → Objects → Prop where
  | transaction {s s' : Objects} {t : SignedTransaction} {env : Env}
      (hskip : env.skip = skipNothing) (h : s.applyTransaction cr t env = .ok s')
      (hsigned : ∀ k, SignedBy cr t k → k ∉ K ∧ k ∉ R)
      (hdrawn : ∀ id, (env.random id).money ∈ R ∧ (env.random id).recovery ∈ R)
      (haway : KeepsAway cr K R t.operations) : QuietStep s s'
  | bookkeeping {s s' : Objects} (h : s'.authorities = s.authorities) : QuietStep s s'

/-- The keys meet the authority, counting wallets whose own authority they meet. -/
def SatisfiedBy (S : FlatSet PublicKey) (a : Authority) : Prop :=
  Meets (signedIn S) (Derives (signedIn S) s.getters.policies) a.policy

def Guarded : Prop :=
  ∀ a ∈ s.authorities.objects, a.account = getWalletName cr K.elems →
    AsksFor K R a.money ∧ ∀ k ∈ a.recovery.getKeys, k ∈ K ∨ k ∈ R

end Run

/-! ## The invariant -/

section Invariant

variable {cr : Crypto} {K : FlatSet PublicKey} {R : Set PublicKey} {s s' : Objects}

theorem asksFor_ofKey {k : PublicKey} (hk : k ∈ R) : AsksFor K R (.ofKey 1 k 1) :=
  ⟨Nat.one_pos, rfl, fun _ hk' => .inr (mem_singleton.1 hk' ▸ hk)⟩

theorem AsksFor.not_satisfied {a : Authority} (h : AsksFor K R a) {S : FlatSet PublicKey}
    (hS : ∀ k ∈ S, k ∉ K ∧ k ∉ R) : ¬SatisfiedBy s S a := by
  rintro ⟨counted, hsub, -, hweight⟩
  have hnone : counted = [] := by
    have hmembers : a.policy.members = [] := by simp [Authority.policy, h.wallets, FlatMap.empty]
    exact sublist_nil.1 (hmembers ▸ hsub)
  have hkeys : a.keyAuths.entries.filter (fun e => signedIn S e.1) = [] := by
    refine filter_eq_nil_iff.2 fun e he hsigned => ?_
    have hmem : e.1 ∈ a.getKeys := FlatMap.mem_keys.2 ⟨e.2, he⟩
    obtain ⟨hK, hR⟩ := hS e.1 (by simpa [signedIn] using hsigned)
    exact (h.keys e.1 hmem).elim hK hR
  have hzero : a.weightThreshold ≤ 0 := by
    simpa [Authority.policy, Policy.keyWeight, hkeys, hnone] using hweight
  exact absurd h.threshold (Nat.not_lt.2 hzero)

theorem genesis_guarded (initKey : PublicKey) : Guarded cr K R (genesis initKey) := by
  intro a ha hname
  have hzero : ∀ w ∈ [xgtMinerWallet, xgtInitMinerName, xgtNullWallet, xgtTempWallet],
      '0' ∈ w.toList := by decide
  have haccount : a.account ∈ (genesis initKey).authorities.objects.map (·.account) :=
    mem_map_of_mem ha
  exact absurd (hname ▸ hzero a.account haccount) (zero_not_mem_getWalletName cr _)

section

variable (hinj : ∀ keys, getWalletName cr keys = getWalletName cr K.elems → keys = K.elems)
  (hne : K.elems ≠ [])
include hinj hne

theorem guarded_of_writes {t : SignedTransaction} {env : Env} {op : Operation} {a : AccountAuthorityObject}
    (hs : Guarded cr K R s) (hcheck : s.checkOperations cr t t.operations = .ok ())
    (hsigned : ∀ k, SignedBy cr t k → k ∉ K ∧ k ∉ R)
    (hdrawn : ∀ id, (env.random id).money ∈ R ∧ (env.random id).recovery ∈ R)
    (haway : KeepsAway cr K R t.operations) (hop : op ∈ t.operations) (hwrites : Objects.Writes cr env op a)
    (hname : a.account = getWalletName cr K.elems) :
    AsksFor K R a.money ∧ ∀ k ∈ a.recovery.getKeys, k ∈ K ∨ k ∈ R := by
  unfold Objects.Writes at hwrites
  split at hwrites
  next o =>
    obtain ⟨haccount, hmoney, hrecovery⟩ := hwrites
    have hcreated : o.getWalletName cr = getWalletName cr K.elems := haccount ▸ hname
    refine ⟨hmoney ▸ haway.create o hop hcreated, fun k hk => .inl ?_⟩
    rw [hrecovery, hinj _ hcreated] at hk
    exact hk
  next o =>
    -- only `K` itself owns the name, and `K` did not sign
    rcases checkOperations_owns hcheck hop with ⟨keys, hkeys, howned⟩ | hlate
    · have hK : keys.elems = K.elems := hinj _ (howned ▸ hwrites ▸ hname)
      obtain ⟨k, hk⟩ := exists_mem_of_ne_nil _ hne
      exact absurd hk (hsigned k ⟨_, keys, hkeys, FlatSet.mem_def.2 (hK ▸ hk)⟩).1
    · exact absurd (hwrites ▸ hname) (haway.update o hlate)
  next o =>
    -- the worker's keys are `K`'s or drawn ones, and neither signed
    rcases checkOperations_worker hcheck hop with ⟨keys, r, hkeys, hr, hsigns⟩ | hlate
    · obtain ⟨hrow, haccount⟩ := of_getAuthority hr
      obtain ⟨hmoney, hrecovery⟩ := hs r.2 (ObjectIndex.mem_objects.2 ⟨r.1, hrow⟩)
        (haccount.trans (hwrites ▸ hname))
      obtain ⟨k, hk, hsign⟩ : ∃ k, (k ∈ r.2.money.getKeys ∨ k ∈ r.2.recovery.getKeys) ∧ k ∈ keys := by
        simp only [Objects.signsFor, Bool.or_eq_true, any_eq_true, decide_eq_true_eq] at hsigns
        rcases hsigns with ⟨k, hk, hsign⟩ | ⟨k, hk, hsign⟩
        · exact ⟨k, .inl hk, hsign⟩
        · exact ⟨k, .inr hk, hsign⟩
      obtain ⟨hK, hR⟩ := hsigned k ⟨_, keys, hkeys, hsign⟩
      exact absurd (hk.elim (hmoney.keys k) (hrecovery k)) (not_or.2 ⟨hK, hR⟩)
    · exact absurd (hwrites ▸ hname) (haway.pow o hlate)
  next o =>
    obtain ⟨-, id, hmoney, hrecovery⟩ := hwrites
    refine ⟨hmoney ▸ asksFor_ofKey (hdrawn id).1, fun k hk => .inr ?_⟩
    rw [hrecovery] at hk
    exact mem_singleton.1 (show k ∈ [_] from hk) ▸ (hdrawn id).2
  next => exact hwrites.elim

theorem QuietStep.guarded (h : QuietStep cr K R s s') (hs : Guarded cr K R s) : Guarded cr K R s' := by
  cases h with
  | bookkeeping h =>
    intro a ha
    exact hs a (h ▸ ha)
  | transaction hskip h hsigned hdrawn haway =>
    obtain ⟨-, -, hauth, -, s1, hrecord, hops⟩ := applyTransaction_ok hskip h
    have hs1 : Guarded cr K R s1 := by
      have hsame : s1.authorities = s.authorities :=
        congrArg Prod.snd (recordTransaction_frame hrecord)
      intro a ha
      exact hs a (hsame ▸ ha)
    refine foldlM_ok_of_step hops hs1 fun u op u' hop hu hstep a ha hname => ?_
    rcases (applyOperation_rows (plainError_ok_iff.1 hstep)).rows a ha with hold | hwrites
    · exact hu a hold hname
    · exact guarded_of_writes hinj hne hs (authorize_ok hauth).1 hsigned hdrawn haway hop
        hwrites hname

theorem quietRun_guarded {initKey : PublicKey}
    (hrun : ReflTransGen (QuietStep cr K R) (genesis initKey) s) : Guarded cr K R s := by
  induction hrun with
  | refl => exact genesis_guarded initKey
  | tail _ hstep ih => exact hstep.guarded hinj hne ih

end

theorem quietRun_not_taken (cr : Crypto) (K : FlatSet PublicKey) (R : Set PublicKey)
    (hinj : ∀ keys, getWalletName cr keys = getWalletName cr K.elems → keys = K.elems)
    (hne : K.elems ≠ []) {initKey : PublicKey} {s : Objects}
    (hrun : ReflTransGen (QuietStep cr K R) (genesis initKey) s) {r : Nat × AccountAuthorityObject}
    (hr : s.findAuthority (getWalletName cr K.elems) = some r) {S : FlatSet PublicKey}
    (hS : ∀ k ∈ S, k ∉ K ∧ k ∉ R) : ¬SatisfiedBy s S r.2.money := by
  have hguarded := quietRun_guarded hinj hne hrun
  obtain ⟨hrow, haccount⟩ := of_getAuthority (getRow_ok_iff.2 hr)
  exact (hguarded r.2 (ObjectIndex.mem_objects.2 ⟨r.1, hrow⟩) haccount).1.not_satisfied hS

end Invariant

def oneNameCrypto : Crypto :=
  { toyParams.toCrypto with hashKeys := fun keys => if keys = [⟨5⟩] then 1 else 2 }

def oneKey : FlatSet PublicKey := FlatSet.empty.insert ⟨5⟩

theorem oneNameCrypto_injective (keys : List PublicKey)
    (h : getWalletName oneNameCrypto keys = getWalletName oneNameCrypto oneKey.elems) :
    keys = oneKey.elems := by
  by_contra hne
  have hother : getWalletName oneNameCrypto keys = getWalletName oneNameCrypto [] := by
    have hhash : oneNameCrypto.hashKeys keys = oneNameCrypto.hashKeys [] := if_neg hne
    exact congrArg (fun d => String.ofList ("XGT".toList ++ (toBase58 d).take 40)) hhash
  exact absurd (hother.symm.trans h) (by decide +kernel)

theorem transfer_to_name_not_taken :
    ∃ (s : Objects) (r : Nat × AccountAuthorityObject),
      s.findAuthority (getWalletName oneNameCrypto oneKey.elems) = some r ∧
      ¬SatisfiedBy s (FlatSet.empty.insert ⟨1⟩) r.2.money := by
  let name := getWalletName oneNameCrypto oneKey.elems
  let t := toyTransaction 0 [.transfer ⟨xgtInitMinerName, name, .xgt 10, ""⟩] [1]
  have hrun : ((genesis ⟨1⟩).applyTransaction oneNameCrypto t toyEnv).toOption.any
      (fun s => (s.findAuthority name).isSome) = true := by decide +kernel
  obtain ⟨s, hs, hfound⟩ := exists_ok_of_any hrun
  obtain ⟨r, hr⟩ := Option.isSome_iff_exists.1 hfound
  have hstep : QuietStep oneNameCrypto oneKey {k | 900 ≤ k.data} (genesis ⟨1⟩) s := by
    refine .transaction rfl hs ?_ (fun _ => ⟨Nat.le_succ 900, Nat.le_refl 900⟩) ⟨?_, ?_, ?_⟩
    · rintro k ⟨canon, keys, hkeys, hk⟩
      cases hkeys
      obtain rfl : k = ⟨1⟩ := by simpa using mem_singleton.1 (FlatSet.mem_def.1 hk)
      exact ⟨by decide, by decide⟩
    all_goals simp [t, toyTransaction, fromFirstCreate, Operation.isWalletCreate]
  exact ⟨s, r, hr, quietRun_not_taken oneNameCrypto oneKey _ oneNameCrypto_injective (by decide)
    (.single hstep) hr (by decide)⟩

theorem create_takes_name :
    ∃ (t : SignedTransaction) (s' : Objects) (r : Nat × AccountAuthorityObject)
      (S : FlatSet PublicKey),
      (genesis ⟨1⟩).applyTransaction oneNameCrypto t toyEnv = .ok s' ∧
      t.signatures = [] ∧
      s'.findAuthority (getWalletName oneNameCrypto oneKey.elems) = some r ∧
      (∀ k ∈ S, k ∉ oneKey ∧ k.data < 900) ∧ SatisfiedBy s' S r.2.money := by
  let t := toyTransaction 0 [.walletCreate (toyCreate 5 66)] []
  have hrun : ((genesis ⟨1⟩).applyTransaction oneNameCrypto t toyEnv).toOption.any
      (fun s' => (s'.findAuthority (getWalletName oneNameCrypto oneKey.elems)).any
        fun r => r.2.money = .ofKey 1 ⟨66⟩ 1) = true := by decide +kernel
  obtain ⟨s', hs', hfound⟩ := exists_ok_of_any hrun
  obtain ⟨r, hr, hmoney⟩ := (Option.any_eq_true _ _).1 hfound
  have hkey : r.2.money = .ofKey 1 ⟨66⟩ 1 := of_decide_eq_true hmoney
  refine ⟨t, s', r, FlatSet.empty.insert ⟨66⟩, hs', rfl, hr, by decide, [], nil_sublist _,
    by simp, ?_⟩
  simp only [hkey]
  decide

end Xgt
