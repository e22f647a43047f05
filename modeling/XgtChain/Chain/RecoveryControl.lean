import XgtChain.Chain.ApplyBlock
import XgtChain.Chain.Takeover

/-!
# Who may update a wallet

A wallet update is guarded by the name of the wallet: the signing keys have to hash to it.
-/

namespace Xgt

open Base Relation Objects List Operation

namespace Objects

variable {s s' : Objects}
variable {o : WalletUpdateOperation} {r : Nat × AccountAuthorityObject}

theorem upsertWallet_kept {w : WalletName} (h : s.upsertWallet o = .ok s')
    (hr : s.findAuthority w = some r) : s'.findAuthority w = some r := by
  rcases upsertWallet_ok h with ⟨-, rfl⟩ | ⟨-, memo, auth, -, h⟩
  · exact hr
  · exact (createWallet_rows (P := fun _ => True) (W := fun _ => False) trivial h).1.kept w r id hr

theorem findAuthority_modify {name : WalletName} {auth : AccountAuthorityObject}
    (hr : s.findAuthority name = some r) (h : s.authorities.modify? r.1 auth = some s'.authorities)
    (hauth : auth.account = r.2.account) : s'.findAuthority name = some (r.1, auth) := by
  have hname := hauth.trans (of_getAuthority (getRow_ok_iff.2 hr)).2
  obtain ⟨id, old⟩ := r
  exact ObjectIndex.find?_modify?_self h hr (decide_eq_true hname)

theorem setRecovery_stored (h : s.setRecovery o = .ok s') (hr : s.findAuthority o.wallet = some r) :
    ∃ r', s'.findAuthority o.wallet = some r' ∧
      r'.2.recovery = o.recovery.getD r.2.recovery := by
  rcases setRecovery_ok h with ⟨hnone, rfl⟩ | ⟨recovery, q, history, auths, hsome, hq, -, hmodify, rfl⟩
  · exact ⟨r, hr, by rw [hnone]; rfl⟩
  · obtain rfl : r = q := Option.some.inj (hr.symm.trans (getRow_ok_iff.1 hq))
    exact ⟨_, findAuthority_modify hr hmodify rfl, by rw [hsome]; rfl⟩

theorem setMoneySocial_stored (h : s.setMoneySocial o = .ok s') (hr : s.findAuthority o.wallet = some r) :
    ∃ r', s'.findAuthority o.wallet = some r' ∧ r'.2.recovery = r.2.recovery := by
  rcases setMoneySocial_ok h with rfl | ⟨q, auths, hq, hmodify, rfl⟩
  · exact ⟨r, hr, rfl⟩
  · obtain rfl : r = q := Option.some.inj (hr.symm.trans (getRow_ok_iff.1 hq))
    exact ⟨_, findAuthority_modify hr hmodify rfl, rfl⟩

theorem applyWalletUpdate_stored
    (h : s.applyWalletUpdate o = .ok s') (hr : s.findAuthority o.wallet = some r) :
    ∃ r', s'.findAuthority o.wallet = some r' ∧
      r'.2.recovery = o.recovery.getD r.2.recovery := by
  obtain ⟨s1, s2, s3, h1, h2, h3, h4⟩ := applyWalletUpdate_ok h
  obtain ⟨r2, hr2, hrecovery⟩ := setRecovery_stored h2 (upsertWallet_kept h1 hr)
  have hr3 : s3.findAuthority o.wallet = some r2 := by
    rw [findAuthority, show s3.authorities = s2.authorities from
      congrArg Prod.snd (setWalletData_idle h3).kind.frame_of_idle]
    exact hr2
  obtain ⟨r', hr', hsame⟩ := setMoneySocial_stored h4 hr3
  exact ⟨r', hr', hsame.trans hrecovery⟩

end Objects

/-! ## Authorities that ask for the keys of a name -/

section Sealed

variable (cr : Crypto) (w : WalletName)

def HoldsName (S : FlatSet PublicKey) : Prop :=
  ∃ K : FlatSet PublicKey, (∀ k ∈ K, k ∈ S) ∧ getWalletName cr K.elems = w

structure Sealed (a : Authority) : Prop where
  wallets : a.walletAuths = .empty
  keys : ∀ S, a.weightThreshold ≤ a.policy.keyWeight (signedIn S) ↔ HoldsName cr w S

/-- Operations that leave the wallet to its own recovery authority. -/
structure KeepsSealed (ops : List Operation) : Prop where
  guarded : ∀ o, walletUpdate o ∈ fromFirstCreate ops → o.wallet ≠ w
  stores : ∀ o a, walletUpdate o ∈ ops → o.wallet = w → o.recovery = some a →
    Sealed cr w a

def Stores (Q : Authority → Prop) (s : Objects) : Prop :=
  ∃ r, s.findAuthority w = some r ∧ Q r.2.recovery

/-- A transaction that keeps the wallet sealed, or a step that changes no authority. -/
inductive NamedStep : Objects → Objects → Prop where
  | transaction {s s' : Objects} {t : SignedTransaction} {env : Env}
      (hskip : env.skip = skipNothing) (h : s.applyTransaction cr t env = .ok s')
      (hops : KeepsSealed cr w t.operations) : NamedStep s s'
  | bookkeeping {s s' : Objects} (h : s'.authorities = s.authorities) : NamedStep s s'

/-- The wallet changes hands by its recovery authority, and only so. -/
structure Controlled (s : Objects) : Prop where
  stored : ∃ r, s.findAuthority w = some r
  only : ∀ {t : SignedTransaction} {env : Env} {s1 s' u : Objects} {before after : List Operation}
    {o : WalletUpdateOperation}, env.skip = skipNothing → s.applyTransaction cr t env = .ok s' →
    KeepsSealed cr w t.operations → t.operations = before ++ .walletUpdate o :: after →
    o.wallet = w → s.recordTransaction cr t env = .ok s1 →
    s1.applyOperations cr env before = .ok u →
    ∃ keys r, cr.getSignatureKeys .fcCanonical t = .ok keys ∧ u.findAuthority w = some r ∧
      SatisfiedBy u keys r.2.recovery
  every : ∀ {S : FlatSet PublicKey} {r : Nat × AccountAuthorityObject},
    s.findAuthority w = some r → SatisfiedBy s S r.2.recovery →
    ∃ K : FlatSet PublicKey, (∀ k ∈ K, k ∈ S) ∧ ∀ t : SignedTransaction,
      (∀ op ∈ t.operations, ∃ o, op = .walletUpdate o ∧ o.wallet = w) →
      (∀ canon, cr.getSignatureKeys canon t = .ok K) → s.authorize cr t = .ok ()

end Sealed

section Run

variable {cr : Crypto} {w : WalletName} {s s' : Objects} {env : Env} {S : FlatSet PublicKey} {a : Authority}

theorem satisfiedBy_iff_of_no_wallets (h : a.walletAuths = .empty) :
    SatisfiedBy s S a ↔ a.weightThreshold ≤ a.policy.keyWeight (signedIn S) := by
  have hmembers : a.policy.members = [] := by simp [Authority.policy, h, FlatMap.empty]
  constructor
  · rintro ⟨counted, hsub, -, hweight⟩
    rw [hmembers] at hsub
    rw [sublist_nil.1 hsub] at hweight
    exact hweight
  · intro hweight
    exact ⟨[], nil_sublist _, by simp, hweight⟩

theorem Sealed.satisfiedBy_iff (h : Sealed cr w a) : SatisfiedBy s S a ↔ HoldsName cr w S :=
  (satisfiedBy_iff_of_no_wallets h.wallets).trans (h.keys S)

section Stores

variable {Q : Authority → Prop} {t : SignedTransaction}

section

variable (hs : Stores w Q s)
include hs

theorem Stores.of_authorities (h : s'.authorities = s.authorities) : Stores w Q s' := by
  obtain ⟨r, hr, hQ⟩ := hs
  refine ⟨r, ?_, hQ⟩
  rw [Objects.findAuthority, h]
  exact hr

theorem Stores.operation {op : Operation}
    (hnew : ∀ o a, op = .walletUpdate o → o.wallet = w → o.recovery = some a → Q a)
    (h : s.applyOperation cr env op = .ok s') : Stores w Q s' := by
  obtain ⟨r, hr, hQ⟩ := hs
  by_cases hrew : Objects.Rewrites op w
  · cases op <;> try exact hrew.elim
    next o =>
    obtain rfl : w = o.wallet := hrew
    obtain ⟨r', hr', hrecovery⟩ := applyWalletUpdate_stored h hr
    refine ⟨r', hr', ?_⟩
    rw [hrecovery]
    cases hset : o.recovery with
    | none => exact hQ
    | some a => exact hnew o a rfl rfl hset
  · exact ⟨r, (applyOperation_rows h).kept w r hrew hr, hQ⟩

theorem Stores.operations {ops : List Operation}
    (hnew : ∀ o a, walletUpdate o ∈ ops → o.wallet = w → o.recovery = some a → Q a)
    (h : s.applyOperations cr env ops = .ok s') : Stores w Q s' :=
  foldlM_ok_of_step h hs fun _ _ _ hop hu hstep =>
    hu.operation (fun o a heq => hnew o a (heq ▸ hop)) (plainError_ok_iff.1 hstep)

theorem Stores.record (h : s.recordTransaction cr t env = .ok s') : Stores w Q s' :=
  hs.of_authorities (congrArg Prod.snd (recordTransaction_frame h))

end

theorem stores_of_replaced {o : WalletUpdateOperation} {a : Authority} (hskip : env.skip = skipNothing)
    (h : s.applyTransaction cr t env = .ok s')
    (hguarded : ∀ o, walletUpdate o ∈ fromFirstCreate t.operations → o.wallet ≠ w)
    (hnew : ∀ o a, walletUpdate o ∈ t.operations → o.wallet = w → o.recovery = some a → Q a)
    (ho : walletUpdate o ∈ t.operations) (hw : o.wallet = w) (ha : o.recovery = some a) :
    Stores w Q s' := by
  obtain ⟨-, -, hauth, -, s1, hrecord, happly⟩ := applyTransaction_ok hskip h
  obtain ⟨before, after, hsplit⟩ := append_of_mem ho
  -- the guard found an authority, which is there when the operation is reached
  have howner := (checkOperations_owner (authorize_ok hauth).1 ho).resolve_right
    fun hlate => hguarded o hlate hw
  obtain ⟨r, hr, -⟩ := of_bind howner
  have hs : Stores w (fun _ => True) s := ⟨r, hw ▸ getRow_ok_iff.1 hr, trivial⟩
  rw [hsplit, Objects.applyOperations, foldlM_append] at happly
  obtain ⟨u, hbefore, happly⟩ := of_bind happly
  obtain ⟨u', hupdate, hafter⟩ := foldlM_cons_ok_iff.1 happly
  obtain ⟨r1, hr1, -⟩ := (hs.record hrecord).operations (fun _ _ _ _ _ => trivial) hbefore
  obtain ⟨r2, hr2, hrecovery⟩ :=
    applyWalletUpdate_stored (plainError_ok_iff.1 hupdate) (hw ▸ hr1)
  have hu' : Stores w Q u' := by
    refine ⟨r2, hw ▸ hr2, ?_⟩
    rw [hrecovery, ha]
    exact hnew o a ho hw ha
  refine hu'.operations (fun o' a' ho' => hnew o' a' ?_) hafter
  rw [hsplit]
  exact mem_append_right _ (.tail _ ho')

end Stores

theorem NamedStep.stores (h : NamedStep cr w s s') (hs : Stores w (Sealed cr w) s) :
    Stores w (Sealed cr w) s' := by
  cases h with
  | bookkeeping h => exact hs.of_authorities h
  | transaction hskip h hops =>
    obtain ⟨-, -, -, -, s1, hrecord, happly⟩ := applyTransaction_ok hskip h
    exact (hs.record hrecord).operations hops.stores happly

theorem authorize_of_named {t : SignedTransaction} {K : FlatSet PublicKey}
    {r : Nat × AccountAuthorityObject} (hr : s.findAuthority w = some r)
    (hname : getWalletName cr K.elems = w)
    (hops : ∀ op ∈ t.operations, ∃ o, op = .walletUpdate o ∧ o.wallet = w)
    (hkeys : ∀ canon, cr.getSignatureKeys canon t = .ok K) : s.authorize cr t = .ok () := by
  have howner (o : WalletUpdateOperation) (hw : o.wallet = w) : s.checkOwner cr t o = .ok () := by
    refine bind_ok (getRow_ok_iff.2 (hw ▸ hr)) (bind_ok (hkeys _) ?_)
    rw [ensure_ok_iff, hname, hw]
    simp
  have hcheck (ops : List Operation) (h : ∀ op ∈ ops, ∃ o, op = .walletUpdate o ∧ o.wallet = w) :
      s.checkOperations cr t ops = .ok () ∧ requiredAuthorities ops = {} := by
    induction ops with
    | nil => exact ⟨rfl, rfl⟩
    | cons op ops ih =>
      obtain ⟨⟨o, rfl, hw⟩, hrest⟩ := forall_mem_cons.1 h
      refine ⟨bind_ok (howner o hw) (ih hrest).1, (ih hrest).2⟩
  obtain ⟨hchecked, hrequired⟩ := hcheck _ hops
  have hverify : s.verifyTransaction cr t = .ok () := by
    refine bind_ok (hkeys _) ?_
    rw [verifyAuthority, hrequired]
    rfl
  have hboth : (s.checkOperations cr t t.operations >>= fun _ => s.verifyTransaction cr t) = .ok () :=
    bind_ok hchecked hverify
  rw [Objects.authorize, hboth]

theorem Stores.controlled (hs : Stores w (Sealed cr w) s) : Controlled cr w s where
  stored := hs.imp fun _ h => h.1
  only {t env s1 s' u before after o} hskip h hops hsplit hw hrecord hbefore := by
    obtain ⟨-, -, hauth, -⟩ := applyTransaction_ok hskip h
    have ho : walletUpdate o ∈ t.operations := by simp [hsplit]
    obtain ⟨keys, hkeys, hname⟩ := (checkOperations_owns (authorize_ok hauth).1
      ho).resolve_right fun hlate => hops.guarded o hlate hw
    obtain ⟨r, hr, hsealed⟩ := (hs.record hrecord).operations
      (fun o' a ho' => hops.stores o' a (by simp [hsplit, ho'])) hbefore
    exact ⟨keys, r, hkeys, hr, hsealed.satisfiedBy_iff.2 ⟨keys, fun _ hk => hk, hname ▸ hw⟩⟩
  every {S r} hr hsat := by
    obtain ⟨r', hr', hsealed⟩ := hs
    obtain rfl : r = r' := Option.some.inj (hr.symm.trans hr')
    obtain ⟨K, hsub, hname⟩ := hsealed.satisfiedBy_iff.1 hsat
    exact ⟨K, hsub, fun t hops hkeys => authorize_of_named hr hname hops hkeys⟩

theorem namedRun_controlled (cr : Crypto) (w : WalletName) {s0 s1 s : Objects} {env : Env}
    {t : SignedTransaction} {o : WalletUpdateOperation} {a : Authority} (hskip : env.skip = skipNothing)
    (h : s0.applyTransaction cr t env = .ok s1) (hops : KeepsSealed cr w t.operations)
    (ho : walletUpdate o ∈ t.operations) (hw : o.wallet = w) (ha : o.recovery = some a)
    (hrun : ReflTransGen (NamedStep cr w) s1 s) : Controlled cr w s := by
  have hstores : Stores w (Sealed cr w) s := by
    induction hrun with
    | refl => exact stores_of_replaced hskip h hops.guarded hops.stores ho hw ha
    | tail _ hstep ih => exact hstep.stores ih
  exact hstores.controlled

end Run

/-! ## Two runs, computed -/

def toyReplace (wallet : WalletName) (recoveryKey : Nat) : WalletUpdateOperation where
  wallet := wallet
  recovery := some (.ofKey 1 ⟨recoveryKey⟩ 1)
  money := none
  social := none
  memoKey := none
  jsonMetadata := ""
  socialJsonMetadata := ""

theorem sealed_oneKey :
    Sealed oneNameCrypto (getWalletName oneNameCrypto oneKey.elems) (.ofKey 1 ⟨5⟩ 1) := by
  refine ⟨rfl, fun S => ?_⟩
  have hweight : 1 ≤ (Authority.ofKey 1 ⟨5⟩ 1).policy.keyWeight (signedIn S) ↔ ⟨5⟩ ∈ S := by
    have hkeys : (Authority.ofKey 1 ⟨5⟩ 1).policy.keys = [(⟨5⟩, 1)] := rfl
    rw [Policy.keyWeight, hkeys]
    by_cases hmem : (⟨5⟩ : PublicKey) ∈ S <;> simp [signedIn, hmem]
  refine hweight.trans ⟨fun hmem => ⟨oneKey, fun k hk => ?_, rfl⟩, ?_⟩
  · rwa [mem_singleton.1 (FlatSet.mem_def.1 hk)]
  · rintro ⟨K, hsub, hname⟩
    refine hsub ⟨5⟩ (FlatSet.mem_def.2 ?_)
    rw [oneNameCrypto_injective K.elems hname]
    exact mem_singleton_self _

theorem toyReplace_controlled :
    ∃ (s0 s1 s : Objects) (t : SignedTransaction),
      s0.applyTransaction oneNameCrypto t toyEnv = .ok s1 ∧
      walletUpdate (toyReplace (getWalletName oneNameCrypto oneKey.elems) 5) ∈ t.operations ∧
      NamedStep oneNameCrypto (getWalletName oneNameCrypto oneKey.elems) s1 s ∧
      Controlled oneNameCrypto (getWalletName oneNameCrypto oneKey.elems) s := by
  let name := getWalletName oneNameCrypto oneKey.elems
  let create := toyTransaction 0 [.walletCreate (toyCreate 5 5)] []
  let replace := toyTransaction 1 [.walletUpdate (toyReplace name 5)] [5]
  let update := toyTransaction 2 [.walletUpdate (toyUpdate name 6)] [5]
  have hrun : (((genesis ⟨1⟩).applyTransaction oneNameCrypto create toyEnv >>= fun s =>
      s.applyTransaction oneNameCrypto replace toyEnv) >>= fun s =>
      s.applyTransaction oneNameCrypto update toyEnv).toOption.any
        (fun _ => true) = true := by decide +kernel
  obtain ⟨s, hrun, -⟩ := exists_ok_of_any hrun
  obtain ⟨s1, hrun, hupdate⟩ := of_bind hrun
  obtain ⟨s0, -, hreplace⟩ := of_bind hrun
  have hkeeps : KeepsSealed oneNameCrypto name replace.operations := by
    refine ⟨by simp [replace, toyTransaction, fromFirstCreate, isWalletCreate], ?_⟩
    intro o a ho _ ha
    cases mem_singleton.1 ho
    cases ha
    exact sealed_oneKey
  have hstep : NamedStep oneNameCrypto name s1 s := by
    refine .transaction rfl hupdate ⟨?_, fun o a ho _ ha => ?_⟩
    · simp [update, toyTransaction, fromFirstCreate, isWalletCreate]
    · cases mem_singleton.1 ho
      cases ha
  exact ⟨s0, s1, s, replace, hreplace, mem_singleton_self _, hstep, namedRun_controlled
    oneNameCrypto name rfl hreplace hkeeps (mem_singleton_self _) rfl rfl (.single hstep)⟩

theorem toyReplace_ignored :
    let name := getWalletName oneNameCrypto oneKey.elems
    let other : FlatSet PublicKey := FlatSet.empty.insert ⟨6⟩
    let update := fun key => toyTransaction 2 [.walletUpdate (toyUpdate name 7)] [key]
    ∃ (s : Objects) (r : Nat × AccountAuthorityObject),
      ((genesis ⟨1⟩).applyTransaction oneNameCrypto (toyTransaction 0
          [.walletCreate (toyCreate 5 5)] []) toyEnv >>= fun s =>
        s.applyTransaction oneNameCrypto (toyTransaction 1
          [.walletUpdate (toyReplace name 6)] [5]) toyEnv) = .ok s ∧
      s.findAuthority name = some r ∧
      ¬SatisfiedBy s oneKey r.2.recovery ∧ SatisfiedBy s other r.2.recovery ∧
      (s.applyTransaction oneNameCrypto (update 5) toyEnv).isOk = true ∧
      (s.applyTransaction oneNameCrypto (update 6) toyEnv).isOk = false := by
  intro name other update
  have hrun : ((genesis ⟨1⟩).applyTransaction oneNameCrypto (toyTransaction 0
        [.walletCreate (toyCreate 5 5)] []) toyEnv >>= fun s =>
      s.applyTransaction oneNameCrypto (toyTransaction 1
        [.walletUpdate (toyReplace name 6)] [5]) toyEnv).toOption.any (fun s =>
      (s.findAuthority name).any (fun r => r.2.recovery = .ofKey 1 ⟨6⟩ 1) &&
      ((s.applyTransaction oneNameCrypto (update 5) toyEnv).isOk &&
        !(s.applyTransaction oneNameCrypto (update 6) toyEnv).isOk)) = true := by
    decide +kernel
  obtain ⟨s, hs, hall⟩ := exists_ok_of_any hrun
  obtain ⟨hstored, hupdates⟩ := Bool.and_eq_true_iff.1 hall
  obtain ⟨r, hr, hkey⟩ := (Option.any_eq_true _ _).1 hstored
  have hrecovery : r.2.recovery = .ofKey 1 ⟨6⟩ 1 := of_decide_eq_true hkey
  have hsat (S : FlatSet PublicKey) : SatisfiedBy s S r.2.recovery ↔
      1 ≤ (Authority.ofKey 1 ⟨6⟩ 1).policy.keyWeight (signedIn S) := by
    rw [hrecovery]
    exact satisfiedBy_iff_of_no_wallets rfl
  refine ⟨s, r, hs, hr, ?_, ?_, by simpa using hupdates⟩
  · rw [hsat]
    decide
  · rw [hsat]
    decide

end Xgt
