import XgtChain.Base.Run
import XgtChain.Chain.WalletParts

/-!
# The wallet by key plugin

The plugin keeps a table of the keys in the authorities of wallets.
-/

namespace Xgt

open Base Objects FlatSet List

variable (a : AccountAuthorityObject)

def AccountAuthorityObject.addKeys (keys : FlatSet PublicKey) : FlatSet PublicKey :=
  ((keys.insertAll a.recovery.getKeys).insertAll a.money.getKeys).insertAll a.social.getKeys

def AccountAuthorityObject.keys : FlatSet PublicKey := a.addKeys .empty

structure WalletByKey where
  cachedKeys : FlatSet PublicKey := .empty
  lookups : FlatMap PublicKey WalletName := .empty

namespace WalletByKey

variable (p : WalletByKey) (cr : Crypto)

def cacheAuths (s : Objects) (name : WalletName) : WalletByKey :=
  match s.findAuthority name with
  | some r => { p with cachedKeys := r.2.addKeys p.cachedKeys }
  | none => p

def clearCache : WalletByKey := { p with cachedKeys := .empty }

def onPreApplyOperation (s : Objects) : Operation → WalletByKey
  | .walletCreate _ => p.clearCache
  | .walletUpdate o => p.clearCache.cacheAuths s o.wallet
  | .recoverWallet o => p.clearCache.cacheAuths s o.accountToRecover
  | .pow _ => p.clearCache
  | _ => p

def enterKey (account : WalletName) (p : WalletByKey) (key : PublicKey) : WalletByKey :=
  if key ∈ p.cachedKeys then { p with cachedKeys := p.cachedKeys.erase key }
  else { p with lookups := p.lookups.emplace key account }

def updateKeyLookup (a : AccountAuthorityObject) : WalletByKey :=
  let p := a.keys.elems.foldl (enterKey a.account) p
  { cachedKeys := .empty, lookups := p.cachedKeys.elems.foldl FlatMap.erase p.lookups }

def recorded : Operation → Option WalletName
  | .walletCreate o => some (o.getWalletName cr)
  | .walletUpdate o => some o.wallet
  | .recoverWallet o => some o.accountToRecover
  | .pow o => some o.getWorkerName
  | _ => none

def onPostApplyOperation (s : Objects) (op : Operation) : WalletByKey :=
  match (recorded cr op).bind s.findAuthority with
  | some r => p.updateKeyLookup r.2
  | none => p

variable {p} {key : PublicKey} {account : WalletName}

theorem enterKeys {l : List PublicKey} (hl : l.Nodup) :
    (key ∈ (l.foldl (enterKey account) p).cachedKeys ↔ key ∈ p.cachedKeys ∧ key ∉ l) ∧
      (l.foldl (enterKey account) p).lookups.find? key = if key ∈ l ∧ key ∉ p.cachedKeys then
        some ((p.lookups.find? key).getD account) else p.lookups.find? key := by
  induction l generalizing p with
  | nil => simp
  | cons k l ih =>
    obtain ⟨hk, hl⟩ := nodup_cons.1 hl
    rw [foldl_cons]
    obtain ⟨hcached, hfind⟩ := @ih (enterKey account p k) hl
    rw [hcached, hfind]
    by_cases hkey : key = k
    · subst hkey
      by_cases hold : key ∈ p.cachedKeys <;> simp [enterKey, hold, hk, FlatMap.find?_emplace]
    · by_cases hold : k ∈ p.cachedKeys <;> simp [enterKey, hold, hkey, FlatMap.find?_emplace]

theorem find?_updateKeyLookup {a : AccountAuthorityObject} : (p.updateKeyLookup a).lookups.find? key =
    if key ∈ a.keys then if key ∈ p.cachedKeys then p.lookups.find? key else some
      ((p.lookups.find? key).getD a.account)
    else if key ∈ p.cachedKeys then none else p.lookups.find? key := by
  obtain ⟨hcached, hfind⟩ := @enterKeys p key a.account _ a.keys.nodup_elems
  rw [updateKeyLookup, FlatMap.find?_foldl_erase, hfind]
  rw [mem_def] at hcached
  simp only [hcached, mem_def (s := a.keys)]
  split_ifs <;> simp_all

/-! ## Runs -/

def keysOf (s : Objects) (name : WalletName) : FlatSet PublicKey :=
  match s.findAuthority name with
  | some r => r.2.keys
  | none => .empty

inductive Event where
  | operation (op : Operation) (s : Objects)
  | other (s : Objects)

/-- An operation with the plugin's hooks, or a step outside. -/
inductive Step (cr : Crypto) : Objects × WalletByKey → Event → Objects × WalletByKey → Prop where
  | operation {s s' : Objects} {p : WalletByKey} {env : Env} {op : Operation}
      (h : s.applyOperation cr env op = .ok s') :
      Step cr (s, p) (.operation op s') (s', (p.onPreApplyOperation s op).onPostApplyOperation cr s' op)
  | other {s s' : Objects} {p : WalletByKey} (h : Does Call.Outside s s') : Step cr (s, p) (.other s') (s', p)

/-- A key leads to a wallet exactly when it is one of its keys. -/
def Exact (t : Objects × WalletByKey) : Prop := ∀ name ∈ t.1.walletNames, name ∉ genesisWallets →
  ∀ key, t.2.lookups.find? key = some name ↔ key ∈ keysOf t.1 name

/-- The plugin records a wallet the operation creates, and takes no other's key. -/
def Fits : (Objects × WalletByKey) × Event → Prop
  | (_, .other _) => True
  | ((s, p), .operation op s') => match recorded cr op with
    | none => op.creates cr s = none
    | some name =>
      if name ∈ genesisWallets then ∀ key ∈ keysOf s name, key ∉ keysOf s' name →
        ∀ other ∈ p.lookups.find? key, other ∈ genesisWallets
      else ∀ key ∈ keysOf s' name, key ∉ keysOf s name → p.lookups.find? key = none

structure Good (t : Objects × WalletByKey) : Prop where
  bare : t.1.Bare
  exact : ∀ name ∉ genesisWallets, ∀ key, t.2.lookups.find? key = some name ↔ key ∈ keysOf t.1 name

section Keys

variable {cr} {env : Env} {op : Operation} {s s' : Objects} {name : WalletName}

theorem findAuthority_eq_none : s.findAuthority name = none ↔ name ∉ s.authorityNames := by
  simp only [findAuthority, ObjectIndex.find?_eq_none, decide_eq_false_iff_not, authorityNames,
    mem_map, not_exists,
    not_and]

theorem of_findAuthority {r : Nat × AccountAuthorityObject} (h : s.findAuthority name = some r) :
    r.2 ∈ s.authorities.objects ∧ r.2.account = name := by
  obtain ⟨hrow, haccount⟩ := of_getAuthority (getRow_ok_iff.2 h)
  exact ⟨mem_map_of_mem hrow, haccount⟩

theorem not_mem_keysOf (h : name ∉ s.authorityNames) (key : PublicKey) : key ∉ keysOf s name := by
  rw [keysOf, findAuthority_eq_none.2 h]
  exact not_mem_empty key

theorem keysOf_eq (h : s.applyOperation cr env op = .ok s') (hupdate : ¬ Rewrites op name)
    (hcreates : op.creates cr s ≠ some name) : keysOf s' name = keysOf s name := by
  have hfind : s'.findAuthority name = s.findAuthority name := by
    cases hs : s.findAuthority name with
    | some r => exact (applyOperation_rows h).kept name r hupdate hs
    | none =>
      rw [findAuthority_eq_none] at hs ⊢
      rw [(applyOperation_names h).authorities, mem_append, Option.mem_toList]
      exact fun hmem => hmem.elim hs hcreates
  rw [keysOf, hfind, keysOf]

theorem recorded_of_creates (hcreates : op.creates cr s = some name) :
    recorded cr op = some name ∨ recorded cr op = none ∧ ∃ o, op = .transfer o ∧ o.toWallet = name := by
  cases op with
  | walletCreate o => exact .inl hcreates
  | walletUpdate o | pow o =>
    simp only [Operation.creates, Option.ite_none_left_eq_some] at hcreates
    exact .inl hcreates.2
  | transfer o =>
    simp only [Operation.creates, Option.ite_none_left_eq_some, Option.some.injEq] at hcreates
    exact .inr ⟨rfl, o, rfl, hcreates.2⟩
  | _ => cases hcreates

theorem recorded_of_rewrites (hupdate : Rewrites op name) : recorded cr op = some name := by
  cases op with
  | walletUpdate o => exact congrArg some hupdate.symm
  | _ => exact hupdate.elim

end Keys

section Step

variable {cr} {env : Env} {op : Operation} {s s' : Objects} {name : WalletName} {p : WalletByKey}

theorem cached_keys (hbare : s.Bare) (h : s.applyOperation cr env op = .ok s')
    (hname : recorded cr op = some name) :
    (∀ key, key ∈ (p.onPreApplyOperation s op).cachedKeys ↔ key ∈ keysOf s name) ∨
      (p.onPreApplyOperation s op).cachedKeys = .empty ∧ keysOf s' name = keysOf s name := by
  have hnew (hcreates : op.creates cr s = some name) (key : PublicKey) : key ∈ FlatSet.empty ↔
    key ∈ keysOf s name :=
    iff_of_false (not_mem_empty key)
      (not_mem_keysOf (fun hmem => creates_new h hcreates (hbare.authorities.owned name hmem)) key)
  cases op with
  | walletCreate o =>
    cases hname
    exact .inl (hnew rfl)
  | walletUpdate o =>
    cases hname
    refine .inl fun key => ?_
    rw [onPreApplyOperation, cacheAuths, keysOf]
    split <;> rfl
  | pow o =>
    by_cases hcreates : (Operation.pow o).creates cr s = some name
    · exact .inl (hnew hcreates)
    · exact .inr ⟨rfl, keysOf_eq h id hcreates⟩
  | recoverWallet o => cases h
  | _ => cases hname

theorem lookups_onPre (p : WalletByKey) (s : Objects) (op : Operation) :
    (p.onPreApplyOperation s op).lookups = p.lookups := by
  cases op with
  | walletUpdate | recoverWallet =>
    rw [onPreApplyOperation, cacheAuths]
    split <;> rfl
  | _ => rfl

theorem find?_onPost {key : PublicKey} (hbare : s.Bare) (h : s.applyOperation cr env op = .ok s')
    (hname : recorded cr op = some name) :
    ((p.onPreApplyOperation s op).onPostApplyOperation cr s' op).lookups.find? key =
      if key ∈ keysOf s' name then
        if key ∈ (p.onPreApplyOperation s op).cachedKeys then p.lookups.find? key
        else some ((p.lookups.find? key).getD name)
      else if key ∈ (p.onPreApplyOperation s op).cachedKeys then none else p.lookups.find? key := by
  rw [onPostApplyOperation, hname, Option.bind_some, keysOf]
  cases hs' : s'.findAuthority name with
  | some r =>
    dsimp only
    rw [find?_updateKeyLookup, lookups_onPre, (of_findAuthority hs').2]
  | none =>
    have hgone : name ∉ s.authorityNames := fun hmem => findAuthority_eq_none.1 hs' (by
      rw [(applyOperation_names h).authorities]
      exact mem_append_left _ hmem)
    have hcached : key ∉ (p.onPreApplyOperation s op).cachedKeys := by
      rcases @cached_keys cr env op s s' name p hbare h hname with hsame | ⟨hempty, -⟩
      · rw [hsame]
        exact not_mem_keysOf hgone key
      · rw [hempty]
        exact not_mem_empty key
    rw [if_neg (not_mem_empty key), if_neg hcached, lookups_onPre]

section

variable (hgood : Good (s, p)) (h : s.applyOperation cr env op = .ok s')
include hgood h

theorem Good.of_unrecorded (hnone : recorded cr op = none) :
    (op.creates cr s = none → Good (s', p)) ∧ (Exact (s', p) → op.creates cr s = none) := by
  refine ⟨fun hcreates => ⟨hgood.bare.step h, fun name hname key => ?_⟩, fun hexact => ?_⟩
  · have hupdate : ¬ Rewrites op name := fun hupdate => by
      rw [@recorded_of_rewrites cr op name hupdate] at hnone
      cases hnone
    dsimp only
    rw [keysOf_eq h hupdate (by rw [hcreates]; exact nofun)]
    exact hgood.exact name hname key
  · cases hcreates : op.creates cr s with
    | none => rfl
    | some name =>
      -- the keys of the new wallet were drawn, and nobody entered them
      obtain ⟨o, rfl, rfl⟩ : ∃ o, op = .transfer o ∧ o.toWallet = name := by
        rcases recorded_of_creates hcreates with hname | ⟨-, ho⟩
        · cases hname.symm.trans hnone
        · exact ho
      have hfresh := creates_new h hcreates
      have hold : o.toWallet ∉ s.authorityNames := fun hmem => hfresh (hgood.bare.authorities.owned _ hmem)
      have hgrow := applyOperation_names h
      rw [hcreates] at hgrow
      have hauth : o.toWallet ∈ s'.authorityNames := by
        rw [hgrow.authorities]
        exact mem_concat_self
      cases hs' : s'.findAuthority o.toWallet with
      | none => exact absurd hauth (findAuthority_eq_none.1 hs')
      | some r =>
        obtain ⟨hmem, haccount⟩ := of_findAuthority hs'
        obtain ⟨-, id, hmoney, -⟩ := ((applyOperation_rows h).rows r.2 hmem).resolve_left fun hmem =>
          hold (haccount ▸ mem_map_of_mem hmem)
        have hkey : (env.random id).money ∈ keysOf s' o.toWallet := by
          rw [keysOf, hs']
          dsimp only
          rw [AccountAuthorityObject.keys, AccountAuthorityObject.addKeys, mem_insertAll, mem_insertAll, hmoney]
          exact .inl (.inr (.head _))
        have hgenesis : o.toWallet ∉ genesisWallets := fun hmem => hfresh (hgood.bare.genesis _ hmem)
        have hentry := (hexact o.toWallet (by
          rw [hgrow.wallets]
          exact mem_concat_self) hgenesis _).2 hkey
        exact absurd ((hgood.exact _ hgenesis _).1 hentry) (not_mem_keysOf hold _)

theorem Good.of_recorded (hname : recorded cr op = some name) :
    (Fits cr ((s, p), .operation op s') → Good
      (s', (p.onPreApplyOperation s op).onPostApplyOperation cr s' op)) ∧
      (Exact (s', (p.onPreApplyOperation s op).onPostApplyOperation cr s' op) →
        Fits cr ((s, p), .operation op s')) := by
  have hcached := @cached_keys cr env op s s' name p hgood.bare h hname
  have hfind (key : PublicKey) := @find?_onPost cr env op s s' name p key hgood.bare h hname
  have hother (other : WalletName) (hne : other ≠ name) : keysOf s' other = keysOf s other := by
    refine keysOf_eq h (fun hupdate => hne ?_) fun hcreates => hne ?_
    · exact Option.some.inj ((recorded_of_rewrites hupdate).symm.trans hname)
    · rcases recorded_of_creates hcreates with hrec | ⟨hrec, -⟩
      · exact Option.some.inj (hrec.symm.trans hname)
      · cases hrec.symm.trans hname
  have hexists {other : WalletName} {key : PublicKey} (hkey : key ∈ keysOf s' other) : other ∈
    s'.walletNames := by
    by_contra hmissing
    exact not_mem_keysOf (fun hmem => hmissing ((hgood.bare.step h).authorities.owned other hmem)) key hkey
  rw [Fits, hname]
  dsimp only
  generalize (p.onPreApplyOperation s op).onPostApplyOperation cr s' op = p' at hfind ⊢
  generalize (p.onPreApplyOperation s op).cachedKeys = C at hcached hfind
  have hkept {key : PublicKey} (hC : key ∈ C) : key ∈ keysOf s name := by
    rcases hcached with hsame | ⟨hempty, -⟩
    · exact (hsame key).1 hC
    · rw [hempty] at hC
      exact absurd hC (not_mem_empty key)
  refine ⟨fun hfits => ⟨hgood.bare.step h, fun other hnew key => ?_⟩, fun hexact => ?_⟩
  · have hold : p.lookups.find? key = some other ↔ key ∈ keysOf s other := hgood.exact other hnew key
    dsimp only
    by_cases heq : other = name
    · subst heq
      rw [if_neg hnew] at hfits
      rw [hfind]
      by_cases hkey : key ∈ keysOf s' other
      · rw [if_pos hkey, iff_true_right hkey]
        split_ifs with hC
        · exact hold.2 (hkept hC)
        · by_cases hbefore : key ∈ keysOf s other
          · rw [hold.2 hbefore]
            rfl
          · rw [hfits key hkey hbefore]
            rfl
      · rw [if_neg hkey, iff_false_right hkey]
        split_ifs with hC
        · exact nofun
        · intro hentry
          rcases hcached with hsame | ⟨-, hsame⟩
          · exact hC ((hsame key).2 (hold.1 hentry))
          · exact hkey (hsame ▸ hold.1 hentry)
    · rw [hother other heq, ← hold, hfind]
      split_ifs with hkey hC hC
      · rfl
      · cases p.lookups.find? key with
        | none => exact iff_of_false (fun h => heq (Option.some.inj h).symm) nofun
        | some => rfl
      · refine iff_of_false nofun fun hentry => ?_
        split_ifs at hfits with hgenesis
        · exact hnew (hfits key (hkept hC) hkey other hentry)
        · exact heq (Option.some.inj (hentry.symm.trans ((hgood.exact name hgenesis key).2 (hkept hC))))
      · rfl
  · split_ifs with hgenesis
    · intro key hbefore hkey other hentry
      by_contra hnew
      have hholds := (hgood.exact other hnew key).1 hentry
      dsimp only at hholds
      rw [← hother other fun heq => hnew (heq ▸ hgenesis)] at hholds
      have hentry' := (hexact other (hexists hholds) hnew key).2 hholds
      rw [hfind, if_neg hkey] at hentry'
      rcases hcached with hsame | ⟨-, hsame⟩
      · rw [if_pos ((hsame key).2 hbefore)] at hentry'
        cases hentry'
      · exact hkey (hsame ▸ hbefore)
    · intro key hkey hbefore
      have hentry := (hexact name (hexists hkey) hgenesis key).2 hkey
      rw [hfind, if_pos hkey, if_neg fun hC => hbefore (hkept hC)] at hentry
      cases hlookup : p.lookups.find? key with
      | none => rfl
      | some other =>
        rw [hlookup] at hentry
        exact absurd ((hgood.exact name hgenesis key).1 (hlookup.trans hentry)) hbefore

end

theorem Good.step {t t' : Objects × WalletByKey} {e : Event} (hgood : Good t) (h : Step cr t e t') :
    (Fits cr (t, e) → Good t') ∧ (Exact t' → Fits cr (t, e)) := by
  cases h with
  | @operation s s' p env op h =>
    cases hname : recorded cr op with
    | some name => exact hgood.of_recorded h hname
    | none =>
      have hpre : p.onPreApplyOperation s op = p := by
        cases op <;> first | rfl | cases hname
      rw [hpre, onPostApplyOperation, hname, Fits, hname]
      exact hgood.of_unrecorded h hname
  | @other s s' p h =>
    refine ⟨fun _ => ⟨hgood.bare.other h, fun name hname key => ?_⟩, fun _ => trivial⟩
    have hkeys : keysOf s' name = keysOf s name := by
      rw [keysOf, findAuthority, h.wallets_of_outside.2.1]
      rfl
    dsimp only
    rw [hkeys]
    exact hgood.exact name hname key

end Step

theorem good_genesis (key : PublicKey) : Good (genesis key, {}) := by
  refine ⟨bare_genesis key, fun name hname key' =>
    iff_of_false nofun (not_mem_keysOf (fun hmem => hname ?_) key')⟩
  exact (bare_genesis key).authorities.owned name hmem

theorem lookups_exact_iff {cr : Crypto} {key : PublicKey} {events : List ((Objects × WalletByKey) × Event)}
    {t : Objects × WalletByKey} (h : Run (Step cr) (genesis key, {}) events t) :
    (∀ event ∈ events, Exact event.1) ∧ Exact t ↔ ∀ event ∈ events, Fits cr event :=
  h.invariant_iff (good_genesis key) (fun hgood name _ hnew => hgood.exact name hnew)
    fun hgood hstep => hgood.step hstep

theorem lookups_exact_create : ∃ events t, Run (Step toyParams.toCrypto) (genesis ⟨1⟩, {}) events t ∧
    events.length = 1 ∧ t.1.walletNames.length = 6 ∧ (∀ event ∈ events, Exact event.1) ∧ Exact t := by
  let op : Operation := .walletCreate (toyCreate 5 6)
  obtain ⟨s, hs, hlength⟩ := exists_ok_of_any
    (x := (genesis ⟨1⟩).applyOperation toyParams.toCrypto toyEnv op)
    (p := fun s => s.walletNames.length = 6) (by decide +kernel)
  have hrun : Run (Step toyParams.toCrypto) (genesis ⟨1⟩, {}) [((genesis ⟨1⟩, {}), .operation op s)] _ :=
    Run.snoc .nil (.operation hs)
  refine ⟨_, _, hrun, rfl, of_decide_eq_true hlength, (lookups_exact_iff hrun).2 fun event hevent => ?_⟩
  rw [mem_singleton.1 hevent]
  have hname : (toyCreate 5 6).getWalletName toyParams.toCrypto ∉ genesisWallets := by decide +kernel
  rw [Fits, show recorded toyParams.toCrypto op = some _ from rfl]
  dsimp only
  rw [if_neg hname]
  exact fun _ _ _ => rfl

theorem shared_key_lookup : ∃ (events : List ((Objects × WalletByKey) × Event)) (t : Objects × WalletByKey)
    (name other : WalletName) (key : PublicKey), Run (Step toyParams.toCrypto) (genesis ⟨1⟩, {}) events t ∧
      other ∈ t.1.walletNames ∧ other ∉ genesisWallets ∧ key ∈ keysOf t.1 other ∧ name ≠ other ∧
      t.2.lookups.find? key = some name := by
  let op : Operation := .walletCreate (toyCreate 5 6)
  let op' : Operation := .walletCreate (toyCreate 7 6)
  let name := getWalletName toyParams.toCrypto [⟨5⟩]
  let other := getWalletName toyParams.toCrypto [⟨7⟩]
  obtain ⟨s, hs, hcheck⟩ := exists_ok_of_any
    (x := (genesis ⟨1⟩).applyOperation toyParams.toCrypto toyEnv op)
    (p := fun s => (s.applyOperation toyParams.toCrypto toyEnv op').toOption.any fun s' =>
      let p : WalletByKey := onPostApplyOperation
        (onPreApplyOperation {} (genesis ⟨1⟩) op) toyParams.toCrypto s op
      let p' : WalletByKey := onPostApplyOperation (onPreApplyOperation p s op') toyParams.toCrypto s' op'
      decide (other ∈ s'.walletNames ∧ other ∉ genesisWallets ∧ ⟨6⟩ ∈ keysOf s' other ∧ name ≠ other ∧
        p'.lookups.find? ⟨6⟩ = some name)) (by decide +kernel)
  obtain ⟨s', hs', hcheck⟩ := exists_ok_of_any hcheck
  exact ⟨_, _, name, other, ⟨6⟩, Run.snoc (Run.snoc .nil (.operation hs)) (.operation hs'),
    of_decide_eq_true hcheck⟩

end WalletByKey

end Xgt
