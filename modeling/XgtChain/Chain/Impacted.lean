import XgtChain.Chain.OperationRuns

/-!
# The wallets that an operation impacts

The history of a wallet has the operations that impact it.
-/

namespace Xgt

open Base ObjectIndex Option AccountAuthorityObject

def Operation.getImpactedAccounts (cr : Crypto) (op : Operation)
    (result : FlatSet WalletName) : FlatSet WalletName :=
  match op with
  | .walletCreate o => result.insertAll [o.getWalletName cr, o.creator]
  | .comment o => result.insertAll (if o.parentAuthor = "" then [o.author] else [o.author, o.parentAuthor])
  | .transfer o => result.insertAll [o.fromWallet, o.toWallet]
  | .escrowTransfer o | .escrowApprove o | .escrowDispute o | .escrowRelease o =>
    result.insertAll [o.fromWallet, o.toWallet, o.agent]
  | .pow o => result.insertAll [o.getWorkerName]
  | .requestWalletRecovery o => result.insertAll [o.accountToRecover, o.recoveryAccount]
  | .recoverWallet o | .changeRecoveryWallet o => result.insertAll [o.accountToRecover]
  | .shutdownWitness recovery => result.insertAll [recovery]
  | .hardfork _ => result.insertAll [xgtInitMinerName]
  | _ =>
    let required := op.getRequiredAuthorities {}
    ((result.insertAll required.social.elems).insertAll required.money.elems).insertAll required.recovery.elems

theorem Operation.mem_getImpactedAccounts {cr : Crypto} {op : Operation} {name : WalletName}
    (hupdate : ∀ o, op ≠ .walletUpdate o)
    (hrelease : ∀ o, op = .escrowRelease o → o.receiver ∈ [o.fromWallet, o.toWallet, o.agent])
    (h : name ∈ op.written cr) (hnull : name ≠ xgtNullWallet) : name ∈ op.getImpactedAccounts cr .empty := by
  cases op with
  | walletUpdate o => exact absurd rfl (hupdate o)
  | escrowRelease o =>
    rw [List.mem_singleton.1 h]
    exact FlatSet.mem_insertAll.2 (.inr (hrelease o rfl))
  | comment o =>
    rw [List.mem_singleton.1 h]
    unfold getImpactedAccounts
    dsimp only
    by_cases hroot : o.parentAuthor = "" <;> simp [hroot]
  | xttCreate o =>
    rcases List.mem_cons.1 h with rfl | h
    · rw [show (xttCreate o).getImpactedAccounts cr .empty = FlatSet.empty.insert o.controlAccount from rfl]
      simp
    · exact absurd (List.mem_singleton.1 h) hnull
  | xttContribute o =>
    rw [List.mem_singleton.1 h,
      show (xttContribute o).getImpactedAccounts cr .empty = FlatSet.empty.insert o.contributor from rfl]
    simp
  | walletCreate | transfer | escrowTransfer | escrowApprove | pow =>
    unfold written at h
    unfold getImpactedAccounts
    simp only [FlatSet.mem_insertAll, List.mem_cons, List.not_mem_nil, or_false] at h ⊢
    clear hnull hupdate hrelease
    tauto
  | _ => cases h

structure WalletRows where
  wallets : List (Nat × WalletObject)
  authorities : List (Nat × AccountAuthorityObject)
  balances : List (Nat × AccountRegularBalanceObject)

/-- The update has no recovery authority, and its memo key, its authorities and the time are those
that the wallet has already. -/
def WalletUpdateOperation.Repeats (o : WalletUpdateOperation) (s : Objects) : Prop :=
  ∃ w a, s.findAccount o.wallet = some w ∧ s.findAuthority o.wallet = some a ∧ o.recovery = none ∧
    (∀ k ∈ o.memoKey, k = ⟨0⟩ ∨ k = w.2.memoKey) ∧ w.2.lastAccountUpdate = s.headBlockTime ∧
    (∀ m ∈ o.money, m = a.2.money) ∧ ∀ m ∈ o.social, m = a.2.social

namespace Objects

variable {s s' s'' : Objects} {cr : Crypto} {env : Env} {name : WalletName} {names : List WalletName}

def rowsOf (s : Objects) (name : WalletName) : WalletRows where
  wallets := s.wallets.rowsWhere fun w => w.name = name
  authorities := s.authorities.rowsWhere fun a => a.account = name
  balances := s.balances.rowsWhere fun b => b.name = name

def Keeps (names : List WalletName) (s s' : Objects) : Prop := ∀ name ∉ names, s'.rowsOf name = s.rowsOf name

namespace Keeps

theorem refl : Keeps names s s := fun _ _ => rfl

theorem trans (h : Keeps names s s') (h' : Keeps names s' s'') : Keeps names s s'' :=
  fun name hname => (h' name hname).trans (h name hname)

theorem of_eq (hwallets : s'.wallets = s.wallets) (hauths : s'.authorities = s.authorities)
    (hbalances : s'.balances = s.balances) : Keeps names s s' := by
  intro name _
  rw [rowsOf, hwallets, hauths, hbalances]
  rfl

end Keeps

theorem createWallet_keeps {memo : PublicKey} {auth : AccountAuthorityObject} (hname : name ∈ names)
    (hauth : auth.account = name) (h : s.createWallet name memo auth = .ok s') : Keeps names s s' := by
  obtain ⟨wallets, auths, hwallet, hauths, rfl⟩ := createWallet_ok h
  intro other hother
  have hne : name ≠ other := fun heq => hother (heq ▸ hname)
  rw [rowsOf, rowsWhere_create? hwallet (decide_eq_false hne),
    rowsWhere_create? hauths (decide_eq_false (hauth ▸ hne))]
  rfl

theorem Does.keepsWallets {op : Operation} (h : Does (Makes cr op) s s') : Keeps (op.written cr) s s' := by
  refine h.lift (R := Keeps (op.written cr)) (fun _ => .refl) .trans ?_
  intro s s' c hc hrun
  obtain ⟨-, -, hof⟩ := hc
  cases hrun with
  | wallet hrun =>
    cases hrun with
    | @modify id old a _ t hrow hmod hkeys =>
      intro name hname
      have hne : old.name ≠ name := fun heq => hname (heq ▸ hof)
      rw [rowsOf, rowsWhere_modify? hmod hrow (decide_eq_false hne)
        (decide_eq_false (name_eq_of_sameKeys hkeys ▸ hne))]
      rfl
    | _ => exact hof.elim
  | authority hrun =>
    cases hrun with
    | @modify id old a _ t hrow hmod _ =>
      intro name hname
      have hne : old.account ≠ name := fun heq => hname (heq ▸ hof.1)
      rw [rowsOf, rowsWhere_modify? hmod hrow (decide_eq_false hne) (decide_eq_false (hof.2 ▸ hne))]
      rfl
    | _ => exact hof.elim
  | balance hrun =>
    intro name hname
    cases hrun with
    | @create b _ t hnew =>
      have hne : b.name ≠ name := fun heq => hname (heq ▸ hof)
      rw [rowsOf, rowsWhere_create? hnew (decide_eq_false hne)]
      rfl
    | @modify id old b _ t hrow hmod _ =>
      have hne : old.name ≠ name := fun heq => hname (heq ▸ hof.1)
      rw [rowsOf, rowsWhere_modify? hmod hrow (decide_eq_false hne) (decide_eq_false (hof.2 ▸ hne))]
      rfl
    | remove => exact hof.elim
  | _ => exact .of_eq rfl rfl rfl

theorem applyOperation_keeps {op : Operation} (h : s.applyOperation cr env op = .ok s') :
    Keeps (op.written cr) s s' := by
  obtain ⟨u, u', hbefore, hcreates, hafter⟩ := applyOperation_parts h
  refine hbefore.keepsWallets.trans (.trans ?_ hafter.keepsWallets)
  cases hcreates with
  | none => exact .refl
  | some _ hname haccount _ hnew => exact createWallet_keeps hname haccount hnew

/-! ## Updates that write nothing new -/

section Update

variable {o : WalletUpdateOperation} {w : Nat × WalletObject} {a : Nat × AccountAuthorityObject} {α : Type}

theorem findAccount_of_rows (h : s'.rowsOf name = s.rowsOf name) : s'.findAccount name =
    s.findAccount name := by
  simpa only [rowsOf, rowsWhere, List.head?_filter, findAccount, find?] using
    congrArg (fun r : WalletRows => r.wallets.head?) h

theorem findAuthority_of_rows (h : s'.rowsOf name = s.rowsOf name) :
    s'.findAuthority name = s.findAuthority name := by
  simpa only [rowsOf, rowsWhere, List.head?_filter, findAuthority, find?] using
    congrArg (fun r : WalletRows => r.authorities.head?) h

theorem modify?_self [Keyed α] {t t' : ObjectIndex α} {id : Nat} {old : α}
    (h : t.modify? id old = some t') (hrow : (id, old) ∈ t.rows) : t' = t := by
  rw [modify?_eq h]
  exact (set_eq_mapRows (f := fun a => a) hrow).trans (mapRows_eq_self fun i a => ite_self a)

theorem getD_eq_of_forall {x : Option α} {old : α} : x.getD old = old ↔ ∀ m ∈ x, m = old := by
  cases x <;> simp

theorem setRecovery_find (h : s.setRecovery o = .ok s') (ha : s.findAuthority o.wallet = some a) :
    ∃ a', s'.findAuthority o.wallet = some a' ∧
      (o.recovery = none ∧ s' = s ∨
        o.recovery ≠ none ∧ a'.2.lastRecoveryUpdate ≠ a.2.lastRecoveryUpdate) := by
  unfold setRecovery at h
  split at h
  · next hnone =>
    cases h
    exact ⟨a, ha, .inl ⟨hnone, rfl⟩⟩
  · next hsome =>
    simp only [updateRecoveryAuthority, getAuthority, ha, bind_ok_iff, getRow_ok_iff, fcAssert_ok_iff,
      some.injEq, exists_eq_left', dbModify_ok_iff] at h
    obtain ⟨_, hlater, _, -, history, -, auths, hmod, ⟨⟩⟩ := h
    refine ⟨_, find?_modify?_self hmod ha (of_find? ha).2, .inr ⟨hsome ▸ some_ne_none _, fun heq => ?_⟩⟩
    -- the last update is more than an hour ago
    have heq : s.headBlockTime = a.2.lastRecoveryUpdate := heq
    rw [heq, decide_eq_true_iff] at hlater
    omega

theorem setWalletData_find (h : s.setWalletData o = .ok s') (hw : s.findAccount o.wallet = some w) :
    s'.authorities = s.authorities ∧ s'.balances = s.balances ∧
      s.wallets.modify? w.1 { w.2 with
        memoKey := match o.memoKey with
          | some k => if k ≠ ⟨0⟩ then k else w.2.memoKey
          | none => w.2.memoKey
        lastAccountUpdate := s.headBlockTime } = some s'.wallets := by
  simp only [setWalletData, getAccount, hw, bind_ok_iff, getRow_ok_iff, some.injEq, exists_eq_left',
    dbModify_ok_iff] at h
  obtain ⟨wallets, hmod, h⟩ := h
  by_cases hmeta : o.jsonMetadata ≠ "" ∨ o.socialJsonMetadata ≠ ""
  · rw [if_pos hmeta] at h
    obtain ⟨m, -, h⟩ := of_bind h
    obtain ⟨metadata, -, h⟩ := of_bind h
    cases h
    exact ⟨rfl, rfl, hmod⟩
  · rw [if_neg hmeta] at h
    cases h
    exact ⟨rfl, rfl, hmod⟩

theorem setMoneySocial_find (h : s.setMoneySocial o = .ok s') (ha : s.findAuthority o.wallet = some a) :
    s'.wallets = s.wallets ∧ s'.balances = s.balances ∧
      s'.findAuthority o.wallet = some (a.1, { a.2 with
        money := o.money.getD a.2.money, social := o.social.getD a.2.social }) ∧
      ((∀ m ∈ o.money, m = a.2.money) → (∀ m ∈ o.social, m = a.2.social) → s'.authorities = s.authorities) := by
  unfold setMoneySocial at h
  split_ifs at h with hsome
  · simp only [getAuthority, ha, bind_ok_iff, getRow_ok_iff, some.injEq, exists_eq_left', dbModify_ok_iff] at h
    obtain ⟨auths, hmod, ⟨⟩⟩ := h
    refine ⟨rfl, rfl, find?_modify?_self hmod ha (of_find? ha).2, fun hmoney hsocial => ?_⟩
    rw [getD_eq_of_forall.2 hmoney, getD_eq_of_forall.2 hsocial] at hmod
    exact modify?_self hmod (of_find? ha).1
  · cases h
    rw [not_or, not_isSome_iff_eq_none, not_isSome_iff_eq_none] at hsome
    refine ⟨rfl, rfl, ?_, fun _ _ => rfl⟩
    rw [hsome.1, hsome.2]
    exact ha

theorem applyWalletUpdate_authority (h : s.applyWalletUpdate o = .ok s') :
    ∃ s1 a, s.upsertWallet o = .ok s1 ∧ s1.findAuthority o.wallet = some a := by
  unfold applyWalletUpdate at h
  iterate 2 obtain ⟨_, -, h⟩ := of_bind h
  obtain ⟨s1, h1, h⟩ := of_bind h
  obtain ⟨_, -, h⟩ := of_bind h
  obtain ⟨a, ha, -⟩ := of_bind h
  exact ⟨s1, a, h1, getRow_ok_iff.1 ha⟩

theorem applyWalletUpdate_rows_iff (h : s.applyWalletUpdate o = .ok s') :
    s'.rowsOf o.wallet = s.rowsOf o.wallet ↔ o.Repeats s := by
  obtain ⟨s1, s2, s3, h1, h2, h3, h4⟩ := applyWalletUpdate_ok h
  obtain ⟨_, a, h1', ha⟩ := applyWalletUpdate_authority h
  cases h1.symm.trans h1'
  obtain ⟨a2, ha2, hrecovery⟩ := setRecovery_find h2 ha
  obtain ⟨w, hw, -⟩ := of_bind h3
  rw [getAccount, getRow_ok_iff] at hw
  obtain ⟨hauths, hbalances, hmod⟩ := setWalletData_find h3 hw
  have ha3 : s3.findAuthority o.wallet = some a2 := by
    rw [findAuthority, hauths]
    exact ha2
  obtain ⟨hwallets, hbalances', ha', hauths'⟩ := setMoneySocial_find h4 ha3
  constructor
  · intro hrows
    have hw' := findAccount_of_rows hrows
    rw [findAccount, hwallets, find?_modify?_self hmod hw (of_find? hw).2] at hw'
    rw [findAuthority_of_rows hrows] at ha'
    rcases upsertWallet_ok h1 with ⟨-, rfl⟩ | ⟨hnone, -⟩
    · have hkept := congrArg Prod.snd (some.inj (ha.symm.trans ha'))
      rcases hrecovery with ⟨hnone, rfl⟩ | ⟨-, hlater⟩
      · cases ha.symm.trans ha2
        have hsame := congrArg Prod.snd (some.inj (hw'.trans hw))
        refine ⟨w, a, hw, ha, hnone, fun k hk => ?_, (congrArg WalletObject.lastAccountUpdate hsame).symm,
          getD_eq_of_forall.1 (congrArg money hkept).symm,
          getD_eq_of_forall.1 (congrArg social hkept).symm⟩
        have hmemo := congrArg WalletObject.memoKey hsame
        simp only [mem_def.1 hk] at hmemo
        split_ifs at hmemo with hzero
        · exact .inr hmemo
        · exact .inl (not_not.1 hzero)
      · exact absurd (congrArg lastRecoveryUpdate hkept).symm hlater
    · rw [← hw'] at hnone
      cases hnone
  · rintro ⟨w', a', hfound, hfound', hnone, hmemo, htime, hmoney, hsocial⟩
    rcases upsertWallet_ok h1 with ⟨-, rfl⟩ | ⟨hmissing, -⟩
    · obtain ⟨-, rfl⟩ := hrecovery.resolve_right fun h => h.1 hnone
      cases hfound.symm.trans hw
      cases hfound'.symm.trans ha2
      have hmemo : (match o.memoKey with
          | some k => if k ≠ ⟨0⟩ then k else w.2.memoKey
          | none => w.2.memoKey) = w.2.memoKey := by
        split
        · next k hk => exact ite_eq_right_iff.2 fun hzero => (hmemo k hk).resolve_left hzero
        · rfl
      rw [hmemo, ← htime] at hmod
      have hkeeps : Keeps [] _ s' := .of_eq (hwallets.trans (modify?_self hmod (of_find? hw).1))
        ((hauths' hmoney hsocial).trans hauths) (hbalances'.trans hbalances)
      exact hkeeps _ List.not_mem_nil
    · rw [hfound] at hmissing
      cases hmissing

end Update

theorem applyEscrowRelease_receiver {o : EscrowReleaseOperation} (h : s.applyEscrowRelease o = .ok s') :
    o.receiver ∈ [o.fromWallet, o.toWallet, o.agent] := by
  unfold applyEscrowRelease at h
  obtain ⟨_, -, h⟩ := of_bind h
  obtain ⟨e, he, h⟩ := of_bind h
  iterate 2 obtain ⟨_, -, h⟩ := of_bind h
  obtain ⟨_, hto, h⟩ := of_bind h
  obtain ⟨_, -, h⟩ := of_bind h
  obtain ⟨_, hreceiver, -⟩ := of_bind h
  have hfrom := of_decide_eq_true (Bool.and_eq_true_iff.1 (of_getRow he).2).1
  rw [fcAssert_ok_iff, decide_eq_true_iff] at hto hreceiver
  rw [hfrom, hto] at hreceiver
  simp only [List.mem_cons]
  exact hreceiver.imp_right .inl

theorem impacted_iff {op : Operation} (h : s.applyOperation cr env op = .ok s') :
    (∀ name, name ≠ xgtNullWallet → s'.rowsOf name ≠ s.rowsOf name → name ∈ op.getImpactedAccounts cr .empty) ↔
      ∀ o, op = .walletUpdate o → o.wallet ≠ xgtNullWallet → o.Repeats s := by
  have hwritten : ∀ {name}, s'.rowsOf name ≠ s.rowsOf name → name ∈ op.written cr := fun hrows =>
    not_not.1 fun hmem => hrows (applyOperation_keeps h _ hmem)
  by_cases hupdate : ∃ o, op = .walletUpdate o
  · obtain ⟨o, rfl⟩ := hupdate
    have hiff : s'.rowsOf o.wallet = s.rowsOf o.wallet ↔ o.Repeats s := applyWalletUpdate_rows_iff h
    constructor
    · rintro hlisted _ ⟨⟩ hnull
      rw [← hiff]
      by_contra hrows
      exact FlatSet.not_mem_empty _ (hlisted o.wallet hnull hrows)
    · intro hrepeats name hnull hrows
      obtain rfl : name = o.wallet := List.mem_singleton.1 (hwritten hrows)
      exact absurd (hiff.2 (hrepeats o rfl hnull)) hrows
  · refine iff_of_true (fun name hnull hrows => ?_) fun o heq => absurd ⟨o, heq⟩ hupdate
    refine Operation.mem_getImpactedAccounts (fun o heq => hupdate ⟨o, heq⟩) ?_ (hwritten hrows) hnull
    rintro o rfl
    exact applyEscrowRelease_receiver h

theorem impacted_transfer : ∃ s',
    (genesis ⟨1⟩).applyOperation toyParams.toCrypto toyEnv (.transfer toyTransfer) = .ok s' ∧
    s'.rowsOf xgtInitMinerName ≠ (genesis ⟨1⟩).rowsOf xgtInitMinerName ∧
    ∀ name, name ≠ xgtNullWallet → s'.rowsOf name ≠ (genesis ⟨1⟩).rowsOf name →
      name ∈ (Operation.transfer toyTransfer).getImpactedAccounts toyParams.toCrypto .empty := by
  obtain ⟨s', hs', hrows⟩ := exists_ok_of_any
    (x := (genesis ⟨1⟩).applyOperation toyParams.toCrypto toyEnv (.transfer toyTransfer))
    (p := fun s' => (s'.rowsOf xgtInitMinerName).wallets.map (fun w => w.2.balance.amount) ≠
      ((genesis ⟨1⟩).rowsOf xgtInitMinerName).wallets.map (fun w => w.2.balance.amount)) (by decide +kernel)
  exact ⟨s', hs', fun heq => of_decide_eq_true hrows (by rw [heq]), (impacted_iff hs').2 nofun⟩

theorem unlisted_update : ∃ s s' name, (genesis ⟨1⟩).applyOperation toyParams.toCrypto toyEnv
      (.walletCreate (toyCreate 5 6)) = .ok s ∧
    s.applyOperation toyParams.toCrypto toyEnv (.walletUpdate (toyUpdate name 7)) = .ok s' ∧
    name ≠ xgtNullWallet ∧ s'.rowsOf name ≠ s.rowsOf name ∧
    (Operation.walletUpdate (toyUpdate name 7)).getImpactedAccounts toyParams.toCrypto .empty = .empty := by
  let name := getWalletName toyParams.toCrypto [⟨5⟩]
  obtain ⟨s, hs, hcheck⟩ := exists_ok_of_any
    (x := (genesis ⟨1⟩).applyOperation toyParams.toCrypto toyEnv (.walletCreate (toyCreate 5 6)))
    (p := fun s => (s.applyOperation toyParams.toCrypto toyEnv
      (.walletUpdate (toyUpdate name 7))).toOption.any fun s' : Objects =>
        decide (name ≠ xgtNullWallet ∧ (s'.rowsOf name).authorities.map (·.2.money) ≠
          (s.rowsOf name).authorities.map (·.2.money))) (by decide +kernel)
  obtain ⟨s', hs', hcheck⟩ := exists_ok_of_any hcheck
  obtain ⟨hnull, hrows⟩ := of_decide_eq_true hcheck
  exact ⟨s, s', name, hs, hs', hnull, fun heq => hrows (by rw [heq]), rfl⟩

end Objects

end Xgt
