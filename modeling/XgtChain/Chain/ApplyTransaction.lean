import XgtChain.Chain.EvaluatorEffects
import XgtChain.Chain.Genesis
import XgtChain.Protocol.VerifyAuthority

/-!
# `_apply_transaction`

A transaction is validated, checked for duplicates, authorized, checked for expiration, recorded, and then
its operations are applied.
-/

namespace Xgt

open Base List Operation

def sharedDbMerkle : List (Nat × Checksum) :=
  [(3705111, ⟨0x0a8f0fd5450c3706ec8b8cbad795cd0b3679bf35⟩),
   (3705120, ⟨0x2027edb72b671f7011c8cc4c7a8b59c39b305093⟩),
   (3713940, ⟨0xbf8a1d516927c506ebdbb7b38bef2e992435435f⟩),
   (3714132, ⟨0xe8b77773d268b72c8d650337b8cce360bbe64779⟩),
   (3714567, ⟨0x45af59a8c2d7d4a606151ef5dae03d2dfe13fbdd⟩),
   (3714588, ⟨0xe64275443bdc82f104ac936486d367af8f6d1584⟩),
   (4138790, ⟨0xf65a3a788a2ef52406d8ba5705d7288be228403f⟩),
   (5435426, ⟨0x0b32538b2d22bd3146d54b6e3cb5ae8b9780e8a5⟩)]

def unlessSkipped (skip : Bool) (x : Result Unit) : Result Unit := if skip then .ok () else x

def plainError {α : Type} (x : Result α) : Result α := x.mapError fun e => { e with kind := .other }

@[simp] theorem plainError_ok_iff {α : Type} {x : Result α} {a : α} :
    plainError x = .ok a ↔ x = .ok a := by
  cases x <;> simp [plainError, Except.mapError]

namespace Objects

variable (s : Objects)

def getters : Getters where
  money name := (fun r => r.2.money) <$> s.getAuthority name
  recovery name := (fun r => r.2.recovery) <$> s.getAuthority name
  social name := (fun r => r.2.social) <$> s.getAuthority name

def signsFor (keys : FlatSet PublicKey) (auth : AccountAuthorityObject) : Bool :=
  auth.money.getKeys.any (· ∈ keys) || auth.recovery.getKeys.any (· ∈ keys)

variable (cr : Crypto) (t : SignedTransaction) (env : Env)

def checkWorker (o : PowOperation) : Result Unit := do
  let keys ← cr.getSignatureKeys .fcCanonical t
  let auth ← s.getAuthority o.getWorkerName
  ensure (signsFor keys auth.2) ⟨.operationValidate, "operation_validate_exception"⟩

def checkOwner (o : WalletUpdateOperation) : Result Unit := do
  let _ ← s.getAuthority o.wallet
  let keys ← cr.getSignatureKeys .fcCanonical t
  ensure (o.wallet = getWalletName cr keys.elems)
    ⟨.operationValidate, "operation_validate_exception"⟩

def checkOperations : List Operation → Result Unit
  | [] => .ok ()
  | op :: ops =>
    match op with
    | .pow o => s.checkWorker cr t o >>= fun _ => checkOperations ops
    | .walletCreate _ => .ok ()
    | .walletUpdate o => s.checkOwner cr t o >>= fun _ => checkOperations ops
    | _ => checkOperations ops

def verifyTransaction : Result Unit := do
  let keys ← cr.getSignatureKeys .bip0062 t
  let _ ← verifyAuthority {} t.operations keys s.getters
  pure ()

def authorize : Result Unit :=
  match s.checkOperations cr t t.operations >>= fun _ => s.verifyTransaction cr t with
  | .ok u => .ok u
  | .error e =>
    if e.kind = .txMissingMoneyAuth ∧ (sharedDbMerkle.lookup (s.headBlockNum + 1)).isSome
    then .ok () else .error e

def checkExpiration : Result Unit :=
  if 0 < s.headBlockNum then do
    ensure (t.expiration ≤ s.headBlockTime + xgtMaxTimeUntilExpiration)
      ⟨.transactionExpiration, ""⟩
    ensure (s.headBlockTime < t.expiration) ⟨.transactionExpiration, ""⟩
  else .ok ()

def recordTransaction : Result Objects :=
  if env.skip.skipTransactionDupeCheck then .ok s
  else do
    let transactions ← dbCreate s.transactions
      { trxId := cr.transactionId t.toTransaction, expiration := t.expiration }
    pure { s with transactions := transactions }

def applyOperations (ops : List Operation) : Result Objects :=
  ops.foldlM (fun s op => plainError (s.applyOperation cr env op)) s

def applyTransaction : Result Objects := do
  unlessSkipped env.skip.skipValidate (t.validate cr)
  fcAssert (env.skip.skipTransactionDupeCheck ||
    !s.isKnownTransaction (cr.transactionId t.toTransaction)) "Duplicate transaction check failed"
  unlessSkipped (env.skip.skipTransactionSignatures || env.skip.skipAuthorityCheck)
    (s.authorize cr t)
  s.checkExpiration t
  let s ← s.recordTransaction cr t env
  s.applyOperations cr env t.operations

end Objects

namespace Objects

variable {s s' : Objects} {cr : Crypto} {t : SignedTransaction} {env : Env}
variable {e : Exc} {ops : List Operation}

theorem applyTransaction_ok (hskip : env.skip = skipNothing) (h : s.applyTransaction cr t env = .ok s') :
    t.validate cr = .ok () ∧ s.isKnownTransaction (cr.transactionId t.toTransaction) = false ∧
      s.authorize cr t = .ok () ∧ s.checkExpiration t = .ok () ∧
      ∃ s1, s.recordTransaction cr t env = .ok s1 ∧
        s1.applyOperations cr env t.operations = .ok s' := by
  unfold applyTransaction at h
  rw [hskip] at h
  obtain ⟨_, hvalid, h⟩ := of_bind h
  obtain ⟨_, hdupe, h⟩ := of_bind h
  obtain ⟨_, hauth, h⟩ := of_bind h
  obtain ⟨_, hexp, h⟩ := of_bind h
  exact ⟨hvalid, by simpa [skipNothing] using hdupe, hauth, hexp, of_bind h⟩

theorem getSignatureKeys_error {canon : CanonicalType}
    (h : cr.getSignatureKeys canon t = .error e) : e.kind ≠ .txMissingMoneyAuth := by
  refine foldlM_error_of_step (P := fun e => e.kind ≠ .txMissingMoneyAuth) h
    fun keys sig e _ hstep => ?_
  rcases bind_error_iff.1 hstep with hkey | ⟨k, -, hdup⟩
  · unfold Crypto.publicKey at hkey
    split_ifs at hkey
    · split at hkey <;> cases hkey
      simp
    · cases hkey
      simp
  · rcases bind_error_iff.1 hdup with hdup | ⟨_, -, hret⟩
    · obtain ⟨-, rfl⟩ := ensure_error_iff.1 hdup
      simp
    · cases hret

theorem getAuthority_error {name : WalletName} (h : s.getAuthority name = .error e) :
    e.kind ≠ .txMissingMoneyAuth := by
  unfold getAuthority getRow at h
  split at h <;> cases h
  simp

theorem checkOperations_error
    (h : s.checkOperations cr t ops = .error e) : e.kind ≠ .txMissingMoneyAuth := by
  induction ops with
  | nil => cases h
  | cons op ops ih =>
    unfold checkOperations at h
    split at h
    · rcases bind_error_iff.1 h with hworker | ⟨_, -, hrest⟩
      · rcases bind_error_iff.1 hworker with hkeys | ⟨_, -, hworker⟩
        · exact getSignatureKeys_error hkeys
        · rcases bind_error_iff.1 hworker with hauth | ⟨_, -, hsigns⟩
          · exact getAuthority_error hauth
          · obtain ⟨-, rfl⟩ := ensure_error_iff.1 hsigns
            simp
      · exact ih hrest
    · cases h
    · rcases bind_error_iff.1 h with howner | ⟨_, -, hrest⟩
      · rcases bind_error_iff.1 howner with hauth | ⟨_, -, howner⟩
        · exact getAuthority_error hauth
        · rcases bind_error_iff.1 howner with hkeys | ⟨_, -, hname⟩
          · exact getSignatureKeys_error hkeys
          · obtain ⟨-, rfl⟩ := ensure_error_iff.1 hname
            simp
      · exact ih hrest
    · exact ih h

theorem authorize_ok (h : s.authorize cr t = .ok ()) :
    s.checkOperations cr t t.operations = .ok () ∧
      (s.verifyTransaction cr t = .ok () ∨
        (sharedDbMerkle.lookup (s.headBlockNum + 1)).isSome ∧
          ∃ e, s.verifyTransaction cr t = .error e ∧ e.kind = .txMissingMoneyAuth) := by
  unfold authorize at h
  split at h
  next hboth =>
    obtain ⟨_, hops, hverify⟩ := of_bind hboth
    exact ⟨hops, .inl hverify⟩
  next e hboth =>
    split_ifs at h with htable
    rcases bind_error_iff.1 hboth with hops | ⟨_, hops, hverify⟩
    · exact absurd htable.1 (checkOperations_error hops)
    · exact ⟨hops, .inr ⟨htable.2, e, hverify, htable.1⟩⟩

section

variable (h : s.recordTransaction cr t env = .ok s')
include h

theorem recordTransaction_ok :
    s' = s ∨ ∃ transactions, s.transactions.create?
      { trxId := cr.transactionId t.toTransaction, expiration := t.expiration } = some transactions ∧
      s' = { s with transactions := transactions } := by
  unfold recordTransaction at h
  split_ifs at h
  · cases h
    exact .inl rfl
  · obtain ⟨transactions, hnew, h⟩ := of_bind h
    cases h
    exact .inr ⟨transactions, dbCreate_ok_iff.1 hnew, rfl⟩

theorem recordTransaction_frame : s'.frame = s.frame := by
  obtain rfl | ⟨transactions, -, rfl⟩ := recordTransaction_ok h
  · rfl
  · rfl

theorem recordTransaction_does {p : Call → Prop} (hp : ∀ a, p (.transaction (.create a))) : Does p s s' := by
  obtain rfl | ⟨transactions, hnew, rfl⟩ := recordTransaction_ok h
  · exact .refl
  · exact .call (.transaction (.create hnew)) (hp _)

theorem recordTransaction_still : Does Call.Still s s' :=
  recordTransaction_does h fun _ => trivial

end

theorem applyOperations_chainPart
    (h : s.applyOperations cr env ops = .ok s') : s'.chainPart = s.chainPart :=
  foldlM_ok_of_step (P := fun u => u.chainPart = s.chainPart) h rfl fun _ _ _ _ hu hstep =>
    (applyOperation_rows (plainError_ok_iff.1 hstep)).chainPart.trans hu

section

variable (h : s.applyTransaction cr t env = .ok s')
include h

theorem applyTransaction_run :
    ∃ s1, s.recordTransaction cr t env = .ok s1 ∧
      s1.applyOperations cr env t.operations = .ok s' := by
  unfold applyTransaction at h
  iterate 4 obtain ⟨_, -, h⟩ := of_bind h
  exact of_bind h

theorem applyTransaction_calls : Does Call.KeepsSupply s s' := by
  obtain ⟨s1, hrecord, hops⟩ := applyTransaction_run h
  refine (recordTransaction_still hrecord).calls_of_still.trans ?_
  exact foldlM_ok_of_step (P := fun u => Does Call.KeepsSupply s1 u) hops .refl fun u op u' _ hu hstep =>
    hu.trans (applyOperation_calls (plainError_ok_iff.1 hstep)).all

theorem applyTransaction_chainPart : s'.chainPart = s.chainPart := by
  obtain ⟨s1, hrecord, hops⟩ := applyTransaction_run h
  exact (applyOperations_chainPart hops).trans (congrArg Prod.fst (recordTransaction_frame hrecord))

end

theorem applyOperations_kept {w : WalletName} {r : Nat × AccountAuthorityObject}
    (h : s.applyOperations cr env ops = .ok s') (hw : ∀ o, walletUpdate o ∈ ops → o.wallet ≠ w)
    (hr : s.findAuthority w = some r) : s'.findAuthority w = some r := by
  refine foldlM_ok_of_step (P := fun u => u.findAuthority w = some r) h hr
    fun u op u' hop hu hstep => ?_
  refine (applyOperation_rows (plainError_ok_iff.1 hstep)).kept w r (fun hrew => ?_) hu
  unfold Rewrites at hrew
  split at hrew
  · exact hw _ hop hrew.symm
  · exact hrew

end Objects

/-! ## Ownership of updated wallets -/

/-- The wallet's name is made from the transaction's keys. -/
def Owns (cr : Crypto) (t : SignedTransaction) (w : WalletName) : Prop :=
  ∃ keys, cr.getSignatureKeys .fcCanonical t = .ok keys ∧ w = getWalletName cr keys.elems

/-- Wallets are updated, and authorities changed, by their owners only. -/
def OwnedOnly (cr : Crypto) (t : SignedTransaction) (s s' : Objects) : Prop :=
  (∀ o, walletUpdate o ∈ t.operations → Owns cr t o.wallet) ∧
    ∀ w r, s.findAuthority w = some r → s'.findAuthority w ≠ some r → Owns cr t w

def Operation.isWalletCreate : Operation → Bool
  | .walletCreate _ => true
  | _ => false

def fromFirstCreate (ops : List Operation) : List Operation :=
  ops.dropWhile fun op => !op.isWalletCreate

theorem mem_fromFirstCreate_cons (op : Operation) {op' : Operation} {ops : List Operation}
    (h : op' ∈ fromFirstCreate ops) : op' ∈ fromFirstCreate (op :: ops) := by
  unfold fromFirstCreate at *
  rw [dropWhile_cons]
  split_ifs
  · exact h
  · exact .tail _ (dropWhile_sublist _ |>.subset h)

namespace Objects

variable {s s' : Objects} {cr : Crypto} {t : SignedTransaction} {env : Env} {ops : List Operation}
  {o : WalletUpdateOperation}

section

variable (h : s.checkOperations cr t ops = .ok ())
include h

theorem checkOperations_single {op : Operation} (hop : op ∈ ops) :
    s.checkOperations cr t [op] = .ok () ∨ op ∈ fromFirstCreate ops := by
  induction ops with
  | nil => cases hop
  | cons first ops ih =>
    by_cases hcreate : first.isWalletCreate
    · right
      rwa [fromFirstCreate, dropWhile_cons_of_neg (by simp [hcreate])]
    · have hsplit : s.checkOperations cr t [first] = .ok () ∧ s.checkOperations cr t ops = .ok () := by
        cases first with
        | walletCreate o => exact absurd rfl hcreate
        | pow o | walletUpdate o =>
          obtain ⟨_, hcheck, hrest⟩ := of_bind h
          exact ⟨by rw [checkOperations, hcheck]; rfl, hrest⟩
        | _ => exact ⟨rfl, h⟩
      rcases mem_cons.1 hop with rfl | hmem
      · exact .inl hsplit.1
      · exact (ih hsplit.2 hmem).imp_right (mem_fromFirstCreate_cons first)

theorem checkOperations_owner (ho : walletUpdate o ∈ ops) :
    s.checkOwner cr t o = .ok () ∨ walletUpdate o ∈ fromFirstCreate ops :=
  (checkOperations_single h ho).imp_left fun hcheck => (of_bind hcheck).elim fun _ h => h.1

theorem checkOperations_owns (ho : walletUpdate o ∈ ops) :
    Owns cr t o.wallet ∨ walletUpdate o ∈ fromFirstCreate ops := by
  refine (checkOperations_owner h ho).imp_left fun howner => ?_
  obtain ⟨_, -, howner⟩ := of_bind howner
  obtain ⟨keys, hkeys, hname⟩ := of_bind howner
  exact ⟨keys, hkeys, by simpa using hname⟩

theorem checkOperations_worker {o : PowOperation} (ho : pow o ∈ ops) :
    (∃ keys r, cr.getSignatureKeys .fcCanonical t = .ok keys ∧
      s.getAuthority o.getWorkerName = .ok r ∧ signsFor keys r.2 = true) ∨
      pow o ∈ fromFirstCreate ops := by
  refine (checkOperations_single h ho).imp_left fun hcheck => ?_
  obtain ⟨_, hworker, -⟩ := of_bind hcheck
  obtain ⟨keys, hkeys, hworker⟩ := of_bind hworker
  obtain ⟨r, hr, hsigns⟩ := of_bind hworker
  exact ⟨keys, r, hkeys, hr, ensure_ok_iff.1 hsigns⟩

end

theorem applyTransaction_owned_iff (hskip : env.skip = skipNothing)
    (h : s.applyTransaction cr t env = .ok s') :
    OwnedOnly cr t s s' ↔
      ∀ o, walletUpdate o ∈ fromFirstCreate t.operations → Owns cr t o.wallet := by
  obtain ⟨-, -, hauth, -, s1, hrecord, hops⟩ := applyTransaction_ok hskip h
  constructor
  · rintro ⟨howned, -⟩ o ho
    exact howned o (dropWhile_sublist _ |>.subset ho)
  · intro hlate
    have howned (o : WalletUpdateOperation) (ho : walletUpdate o ∈ t.operations) :
        Owns cr t o.wallet :=
      (checkOperations_owns (authorize_ok hauth).1 ho).elim id (hlate o)
    refine ⟨howned, fun w r hr hchanged => ?_⟩
    by_contra hnot
    have hr1 : s1.findAuthority w = some r := by
      rw [findAuthority, show s1.authorities = s.authorities from
        congrArg Prod.snd (recordTransaction_frame hrecord)]
      exact hr
    refine hchanged (applyOperations_kept hops (fun o ho heq => hnot ?_) hr1)
    exact heq ▸ howned o ho

theorem applyTransaction_owned_by_key :
    ∃ s s' : Objects, ∃ t : SignedTransaction,
      s.applyTransaction toyParams.toCrypto t toyEnv = .ok s' ∧
      (∃ o, walletUpdate o ∈ t.operations) ∧
      OwnedOnly toyParams.toCrypto t s s' := by
  let create := toyTransaction 0 [.walletCreate (toyCreate 5 5)] []
  let update := toyTransaction 1 [.walletUpdate (toyUpdate (getWalletName toyParams.toCrypto [⟨5⟩]) 6)] [5]
  have hrun : ((genesis ⟨1⟩).applyTransaction toyParams.toCrypto create toyEnv >>=
      fun s => s.applyTransaction toyParams.toCrypto update toyEnv).toOption.any
        (fun _ => true) = true := by decide +kernel
  obtain ⟨s', hrun, -⟩ := exists_ok_of_any hrun
  obtain ⟨s, -, hupdate⟩ := of_bind hrun
  refine ⟨s, s', update, hupdate, ⟨_, .head _⟩, ?_⟩
  exact (applyTransaction_owned_iff rfl hupdate).2 fun o ho => by simp [update, toyTransaction,
    fromFirstCreate, isWalletCreate] at ho

theorem applyTransaction_takes_genesis_wallet :
    ∃ (t : SignedTransaction) (s' : Objects),
      (genesis ⟨1⟩).applyTransaction toyParams.toCrypto t toyEnv = .ok s' ∧
      t.signatures = [] ∧
      (s'.findAuthority xgtInitMinerName).map (fun r => r.2.money) = some (.ofKey 1 ⟨66⟩ 1) ∧
      ¬OwnedOnly toyParams.toCrypto t (genesis ⟨1⟩) s' := by
  let t := toyTransaction 0
    [.walletCreate (toyCreate 5 5), .walletUpdate (toyUpdate xgtInitMinerName 66)] []
  have hrun : ((genesis ⟨1⟩).applyTransaction toyParams.toCrypto t
      toyEnv).toOption.any (fun s' =>
        (s'.findAuthority xgtInitMinerName).map (fun r => r.2.money) = some (.ofKey 1 ⟨66⟩ 1))
        = true := by decide +kernel
  obtain ⟨s', hs', hmoney⟩ := exists_ok_of_any hrun
  refine ⟨t, s', hs', rfl, by simpa using hmoney, fun ⟨howned, _⟩ => ?_⟩
  obtain ⟨keys, hkeys, hname⟩ := howned (toyUpdate xgtInitMinerName 66) (by simp [t, toyTransaction])
  cases hkeys
  exact absurd hname (by decide +kernel)

theorem applyTransaction_eq (hskip : env.skip = skipNothing) (hvalid : t.validate cr = .ok ())
    (hknown : s.isKnownTransaction (cr.transactionId t.toTransaction) = false)
    (hauth : s.authorize cr t = .ok ()) (hexp : s.checkExpiration t = .ok ()) :
    s.applyTransaction cr t env = Objects.applyOperations { s with
      transactions := s.transactions.append ⟨cr.transactionId t.toTransaction, t.expiration⟩ } cr env
        t.operations := by
  have hcreate : dbCreate s.transactions ⟨cr.transactionId t.toTransaction, t.expiration⟩ =
      .ok (s.transactions.append ⟨cr.transactionId t.toTransaction, t.expiration⟩) := by
    have hnone : s.transactions.find? (fun t' => t'.trxId = cr.transactionId t.toTransaction) = none := by
      simpa [isKnownTransaction] using hknown
    refine dbCreate_ok_iff.2 (ObjectIndex.create?_eq_some_iff.2 ⟨fun r hr => ?_, rfl⟩)
    exact decide_eq_false fun heq => of_decide_eq_false (ObjectIndex.find?_eq_none.1 hnone r hr) heq.symm
  unfold applyTransaction recordTransaction
  rw [hskip, hknown, hvalid, hauth, hexp, hcreate]
  rfl

end Objects

end Xgt
