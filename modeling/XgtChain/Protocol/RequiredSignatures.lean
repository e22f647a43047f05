import Mathlib.Data.List.Sort
import Mathlib.Data.List.Sublists
import XgtChain.Protocol.Acceptance

/-!
# Choosing the keys to sign with

`get_required_signatures` runs the search of `verify_authority` over the signatures and the keys at hand,
and returns the keys that the search used.
-/

namespace Xgt

open Base FlatSet List FlatMap Approvals SignState Crypto

def SignState.removeUnusedSignatures (s : SignState) : Bool × SignState :=
  let removeSigs := (s.providedSignatures.entries.filter fun sig => !sig.2).map Prod.fst
  (!removeSigs.isEmpty, { s with providedSignatures := removeSigs.foldl erase s.providedSignatures })

namespace Crypto

variable (cr : Crypto) (canon : CanonicalType) (t : SignedTransaction) (availableKeys : FlatSet PublicKey)
  (get : Getters)

def selectedKeys (s : SignState) : FlatSet PublicKey :=
  s.removeUnusedSignatures.2.providedSignatures.entries.foldl
    (fun result providedSig => if providedSig.1 ∈
      availableKeys then result.insert providedSig.1 else result) .empty

def getRequiredSignatures (limits : SignLimits := {}) : Result (FlatSet PublicKey) :=
  let required := requiredAuthorities t.operations
  if required.social ≠ .empty then do
    let s := SignState.init (← cr.getSignatureKeys canon t)
    let ctx : SignContext := ⟨get.social, availableKeys, limits⟩
    fcAssert (required.recovery = .empty) "!required_recovery.size()"
    fcAssert (required.money = .empty) "!required_money.size()"
    let s ← required.social.elems.foldlM (fun s social => checkAuthorityOf ctx social s >>= fun r => .ok r.2) s
    pure (selectedKeys availableKeys s)
  else do
    let s := SignState.init (← cr.getSignatureKeys canon t)
    let ctx : SignContext := ⟨get.money, availableKeys, limits⟩
    let s ← required.other.foldlM (fun s auth => checkAuthority ctx auth s >>= fun r => .ok r.2) s
    let s ← required.recovery.elems.foldlM
      (fun s recovery => Check.byGetter ctx get.recovery recovery s >>= fun r => .ok r.2) s
    let s ← required.money.elems.foldlM (fun s money => checkAuthorityOf ctx money s >>= fun r => .ok r.2) s
    pure (selectedKeys availableKeys s)

def missingAuth (e : Exc) : Bool :=
  e.kind = .txMissingRecoveryAuth ∨ e.kind = .txMissingMoneyAuth ∨ e.kind = .txMissingSocialAuth ∨
    e.kind = .txMissingOtherAuth

def dropKey (limits : SignLimits) (ops : List Operation) (get : Getters) (result : FlatSet PublicKey)
    (k : PublicKey) : Result (FlatSet PublicKey) :=
  match verifyAuthority limits ops (result.erase k) get with
  | .ok _ => .ok (result.erase k)
  | .error e => if missingAuth e then .ok ((result.erase k).insert k) else .error e

def minimizeRequiredSignatures (limits : SignLimits := {}) : Result (FlatSet PublicKey) := do
  let s ← cr.getRequiredSignatures canon t availableKeys get limits
  s.elems.foldlM (dropKey limits t.operations get) s

end Crypto

section Selected

variable {ctx : SignContext} {s s' : SignState} {k : PublicKey}

end Selected

/-! ## The keys that a search can use -/

/-- The authority names the key, itself or through wallets down to the depth. -/
def Authority.names (get : AuthorityGetter) : Nat → Authority → PublicKey → Bool
  | 0, a, k => decide (k ∈ a.keyAuths.keys)
  | n + 1, a, k => decide (k ∈ a.keyAuths.keys) || a.walletAuths.entries.any fun w =>
    match get w.1 with
    | .ok b => names get n b k
    | .error _ => false

/-- No key but those of `K` has become used. -/
def UsesOnly (K : PublicKey → Prop) (s s' : SignState) : Prop := ∀ k, s'.Used k → s.Used k ∨ K k

section Names

variable {ctx : SignContext} {K : PublicKey → Prop} {s s' s'' : SignState} {t : Tally} {a : Authority}
  {nested : Option AuthorityCheck} {threshold n count : Nat} {r : Bool × Nat × SignState}

theorem UsesOnly.refl : UsesOnly K s s := fun _ => .inl

theorem UsesOnly.trans (h : UsesOnly K s s') (h' : UsesOnly K s' s'') : UsesOnly K s s'' :=
  fun k hk => (h' k hk).elim (h k) .inr

variable {w : WalletName} {r : Bool × SignState}

end Names

/-! ## Whether the selected keys are enough -/

section Enough

variable {limits : SignLimits} {get : Getters} {ops : List Operation} {full picked : PublicKey → Bool}
variable {f : (PublicKey → Bool) → Result Bool} {b : Bool}

/-- Each wallet whose money (social) authority is required wins that authority itself with the keys `full`, or
its recovery authority (its money or its recovery authority) with the keys `fallback`. -/
def Covered (limits : SignLimits) (get : Getters) (ops : List Operation)
    (full fallback : PublicKey → Bool) : Prop :=
  (∀ w ∈ (requiredAuthorities ops).money.elems,
    voteAs limits get.money (moneySeed {}) w full = .ok true ∨
      voteBy limits get.money (moneySeed {}) get.recovery w fallback = .ok true) ∧
  ∀ w ∈ (requiredAuthorities ops).social.elems,
    voteAs limits get.social (socialSeed {}) w full = .ok true ∨
      socialFallback limits get {} w fallback = .ok true

theorem Covered.mono {fallback fallback' : PublicKey → Bool} (h : Covered limits get ops full fallback)
    (hmore : ∀ k, fallback k = true → fallback' k = true) : Covered limits get ops full fallback' := by
  refine ⟨fun w hw => (h.1 w hw).imp_right (voteBy_mono hmore _ _ _ w).yes,
    fun w hw => (h.2 w hw).imp_right (either_concedes ?_ ?_).yes⟩
  · exact voteBy_mono hmore _ _ _ w
  · exact voteBy_mono hmore _ _ _ w

/-- The votes with the two sets of keys end alike. -/
def Agrees (f : (PublicKey → Bool) → Result Bool) (full picked : PublicKey → Bool) : Prop :=
  ∃ b, f picked = .ok b ∧ f full = .ok b

theorem Agrees.refl (h : f full = .ok b) : Agrees f full full :=
  ⟨b, h, h⟩

end Enough

/-! ## The choice of keys -/

section Choice

variable (cr : Crypto) {canon : CanonicalType} {t : SignedTransaction} {sigs availableKeys : FlatSet PublicKey}
  {limits : SignLimits} {get : Getters}

end Choice

variable (limits : SignLimits)

/-- `verify_authority` accepts the operations with the keys. -/
abbrev Enough (ops : List Operation) (get : Getters) (keys : FlatSet PublicKey) : Prop :=
  ∃ s, verifyAuthority limits ops keys get = .ok s

def blankCrypto : Crypto where
  hashKeys _ := 0
  hashPowInput _ := 0
  hashSha256 _ := 0
  powSummaryOf _ := 0
  headerHash _ := 0
  headerDigest _ := 0
  sigDigest _ := 0
  transactionId _ := ⟨0⟩
  merkleDigest _ := 0
  hashPair _ _ := 0
  checksum _ := ⟨0⟩
  recoverKey _ _ := none
  isCanonical _ _ := true
  packSize _ := 0
  transactionSize _ := 0
  isUtf8 _ := true
  jsonIsValid _ := true

def unsignedTransfer (sender : WalletName) : SignedTransaction :=
  { expiration := 0, operations := [.transfer ⟨sender, "shop", .xgt 1, ""⟩], signatures := [] }

def recoveryKey : FlatSet PublicKey := FlatSet.empty.insert ⟨2⟩

def safeGetter : AuthorityGetter
  | "safe" => .ok ⟨2, ofList [("left", 2)], ofList [(⟨1⟩, 1)]⟩
  | _ => .ok (.ofKey 1 ⟨2⟩ 1)

def safeGetters : Getters := ⟨safeGetter, fun _ => .ok (.ofKey 1 ⟨3⟩ 1), safeGetter⟩

def safeKeys : FlatSet PublicKey := (FlatSet.empty.insert ⟨1⟩).insert ⟨2⟩

theorem uncut_safe : Uncut {} safeGetters {} (unsignedTransfer "safe").operations := by
  constructor <;> decide +kernel

section Drop

variable {limits} {get : Getters} {ops : List Operation} {keys keys' : FlatSet PublicKey}
  {result : FlatSet PublicKey}

theorem Enough.mono (huncut : Uncut limits get {} ops)
    (h : Enough limits ops get keys) (hsub : ∀ k ∈ keys, k ∈ keys') : Enough limits ops get keys' := by
  refine (verifyAuthority_accepts_iff huncut _).2 (((verifyAuthority_accepts_iff huncut _).1 h).mono
    fun k hk => ?_)
  exact decide_eq_true (hsub k (of_decide_eq_true hk))

theorem dropKey_cases (k : PublicKey)
    (hmissing : ∀ e, verifyAuthority limits ops (result.erase k) get = .error e → missingAuth e = true) :
    (Enough limits ops get (result.erase k) ∧ dropKey limits ops get result k = .ok (result.erase k)) ∨
      (¬Enough limits ops get (result.erase k) ∧
        dropKey limits ops get result k = .ok ((result.erase k).insert k)) := by
  unfold dropKey Enough
  cases hverify : verifyAuthority limits ops (result.erase k) get with
  | ok s => exact .inl ⟨⟨s, rfl⟩, rfl⟩
  | error e =>
    refine .inr ⟨fun ⟨s, hs⟩ => (by cases hs), ?_⟩
    dsimp only
    rw [if_pos (hmissing e hverify)]

theorem needed_of_subset (huncut : Uncut limits get {} ops) {k : PublicKey}
    (h : ¬Enough limits ops get (keys.erase k)) (hsub : ∀ k' ∈ keys', k' ∈ keys) :
    ¬Enough limits ops get (keys'.erase k) := by
  refine fun h' => h (h'.mono huncut fun k' hk' => ?_)
  rw [mem_erase] at hk' ⊢
  exact ⟨hsub k' hk'.1, hk'.2⟩

theorem dropKeys_minimal (huncut : Uncut limits get {} ops) {l : List PublicKey}
    (hmissing : ∀ keys : FlatSet PublicKey, (∀ k ∈ keys, k ∈ result) → ∀ e,
      verifyAuthority limits ops keys get = .error e → missingAuth e = true)
    (henough : Enough limits ops get result)
    (hneeded : ∀ k ∈ result, k ∈ l ∨ ¬Enough limits ops get (result.erase k)) :
    ∃ kept, l.foldlM (dropKey limits ops get) result = .ok kept ∧ (∀ k ∈ kept, k ∈ result) ∧
      Enough limits ops get kept ∧ ∀ k ∈ kept, ¬Enough limits ops get (kept.erase k) := by
  induction l generalizing result with
  | nil => exact ⟨result, rfl, fun _ => id, henough, fun k hk => (hneeded k hk).resolve_left not_mem_nil⟩
  | cons k l ih =>
    have herase : ∀ k' ∈ result.erase k, k' ∈ result := fun k' hk' => (mem_erase.1 hk').1
    -- after this key: a smaller set, in which the key is needed if it is still there
    have hrest : ∀ result' : FlatSet PublicKey, (∀ k' ∈ result', k' ∈ result) → Enough limits ops get result' →
        (k ∈ result' → ¬Enough limits ops get (result'.erase k)) →
        ∃ kept, l.foldlM (dropKey limits ops get) result' = .ok kept ∧ (∀ k ∈ kept, k ∈ result) ∧
          Enough limits ops get kept ∧ ∀ k ∈ kept, ¬Enough limits ops get (kept.erase k) := by
      intro result' hsub henough' hk
      have hneeded' : ∀ k' ∈ result', k' ∈ l ∨ ¬Enough limits ops get (result'.erase k') := by
        intro k' hk'
        by_cases heq : k' = k
        · exact .inr (heq ▸ hk (heq ▸ hk'))
        · exact (hneeded k' (hsub k' hk')).imp (fun hl => (mem_cons.1 hl).resolve_left heq)
            fun h => needed_of_subset huncut h hsub
      obtain ⟨kept, hkept, hsub', hminimal⟩ :=
        ih (fun keys hkeys => hmissing keys fun k' hk' => hsub k' (hkeys k' hk')) henough' hneeded'
      exact ⟨kept, hkept, fun k' hk' => hsub k' (hsub' k' hk'), hminimal⟩
    rw [foldlM_cons]
    rcases dropKey_cases k (hmissing _ herase) with ⟨hothers, hdrop⟩ | ⟨hothers, hdrop⟩
    · rw [hdrop, ok_bind]
      exact hrest _ herase hothers fun hk => absurd rfl (mem_erase.1 hk).2
    · rw [hdrop, ok_bind]
      have hk : k ∈ result := by
        by_contra hk
        refine hothers (henough.mono huncut fun k' hk' => mem_erase.2 ⟨hk', ?_⟩)
        rintro rfl
        exact hk hk'
      have hback : ∀ k' ∈ (result.erase k).insert k, k' ∈ result := by
        intro k' hk'
        rcases mem_insert.1 hk' with rfl | hk'
        · exact hk
        · exact herase k' hk'
      refine hrest _ hback (henough.mono huncut fun k' hk' => ?_) fun _ => needed_of_subset huncut hothers hback
      rw [mem_insert, mem_erase]
      exact (eq_or_ne k' k).imp_right fun hne => ⟨hk', hne⟩

end Drop

theorem minimize_required_signatures_minimal (cr : Crypto) (canon : CanonicalType) (t : SignedTransaction)
    (availableKeys selected : FlatSet PublicKey) (limits : SignLimits) (get : Getters)
    (huncut : Uncut limits get {} t.operations)
    (hselected : cr.getRequiredSignatures canon t availableKeys get limits = .ok selected)
    (haccepts : Enough limits t.operations get selected)
    (hmissing : ∀ keys : FlatSet PublicKey, (∀ k ∈ keys, k ∈ selected) → ∀ e,
      verifyAuthority limits t.operations keys get = .error e → missingAuth e = true) :
    ∃ kept, cr.minimizeRequiredSignatures canon t availableKeys get limits = .ok kept ∧
      (∀ k ∈ kept, k ∈ selected) ∧
      Enough limits t.operations get kept ∧ ∀ k ∈ kept, ¬Enough limits t.operations get (kept.erase k) := by
  rw [minimizeRequiredSignatures, hselected, ok_bind]
  exact dropKeys_minimal huncut hmissing haccepts fun k hk => .inl hk

theorem missingAuth_safe (keys : FlatSet PublicKey) (hsub : ∀ k ∈ keys, k ∈ safeKeys) (e : Exc)
    (h : verifyAuthority {} (unsignedTransfer "safe").operations keys safeGetters = .error e) :
    missingAuth e = true := by
  have hall : ∀ elems ∈ safeKeys.elems.sublists, ∀ hsorted,
      (match verifyAuthority {} (unsignedTransfer "safe").operations ⟨elems, hsorted⟩ safeGetters with
        | .error e => missingAuth e
        | .ok _ => true) = true := by decide +kernel
  obtain ⟨elems, hsorted⟩ := keys
  have hsublist : elems.Sublist safeKeys.elems :=
    sublist_of_subperm_of_pairwise (subperm_of_subset (hsorted.imp ne_of_lt) hsub) hsorted safeKeys.sorted
  have hkind := hall elems (mem_sublists.2 hsublist) hsorted
  rwa [h] at hkind

theorem minimize_required_signatures_safe :
    blankCrypto.minimizeRequiredSignatures .bip0062 (unsignedTransfer "safe") safeKeys safeGetters =
      .ok (FlatSet.empty.insert ⟨2⟩) ∧
    ∃ kept, blankCrypto.minimizeRequiredSignatures .bip0062
      (unsignedTransfer "safe") safeKeys safeGetters = .ok kept ∧
      (∀ k ∈ kept, k ∈ safeKeys) ∧
      Enough {} (unsignedTransfer "safe").operations safeGetters kept ∧
      ∀ k ∈ kept, ¬Enough {} (unsignedTransfer "safe").operations safeGetters (kept.erase k) :=
  ⟨by decide +kernel, minimize_required_signatures_minimal blankCrypto .bip0062
    (unsignedTransfer "safe") safeKeys
    safeKeys {} safeGetters uncut_safe (by decide +kernel) (by decide +kernel) missingAuth_safe⟩

def keyedVaultGetter : AuthorityGetter
  | "vault" => .ok ⟨3, ofList [("left", 1), ("right", 1)], ofList [(⟨3⟩, 1)]⟩
  | "left" => .ok ⟨1, ofList [("base", 1)], ofList [(⟨2⟩, 1)]⟩
  | "right" => .ok ⟨1, ofList [("middle", 1)], ofList [(⟨1⟩, 1)]⟩
  | "middle" => .ok ⟨1, ofList [("base", 1)], .empty⟩
  | _ => .ok (.ofKey 1 ⟨3⟩ 1)

def keyedVaultGetters : Getters := ⟨keyedVaultGetter, fun _ => .ok (.ofKey 1 ⟨9⟩ 1), keyedVaultGetter⟩

def vaultKeys : FlatSet PublicKey := ((FlatSet.empty.insert ⟨1⟩).insert ⟨2⟩).insert ⟨3⟩

theorem minimize_required_signatures_vault :
    blankCrypto.getRequiredSignatures .bip0062
      (unsignedTransfer "vault") vaultKeys keyedVaultGetters = .ok vaultKeys ∧
    Enough {} (unsignedTransfer "vault").operations keyedVaultGetters vaultKeys ∧
    blankCrypto.minimizeRequiredSignatures .bip0062 (unsignedTransfer "vault") vaultKeys keyedVaultGetters =
      .ok ((FlatSet.empty.insert ⟨1⟩).insert ⟨3⟩) ∧
    Enough {} (unsignedTransfer "vault").operations keyedVaultGetters
      (((FlatSet.empty.insert ⟨1⟩).insert ⟨3⟩).erase ⟨1⟩) := by
  decide +kernel

end Xgt
