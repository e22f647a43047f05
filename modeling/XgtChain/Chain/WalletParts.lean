import XgtChain.Chain.OperationRuns
import XgtChain.Chain.PushBlock

/-!
# The parts of a wallet

A wallet has a row in the table of wallets and one in the table of authorities, which carries its name.
-/

namespace Xgt

open Base ObjectIndex List

namespace Objects

variable {s s' s'' : Objects} {cr : Crypto} {env : Env} {op : Operation} {o : WalletUpdateOperation}

def walletNames (s : Objects) : List WalletName := s.wallets.objects.map fun w => w.name

def authorityNames (s : Objects) : List WalletName := s.authorities.objects.map fun a => a.account

structure NamesGrow (names : List WalletName) (s s' : Objects) : Prop where
  wallets : s'.walletNames = s.walletNames ++ names
  authorities : s'.authorityNames = s.authorityNames ++ names

theorem NamesGrow.refl : NamesGrow [] s s := ⟨(append_nil _).symm, (append_nil _).symm⟩

theorem NamesGrow.trans {names names' : List WalletName} (h : NamesGrow names s s')
    (h' : NamesGrow names' s' s'') : NamesGrow (names ++ names') s s'' :=
  ⟨by rw [h'.wallets, h.wallets, append_assoc], by rw [h'.authorities, h.authorities, append_assoc]⟩

theorem NamesGrow.keep {names : List WalletName} (h : NamesGrow names s s') (h' : NamesGrow [] s' s'') :
    NamesGrow names s s'' := by
  have hgrow := h.trans h'
  rwa [append_nil] at hgrow

theorem NamesGrow.of_eq (hwallets : s'.wallets = s.wallets) (hauths : s'.authorities = s.authorities) :
    NamesGrow [] s s' := by
  constructor
  · rw [walletNames, hwallets, append_nil]
    rfl
  · rw [authorityNames, hauths, append_nil]
    rfl

theorem map_rows_set {α β : Type} {t : ObjectIndex α} {f : Nat × α → β} {id : Nat} {old a : α}
    (hrow : (id, old) ∈ t.rows) (hf : f (id, a) = f (id, old)) : (t.set id a).rows.map f = t.rows.map f := by
  unfold ObjectIndex.set
  rw [map_map]
  refine map_congr_left fun r hr => ?_
  simp only [Function.comp_apply, ObjectIndex.setRow]
  split_ifs with hid
  · rw [hf, eq_of_mem hr hrow hid]
  · rfl

theorem createWallet_names (name : WalletName) {memo : PublicKey} {auth : AccountAuthorityObject}
    (hauth : auth.account = name) (h : s.createWallet name memo auth = .ok s') :
    NamesGrow [name] s s' ∧ name ∉ s.walletNames := by
  obtain ⟨wallets, auths, hwallet, hauths, rfl⟩ := createWallet_ok h
  refine ⟨⟨?_, ?_⟩, fun hmem => ?_⟩
  · simp [walletNames, create?_eq hwallet, ObjectIndex.objects, ObjectIndex.append]
  · simp [authorityNames, create?_eq hauths, ObjectIndex.objects, ObjectIndex.append, hauth]
  · obtain ⟨w, hw, hname⟩ := mem_map.1 hmem
    exact of_decide_eq_false ((create?_eq_some_iff.1 hwallet).1 w hw) hname.symm

theorem Does.namesGrow (h : Does (Makes cr op) s s') : NamesGrow [] s s' := by
  refine h.lift (R := NamesGrow []) (fun _ => .refl) .keep ?_
  intro s s' c hc hrun
  obtain ⟨-, -, hof⟩ := hc
  cases hrun with
  | wallet hrun =>
    cases hrun with
    | modify hrow hmod hkeys =>
      refine ⟨?_, (append_nil _).symm⟩
      simp only [walletNames, ObjectIndex.objects, modify?_eq hmod, append_nil, map_map]
      exact map_rows_set hrow (name_eq_of_sameKeys hkeys)
    | _ => exact hof.elim
  | authority hrun =>
    cases hrun with
    | modify hrow hmod _ =>
      refine ⟨(append_nil _).symm, ?_⟩
      simp only [authorityNames, ObjectIndex.objects, modify?_eq hmod, append_nil, map_map]
      exact map_rows_set hrow hof.2
    | _ => exact hof.elim
  | _ => exact .of_eq rfl rfl

theorem applyOperation_names (h : s.applyOperation cr env op = .ok s') :
    NamesGrow (op.creates cr s).toList s s' := by
  obtain ⟨u, u', hbefore, hcreates, hafter⟩ := applyOperation_parts h
  refine (hbefore.namesGrow.trans ?_).keep hafter.namesGrow
  cases hcreates with
  | none hnone => exact hnone ▸ .refl
  | some hname _ haccount _ hnew => exact hname ▸ (createWallet_names _ haccount hnew).1

theorem creates_new {name : WalletName} (h : s.applyOperation cr env op = .ok s')
    (hname : op.creates cr s = some name) : name ∉ s.walletNames := by
  obtain ⟨u, u', hbefore, hcreates, -⟩ := applyOperation_parts h
  rw [← append_nil s.walletNames, ← hbefore.namesGrow.wallets]
  cases hcreates with
  | none hnone =>
    rw [hname] at hnone
    cases hnone
  | some hcreated _ haccount _ hnew =>
    rw [hname] at hcreated
    cases hcreated
    exact (createWallet_names _ haccount hnew).2

theorem setWalletData_metadata (hnone : s.metadata.rows = []) (h : s.setWalletData o = .ok s') :
    o.jsonMetadata = "" ∧ o.socialJsonMetadata = "" ∧ s'.metadata = s.metadata := by
  obtain ⟨w, a, wallets, -, -, -, ⟨hjson, hsocial, rfl⟩ | ⟨m, b, metadata, hm, -⟩⟩ := setWalletData_ok h
  · exact ⟨hjson, hsocial, rfl⟩
  · rw [hnone] at hm
    exact absurd hm not_mem_nil

theorem Does.metadata_eq {p : Call → Prop} {ts : List TableName} (h : Does (Call.On ts p) s s')
    (hts : TableName.accountMetadata ∉ ts) : s'.metadata = s.metadata := by
  refine h.keeps Objects.metadata fun hc hrun => ?_
  cases hrun with
  | metadata h => exact absurd hc.1 hts
  | _ => rfl

theorem applyWalletUpdate_metadata (hnone : s.metadata.rows = []) (h : s.applyWalletUpdate o = .ok s') :
    o.jsonMetadata = "" ∧ o.socialJsonMetadata = "" ∧ s'.metadata = s.metadata := by
  obtain ⟨s1, s2, s3, h1, h2, h3, h4⟩ := applyWalletUpdate_ok h
  have hfirst : s1.metadata = s.metadata := (upsertWallet_still h1).metadata_eq (by decide)
  have hsecond : s2.metadata = s1.metadata := (setRecovery_still h2).metadata_eq (by decide)
  have hlast : s'.metadata = s3.metadata := (setMoneySocial_still h4).metadata_eq (by decide)
  obtain ⟨hjson, hsocial, hthird⟩ := setWalletData_metadata (by rw [hsecond, hfirst, hnone]) h3
  exact ⟨hjson, hsocial, by rw [hlast, hthird, hsecond, hfirst]⟩

theorem applyOperation_metadata (hnone : s.metadata.rows = [])
    (h : s.applyOperation cr env op = .ok s') : s'.metadata = s.metadata := by
  have same (hmeta : TableName.accountMetadata ∉ op.tables) : s'.metadata = s.metadata :=
    (applyOperation_calls h).metadata_eq hmeta
  cases op with
  | walletUpdate o => exact (applyWalletUpdate_metadata hnone h).2.2
  | _ => exact same (by simp [Operation.tables])

/-! ## Whole wallets -/

def genesisWallets : List WalletName :=
  [xgtMinerWallet, xgtInitMinerName, xgtNullWallet, xgtTreasuryWallet, xgtTempWallet]

def walletIds (s : Objects) : List (Nat × WalletName) := s.wallets.rows.map fun r => (r.1, r.2.name)

/-- Each wallet has its authorities, and no other has any. -/
structure AuthoritiesWhole (s : Objects) : Prop where
  one : ∀ name ∈ s.walletNames, name ∉ genesisWallets → s.authorityNames.count name = 1
  owned : ∀ name ∈ s.authorityNames, name ∈ s.walletNames

/-- Each wallet also has its metadata. -/
structure WalletsWhole (s : Objects) : Prop extends AuthoritiesWhole s where
  metadata : ∀ w ∈ s.walletIds, w.2 ∉ genesisWallets → s.metadata.objects.countP (fun m => m.account = w.1) = 1
  metadataOwned : ∀ m ∈ s.metadata.objects, ∃ w ∈ s.walletIds, w.1 = m.account

theorem walletNames_eq (s : Objects) : s.walletNames = s.walletIds.map Prod.snd := by
  simp [walletNames, walletIds, ObjectIndex.objects]

structure Bare (s : Objects) : Prop where
  authorities : s.AuthoritiesWhole
  metadata : s.metadata.rows = []
  genesis : ∀ name ∈ genesisWallets, name ∈ s.walletNames

theorem Bare.step (h : s.Bare) (hop : s.applyOperation cr env op = .ok s') : s'.Bare := by
  have hgrow := applyOperation_names hop
  refine ⟨⟨fun name hname hnew => ?_, fun name hname => ?_⟩, ?_, fun name hname => ?_⟩
  · rw [hgrow.wallets] at hname
    rw [hgrow.authorities, count_append]
    cases hcreates : op.creates cr s with
    | none =>
      rw [hcreates] at hname
      simpa using h.authorities.one name (by simpa using hname) hnew
    | some created =>
      rw [hcreates] at hname
      have hfresh := creates_new hop hcreates
      rcases mem_append.1 hname with hold | hcreated
      · have hne : created ≠ name := fun heq => hfresh (heq ▸ hold)
        rw [h.authorities.one name hold hnew]
        simp [hne]
      · have heq : name = created := by simpa using hcreated
        subst heq
        rw [count_eq_zero.2 fun hmem => hfresh (h.authorities.owned name hmem)]
        simp
  · rw [hgrow.authorities] at hname
    rw [hgrow.wallets]
    rcases mem_append.1 hname with hold | hcreated
    · exact mem_append_left _ (h.authorities.owned name hold)
    · exact mem_append_right _ hcreated
  · rw [applyOperation_metadata h.metadata hop, h.metadata]
  · rw [hgrow.wallets]
    exact mem_append_left _ (h.genesis name hname)

def Uncreated (s : Objects) : Prop := ∀ name ∈ s.walletNames, name ∈ genesisWallets

theorem mem_walletNames {w : Nat × WalletName} (h : w ∈ s.walletIds) : w.2 ∈ s.walletNames := by
  rw [walletNames_eq]
  exact mem_map_of_mem h

theorem Bare.whole (h : s.Bare) (hold : s.Uncreated) : s.WalletsWhole := by
  refine ⟨h.authorities, fun w hw hnew => absurd (hold _ (mem_walletNames hw)) hnew, fun m hm => ?_⟩
  simp [ObjectIndex.objects, h.metadata] at hm

theorem Bare.uncreated (h : s.Bare) (hwhole : s.WalletsWhole) : s.Uncreated := by
  intro name hname
  by_contra hnew
  rw [walletNames_eq] at hname
  obtain ⟨w, hw, rfl⟩ := mem_map.1 hname
  have hone := hwhole.metadata w hw hnew
  simp [ObjectIndex.objects, h.metadata] at hone

theorem Does.wallets_of_outside (h : Does Call.Outside s s') :
    s'.walletIds = s.walletIds ∧ s'.authorities = s.authorities ∧ s'.metadata = s.metadata := by
  refine h.lift (R := fun s s' => s'.walletIds = s.walletIds ∧ s'.authorities = s.authorities ∧
    s'.metadata = s.metadata) (fun _ => ⟨rfl, rfl, rfl⟩) (fun h h' => ⟨h'.1.trans h.1, h'.2.1.trans h.2.1,
      h'.2.2.trans h.2.2⟩) ?_
  intro s s' c hc hrun
  cases hrun with
  | wallet hwallet =>
    cases hwallet with
    | @modify id old a _ t' hrow hmod hkeys =>
      refine ⟨?_, rfl, rfl⟩
      rw [walletIds, modify?_eq hmod]
      exact map_rows_set hrow (Prod.ext rfl (name_eq_of_sameKeys hkeys))
    | _ => exact hc.elim
  | witness | transaction | dgp | blockSummary => exact ⟨rfl, rfl, rfl⟩
  | _ => exact hc.elim

theorem Does.names_of_outside (h : Does Call.Outside s s') :
    s'.walletNames = s.walletNames ∧ s'.authorityNames = s.authorityNames := by
  obtain ⟨hwallets, hauths, -⟩ := h.wallets_of_outside
  exact ⟨by rw [walletNames_eq, hwallets, walletNames_eq], by rw [authorityNames, hauths]; rfl⟩

theorem Bare.other (h : s.Bare) (hother : Does Call.Outside s s') : s'.Bare := by
  obtain ⟨-, -, hmeta⟩ := hother.wallets_of_outside
  obtain ⟨hnames, hauthNames⟩ := hother.names_of_outside
  obtain ⟨⟨hone, howned⟩, hnone, hgenesis⟩ := h
  exact ⟨⟨by rwa [hnames, hauthNames], by rwa [hnames, hauthNames]⟩, by rwa [hmeta], by rwa [hnames]⟩

theorem Uncreated.other (h : s.Uncreated) (hother : Does Call.Outside s s') : s'.Uncreated := by
  unfold Uncreated at h ⊢
  rwa [hother.names_of_outside.1]

theorem Uncreated.step (h : s.Uncreated) (hop : s.applyOperation cr env op = .ok s')
    (hnone : op.creates cr s = none) : s'.Uncreated := by
  unfold Uncreated at h ⊢
  rw [(applyOperation_names hop).wallets, hnone, Option.toList_none, append_nil]
  exact h

theorem Uncreated.creates_none (h : s'.Uncreated) (hbare : s.Bare)
    (hop : s.applyOperation cr env op = .ok s') : op.creates cr s = none := by
  cases hcreates : op.creates cr s with
  | none => rfl
  | some name =>
    have hmem : name ∈ s'.walletNames := by
      rw [(applyOperation_names hop).wallets, hcreates]
      exact mem_concat_self
    exact absurd (hbare.genesis name (h name hmem)) (creates_new hop hcreates)

theorem WalletsWhole.of_outside (h : s'.WalletsWhole) (hother : Does Call.Outside s s') : s.WalletsWhole := by
  obtain ⟨hwallets, -, hmeta⟩ := hother.wallets_of_outside
  obtain ⟨hnames, hauthNames⟩ := hother.names_of_outside
  obtain ⟨⟨hone, howned⟩, hmetadata, hmetadataOwned⟩ := h
  rw [hnames, hauthNames] at hone howned
  rw [hwallets, hmeta] at hmetadata hmetadataOwned
  exact ⟨⟨hone, howned⟩, hmetadata, hmetadataOwned⟩

end Objects

/-! ## Runs -/

open Objects

section Runs

variable {cr : Crypto} {key : PublicKey} {steps : List OpStep} {s : Objects}

theorem bare_genesis (key : PublicKey) : (genesis key).Bare := by
  have hwallets : (genesis key).walletNames = genesisWallets := rfl
  have hauths : (genesis key).authorityNames =
    [xgtMinerWallet, xgtInitMinerName, xgtNullWallet, xgtTempWallet] := rfl
  refine ⟨⟨fun name hname hnew => absurd (hwallets ▸ hname) hnew, fun name hname => ?_⟩, rfl,
    fun name hname => hwallets ▸ hname⟩
  rw [hauths] at hname
  rw [hwallets]
  simp only [mem_cons, not_mem_nil, or_false] at hname
  rcases hname with rfl | rfl | rfl | rfl <;> decide

theorem wallets_whole_iff (h : OperationRun cr (Operation.Valid cr) (genesis key) steps s) :
    ((∀ step ∈ steps, step.1.WalletsWhole) ∧ s.WalletsWhole ↔
        ∀ step ∈ steps, step.2.creates cr step.1 = none) ∧
      s.AuthoritiesWhole ∧ ∀ (o : WalletUpdateOperation) (s' : Objects),
        o.jsonMetadata ≠ "" ∨ o.socialJsonMetadata ≠ "" → s.applyWalletUpdate o ≠ .ok s' := by
  have hbare := (h.invariant (bare_genesis key) (fun _ hs _ hop => hs.step hop) fun hs hother =>
    hs.other hother).1
  refine ⟨?_, hbare.authorities, fun o s' hsets hok => ?_⟩
  · refine h.invariant_iff (I := WalletsWhole) (J := fun s => s.Bare ∧ s.Uncreated)
      ⟨bare_genesis key, fun _ hname => hname⟩ (fun hs => hs.1.whole hs.2) (fun hs _ hop => ?_)
      (fun hs hother => ⟨hs.1.other hother, hs.2.other hother⟩) fun hother hs' => hs'.of_outside hother
    exact ⟨fun hnone => ⟨hs.1.step hop, hs.2.step hop hnone⟩,
      fun hwhole => ((hs.1.step hop).uncreated hwhole).creates_none hs.1 hop⟩
  · obtain ⟨hjson, hsocial, -⟩ := applyWalletUpdate_metadata hbare.metadata hok
    exact hsets.elim (fun hne => hne hjson) fun hne => hne hsocial

theorem wallets_whole_create : ∃ (steps : List OpStep) (s : Objects),
    steps.length = 1 ∧ s.walletNames.length = 6 ∧
      ((∀ step ∈ steps, step.1.WalletsWhole) ∧ s.WalletsWhole ↔
        ∀ step ∈ steps, step.2.creates toyParams.toCrypto step.1 = none) ∧
      s.AuthoritiesWhole ∧ ∀ (o : WalletUpdateOperation) (s' : Objects),
        o.jsonMetadata ≠ "" ∨ o.socialJsonMetadata ≠ "" → s.applyWalletUpdate o ≠ .ok s' := by
  let ops : List Operation := [.walletCreate (toyCreate 5 6)]
  obtain ⟨s, hs, hlength⟩ := exists_ok_of_any
    (x := (genesis ⟨1⟩).applyOperations toyParams.toCrypto toyEnv ops)
    (p := fun s => s.walletNames.length = 6) (by decide +kernel)
  have hvalid : ops.forM (fun op => op.validate toyParams.toCrypto) = .ok () := by decide +kernel
  have hrun := OperationRun.of_applyOperations (V := Operation.Valid toyParams.toCrypto)
    (forM_ok_iff.1 hvalid) hs
  exact ⟨_, s, by decide +kernel, of_decide_eq_true hlength, wallets_whole_iff hrun⟩

theorem wallets_without_metadata : ∃ (blocks : List SignedBlock) (s : Objects) (name : WalletName),
    AcceptedChain toyParams blocks s ∧ name ∈ s.walletNames ∧ name ∉ genesisWallets ∧
      s.metadata.rows.length = 0 ∧ (s.applyWalletUpdate (toyUpdate name 7)).isOk = true ∧
      ∃ e, s.applyWalletUpdate { toyUpdate name 7 with jsonMetadata := "text" } = .error e ∧
        e.kind = .unknownKey := by
  let name := getWalletName toyParams.toCrypto [⟨5⟩]
  let blocks := toyRun [] .zero 3 [[.walletCreate (toyCreate 5 6)]]
  obtain ⟨s, hs, hcheck⟩ := exists_ok_of_any (x := runBlocks toyParams toyEnv blocks)
    (p := fun s => decide (name ∈ s.walletNames ∧ name ∉ genesisWallets ∧ s.metadata.rows.length = 0 ∧
      (s.applyWalletUpdate (toyUpdate name 7)).isOk = true) &&
      failsWith (s.applyWalletUpdate { toyUpdate name 7 with jsonMetadata := "text" }) fun e =>
        e.kind = .unknownKey)
    (by decide +kernel)
  obtain ⟨hparts, hrefused⟩ := Bool.and_eq_true_iff.1 hcheck
  obtain ⟨hmem, hnew, hempty, haccepted⟩ := of_decide_eq_true hparts
  obtain ⟨e, he, hkind⟩ := exists_error_of_failsWith hrefused
  exact ⟨blocks, s, name, acceptedChain_of_runBlocks rfl (by decide +kernel) hs, hmem, hnew, hempty,
    haccepted, e, he, of_decide_eq_true hkind⟩

end Runs

end Xgt
