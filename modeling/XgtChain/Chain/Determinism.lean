import XgtChain.Chain.EnvReads
import XgtChain.Chain.PushBlock

/-!
# What a block does on two nodes

Applying a block reads the stored chain, and one thing that no other node knows: the keys that the node
draws at random for the receiver of a transfer, if it does not exist.
-/

namespace Xgt

open Base List Objects Except

structure Env.SameView (s : Objects) (b : SignedBlock) (env env' : Env) : Prop where
  skip : env'.skip = env.skip
  producing : env'.producing = env.producing
  pendingTx : env'.pendingTx = env.pendingTx
  headBlock : env'.fetchBlockById s.headBlockId = env.fetchBlockById s.headBlockId
  priorBlock : 302400 < b.blockNum →
    env'.fetchPriorBlock (b.blockNum - 302400) = env.fetchPriorBlock (b.blockNum - 302400)

namespace Objects

variable {s s' : Objects} {cr : Crypto} {P : Params} {env env' : Env} {b : SignedBlock}
variable {u : Objects} {U : Set WalletName} {u' : Objects} {op : Operation}

def ReachesTransfer (P : Params) (env : Env) (s : Objects) (b : SignedBlock) (u : Objects)
    (o : TransferOperation) : Prop :=
  ∃ t v v1 before after, IsStateFor P env s b t v ∧
    t.operations = before ++ .transfer o :: after ∧ v.recordTransaction P.toCrypto t env = .ok v1 ∧
    v1.applyOperations P.toCrypto env before = .ok u

/-- No transfer of the block creates its receiver. -/
def ReceiversExist (P : Params) (env : Env) (s : Objects) (b : SignedBlock) : Prop :=
  ∀ u o, ReachesTransfer P env s b u o → (u.findAccount o.toWallet).isSome

theorem applyOperation_sameView (hproducing : env'.producing = env.producing)
    (hpending : env'.pendingTx = env.pendingTx)
    (hhead : env'.fetchBlockById s.headBlockId = env.fetchBlockById s.headBlockId)
    (hreceiver : ∀ o, op = .transfer o → (s.findAccount o.toWallet).isSome) :
    s.applyOperation cr env op = s.applyOperation cr env' op := by
  unfold applyOperation
  cases op with
  | transfer o =>
    obtain ⟨r, hr⟩ := Option.isSome_iff_exists.1 (hreceiver o rfl)
    simp only [applyTransfer, createReceiver, hr]
  | custom o => simp only [applyCustom, hproducing]
  | customJson o => simp only [applyCustomJson, hproducing]
  | pow o => simp only [applyPow, checkPow, previousBlockId, hhead]
  | xttSetup o => simp only [applyXttSetup, pushRequiredAction, hpending]
  | xttCreate o => simp only [applyXttCreate, hpending]
  | _ => rfl

theorem applyBlock_sameView (h : env.SameView s b env') (hreceivers : ReceiversExist P env s b) :
    s.applyBlock P env b = s.applyBlock P env' b := by
  refine applyBlock_congr h.skip.symm ?_ fun hne hone => (h.priorBlock (by omega)).symm
  intro t v v1 before op after u hv hsplit hv1 hu hpart
  have hhead : u.headBlockId = s.headBlockId := congrArg ChainPart.headBlockId hpart
  refine applyOperation_sameView h.producing h.pendingTx (hhead ▸ h.headBlock) ?_
  rintro o rfl
  exact hreceivers u o ⟨t, v, v1, before, after, hv, hsplit, hv1, hu⟩

def Diverged (U : Set WalletName) (s s' : Objects) : Prop :=
  ∃ id a a', (id, a) ∈ s.authorities.rows ∧ (id, a') ∈ s'.authorities.rows ∧ a ≠ a' ∧
    a.account ∉ U ∧ a'.account ∉ U

theorem Diverged.ne (h : Diverged U s s') : s ≠ s' := by
  rintro rfl
  obtain ⟨id, a, a', ha, ha', hne, -⟩ := h
  exact hne (congrArg Prod.snd (ObjectIndex.eq_of_mem ha ha' rfl))

theorem Diverged.of_authorities (h : Diverged U s s') (hs : u.authorities = s.authorities)
    (hs' : u'.authorities = s'.authorities) : Diverged U u u' := by
  obtain ⟨id, a, a', ha, ha', hrest⟩ := h
  exact ⟨id, a, a', hs ▸ ha, hs' ▸ ha', hrest⟩

theorem Diverged.operation (h : Diverged U s s') (hop : ∀ o, op = .walletUpdate o → o.wallet ∈ U)
    (hu : s.applyOperation cr env op = .ok u) (hu' : s'.applyOperation cr env' op = .ok u') :
    Diverged U u u' := by
  obtain ⟨id, a, a', ha, ha', hne, hU, hU'⟩ := h
  have hkept (w : WalletName) (hw : w ∉ U) : ¬Rewrites op w := by
    intro hrew
    unfold Rewrites at hrew
    split at hrew
    · next o => exact hw (hrew ▸ hop o rfl)
    · exact hrew
  exact ⟨id, a, a', applyOperation_keptRow hu ha (hkept _ hU),
    applyOperation_keptRow hu' ha' (hkept _ hU'), hne, hU, hU'⟩

def otherKeys (random : Nat → RandomKeys) (id : Nat) : RandomKeys :=
  { random id with recovery := ⟨(random id).recovery.data + 1⟩ }

theorem applyTransfer_diverged {o : TransferOperation} (hmissing : s.findAccount o.toWallet = none)
    (hU : o.toWallet ∉ U) (hu : s.applyTransfer env o = .ok u)
    (hu' : s.applyTransfer { env with random := otherKeys env.random } o = .ok u') : Diverged U u u' := by
  have hrow {env : Env} {u : Objects} (hu : s.applyTransfer env o = .ok u) :
      (s.authorities.nextId, ({ account := o.toWallet
                                recovery := .ofKey 1 (env.random s.wallets.nextId).recovery 1
                                money := .ofKey 1 (env.random s.wallets.nextId).money 1
                                social := .ofKey 1 (env.random s.wallets.nextId).social 1 } :
        AccountAuthorityObject)) ∈ u.authorities.rows := by
    unfold applyTransfer at hu
    simp only [bind_ok_iff] at hu
    obtain ⟨v, hnew, _, -, v', hspent, hu⟩ := hu
    have hauth : u.authorities = v.authorities :=
      congrArg Prod.snd ((adjustBalance_frame hu).trans (adjustBalance_frame hspent))
    unfold createReceiver at hnew
    rw [hmissing] at hnew
    obtain ⟨_, -, hnew⟩ := of_bind hnew
    obtain ⟨auths, hauths, hnew⟩ := of_bind hnew
    cases hnew
    rw [hauth]
    dsimp only
    rw [ObjectIndex.create?_eq (dbCreate_ok_iff.1 hauths)]
    exact mem_concat_self
  refine ⟨_, _, _, hrow hu, hrow hu', fun heq => ?_, hU, hU⟩
  have hkeys : (env.random s.wallets.nextId).recovery =
      (otherKeys env.random s.wallets.nextId).recovery :=
    (cons.inj (congrArg (fun a => a.recovery.getKeys) heq)).1
  exact absurd (congrArg PublicKey.data hkeys) (Nat.ne_of_lt (Nat.lt_succ_self _))

/-! ### In lockstep -/

section Lockstep

variable {U : Set WalletName} {R : Objects → Objects → Prop} {u u' : Objects}

structure OpSplit (U : Set WalletName) (op : Operation) : Prop where
  update : ∀ o, op = .walletUpdate o → o.wallet ∈ U
  transfer : ∀ o, op = .transfer o → o.toWallet ∉ U

structure Lockstep (cr : Crypto) (env env' : Env) (U : Set WalletName)
    (R : Objects → Objects → Prop) : Prop where
  record : ∀ {t s s' u u'}, R s s' → s.recordTransaction cr t env = .ok u →
    s'.recordTransaction cr t env' = .ok u' → R u u'
  operation : ∀ {op s s' u u'}, OpSplit U op → R s s' → s.applyOperation cr env op = .ok u →
    s'.applyOperation cr env' op = .ok u' → R u u'

theorem Lockstep.operations (hR : Lockstep cr env env' U R) {ops : List Operation}
    (hops : ∀ op ∈ ops, OpSplit U op) (hs : R s s') (h : s.applyOperations cr env ops = .ok u)
    (h' : s'.applyOperations cr env' ops = .ok u') : R u u' :=
  foldlM_ok_rel h h' hs fun _ _ op _ _ hop hrel hstep hstep' =>
    hR.operation (hops op hop) hrel (plainError_ok_iff.1 hstep) (plainError_ok_iff.1 hstep')

theorem Lockstep.transactions (hR : Lockstep cr env env' U R) {txs : List SignedTransaction}
    (hops : ∀ t ∈ txs, ∀ op ∈ t.operations, OpSplit U op) (hs : R s s')
    (h : s.applyTransactions cr env txs = .ok u) (h' : s'.applyTransactions cr env' txs = .ok u') :
    R u u' := by
  refine foldlM_ok_rel h h' hs fun v v' t w w' ht hrel hstep hstep' => ?_
  obtain ⟨v1, hrecord, hrun⟩ := applyTransaction_run hstep
  obtain ⟨v1', hrecord', hrun'⟩ := applyTransaction_run hstep'
  exact hR.operations (hops t ht) (hR.record hrel hrecord hrecord') hrun hrun'

theorem lockstep_diverged : Lockstep cr env env' U (Diverged U) where
  record hrel h h' := hrel.of_authorities (congrArg Prod.snd (recordTransaction_frame h))
    (congrArg Prod.snd (recordTransaction_frame h'))
  operation hop hrel h h' := hrel.operation hop.update h h'

theorem lockstep_eq_or_diverged :
    Lockstep cr env { env with random := otherKeys env.random } U
      (fun s s' => s = s' ∨ Diverged U s s') where
  record := by
    rintro t s s' u u' (rfl | hrel) h h'
    · exact .inl (ok.inj (h.symm.trans h'))
    · exact .inr (lockstep_diverged.record hrel h h')
  operation := by
    rintro op s s' u u' hop (rfl | hrel) h h'
    · by_cases hdrawn : ∃ o, op = .transfer o ∧ s.findAccount o.toWallet = none
      · obtain ⟨o, rfl, hmissing⟩ := hdrawn
        exact .inr (applyTransfer_diverged hmissing (hop.transfer o rfl) h h')
      · have hsame : s.applyOperation cr env op =
            s.applyOperation cr { env with random := otherKeys env.random } op :=
          applyOperation_sameView rfl rfl rfl fun o ho =>
            Option.isSome_iff_ne_none.2 fun hnone => hdrawn ⟨o, ho, hnone⟩
        exact .inl (ok.inj (h.symm.trans (hsame.trans h')))
    · exact .inr (hrel.operation hop.update h h')

end Lockstep

/-- The block updates no wallet that it pays. -/
def KeepsReceivers (b : SignedBlock) : Prop :=
  ∀ t ∈ b.transactions, ∀ o, Operation.transfer o ∈ t.operations → ∀ t' ∈ b.transactions,
    ∀ o', Operation.walletUpdate o' ∈ t'.operations → o'.wallet ≠ o.toWallet

theorem applyBlock_ne_of_drawn {u : Objects} {o : TransferOperation}
    (h : s.applyBlock P env b = .ok s') (hkeeps : KeepsReceivers b)
    (hreach : ReachesTransfer P env s b u o) (hmissing : u.findAccount o.toWallet = none) :
    s.applyBlock P { env with random := otherKeys env.random } b ≠ .ok s' := by
  intro h'
  let U : Set WalletName := {w | ∃ t ∈ b.transactions, ∃ o, Operation.walletUpdate o ∈ t.operations ∧
    o.wallet = w}
  have hsplit : ∀ t ∈ b.transactions, ∀ op ∈ t.operations, OpSplit U op := by
    intro t ht op hop
    refine ⟨fun o ho => ⟨t, ht, o, ho ▸ hop, rfl⟩, ?_⟩
    rintro o rfl ⟨t', ht', o', ho', hw⟩
    exact hkeeps t ht o hop t' ht' o' ho' hw
  obtain ⟨s1, s2, hheader, -, htxs, hfinish⟩ := applyBlock_ok h
  obtain ⟨s1', s2', hheader', -, htxs', hfinish'⟩ := applyBlock_ok h'
  obtain ⟨t, v, v1, before, after, ⟨x, txs, rest, hx, htx, hv⟩, hops, hrecord, hu⟩ := hreach
  obtain rfl : s1 = s1' := ok.inj (hheader.symm.trans hheader')
  obtain rfl : s1 = x := ok.inj (hheader.symm.trans hx)
  -- the two runs up to the transaction, up to the operation, over the operation, and to the end
  rw [htx] at hsplit htxs htxs'
  rw [applyTransactions, foldlM_append] at htxs htxs'
  obtain ⟨w, hw, htxs⟩ := of_bind htxs
  obtain ⟨v', hv', htxs'⟩ := of_bind htxs'
  obtain rfl : w = v := ok.inj (hw.symm.trans hv)
  obtain ⟨y, hy, hrest⟩ := foldlM_cons_ok_iff.1 htxs
  obtain ⟨y', hy', hrest'⟩ := foldlM_cons_ok_iff.1 htxs'
  have hopsSplit := hsplit t (by simp)
  have hreachTx : w = v' ∨ Diverged U w v' :=
    lockstep_eq_or_diverged.transactions (fun t ht => hsplit t (by simp [ht])) (.inl rfl) hv hv'
  obtain ⟨w1, hrecord1, hrun⟩ := applyTransaction_run hy
  obtain rfl : w1 = v1 := ok.inj (hrecord1.symm.trans hrecord)
  obtain ⟨v1', hrecord', hrun'⟩ := applyTransaction_run hy'
  rw [hops] at hopsSplit hrun hrun'
  rw [applyOperations, foldlM_append] at hrun hrun'
  obtain ⟨z, hz, hrun⟩ := of_bind hrun
  obtain ⟨u', hu', hrun'⟩ := of_bind hrun'
  obtain rfl : z = u := ok.inj (hz.symm.trans hu)
  obtain ⟨q, hq, hlast⟩ := foldlM_cons_ok_iff.1 hrun
  obtain ⟨q', hq', hlast'⟩ := foldlM_cons_ok_iff.1 hrun'
  have hreachOp : z = u' ∨ Diverged U z u' :=
    lockstep_eq_or_diverged.operations (fun op hop => hopsSplit op (by simp [hop]))
      (lockstep_eq_or_diverged.record hreachTx hrecord hrecord') hu hu'
  have hop := hopsSplit (.transfer o) (by simp)
  have hapart : Diverged U q q' := by
    rcases hreachOp with rfl | hrel
    · exact applyTransfer_diverged hmissing (hop.transfer o rfl) (plainError_ok_iff.1 hq)
        (plainError_ok_iff.1 hq')
    · exact hrel.operation hop.update (plainError_ok_iff.1 hq) (plainError_ok_iff.1 hq')
  have hapartTx : Diverged U y y' :=
    lockstep_diverged.operations (fun op hop => hopsSplit op (by simp [hop])) hapart hlast hlast'
  have hapartTxs : Diverged U s2 s2' :=
    lockstep_diverged.transactions (fun t ht => hsplit t (by simp [ht])) hapartTx hrest hrest'
  obtain ⟨target, hframe⟩ := finishBlock_frame hfinish
  obtain ⟨target', hframe'⟩ := finishBlock_frame hfinish'
  exact (hapartTxs.of_authorities (congrArg Prod.snd hframe) (congrArg Prod.snd hframe')).ne rfl

end Objects

namespace Node

variable {P : Params} {n n' : Node P} {skip : SkipFlags} {pinned : List ForkItem} {b : SignedBlock}

def stored (n : Node P) : UndoStack Objects × ForkDatabase P.toCrypto × List SignedBlock :=
  (n.db, n.forkDb, n.blockLog)

theorem stored_eq_iff :
    n'.stored = n.stored ↔ n'.db = n.db ∧ n'.forkDb = n.forkDb ∧ n'.blockLog = n.blockLog := by
  simp [stored]

theorem env_sameView (h : n'.stored = n.stored) :
    (n.env skip false).SameView n.objects b (n'.env skip false) := by
  obtain ⟨-, hfork, hlog⟩ := stored_eq_iff.1 h
  have hread (num : Nat) : n'.readBlockByNum num = n.readBlockByNum num := by
    rw [readBlockByNum, readBlockByNum, hlog]
  refine ⟨rfl, rfl, rfl, ?_, ?_⟩
  · simp only [env, fetchBlockById, hfork, hread]
  · intro _
    simp only [env, fetchPriorBlock, hfork, hread]

theorem migrateIrreversibleState_stored (skip : SkipFlags) (pinned : List ForkItem)
    (h : n'.stored = n.stored) :
    (n'.migrateIrreversibleState skip pinned).map stored =
      (n.migrateIrreversibleState skip pinned).map stored := by
  obtain ⟨hdb, hfork, hlog⟩ := stored_eq_iff.1 h
  have hobjects : n'.objects = n.objects := congrArg UndoStack.state hdb
  have hcheck : n'.checkForkHead = n.checkForkHead := by
    unfold checkForkHead
    rw [hfork, hobjects]
  have hwrite : n'.blocksToWrite skip pinned = n.blocksToWrite skip pinned := by
    have hmain : n'.mainBranchBlock pinned = n.mainBranchBlock pinned := by
      funext num
      unfold mainBranchBlock
      rw [hfork]
    unfold blocksToWrite
    rw [hmain, logHeadNum, logHeadNum, hlog, hobjects]
  unfold migrateIrreversibleState
  rw [hcheck, hwrite, hobjects]
  cases n.checkForkHead with
  | error e => rfl
  | ok u =>
    cases n.blocksToWrite skip pinned with
    | error e => rfl
    | ok blocks => simp [bind, Except.bind, pure, Except.pure, Except.map, stored, hdb, hfork, hlog]

theorem applyBlock_deterministic (P : Params) (n n' : Node P) (skip : SkipFlags)
    (pinned : List ForkItem) (b : SignedBlock) (h : n'.stored = n.stored) :
    (ReceiversExist P (n.env skip false) n.objects b →
      (n'.applyBlock skip pinned b).2 = (n.applyBlock skip pinned b).2 ∧
      (n'.applyBlock skip pinned b).1.stored = (n.applyBlock skip pinned b).1.stored) ∧
    (∀ s', n.objects.applyBlock P (n.env skip false) b = .ok s' → KeepsReceivers b →
      ¬ReceiversExist P (n.env skip false) n.objects b →
      ∃ random, n.objects.applyBlock P { n.env skip false with random := random } b ≠ .ok s') := by
  obtain ⟨hdb, hfork, hlog⟩ := stored_eq_iff.1 h
  constructor
  · intro hreceivers
    have hobjects : n'.objects = n.objects := congrArg UndoStack.state hdb
    have hsame := applyBlock_sameView (env_sameView h) hreceivers
    unfold applyBlock
    rw [hobjects, ← hsame]
    cases n.objects.applyBlock P (n.env skip false) b with
    | error e => exact ⟨rfl, h⟩
    | ok s =>
      have hstart : ({ n'.hand b with db := n'.db.start.set s } : Node P).stored =
          ({ n.hand b with db := n.db.start.set s } : Node P).stored := by
        simp [stored, hand, hdb, hfork, hlog]
      have hmigrate := migrateIrreversibleState_stored skip pinned hstart
      cases hx : ({ n.hand b with db := n.db.start.set s } : Node P).migrateIrreversibleState skip pinned with
      | error e =>
        rw [hx] at hmigrate
        have hx' := map_error_iff.1 hmigrate
        rw [hand] at hx hx'
        simp only [hx, hx', true_and]
        exact h
      | ok m =>
        rw [hx] at hmigrate
        obtain ⟨m', hx', hm'⟩ := map_ok_iff.1 hmigrate
        rw [hand] at hx hx'
        simp only [hx, hx', true_and]
        exact hm'
  · intro s' hs' hkeeps hnot
    obtain ⟨u, o, hreach, hmissing⟩ : ∃ u o, ReachesTransfer P (n.env skip false) n.objects b u o ∧
        u.findAccount o.toWallet = none := by
      by_contra hall
      refine hnot fun u o hreach => Option.isSome_iff_ne_none.2 fun hnone => hall ⟨u, o, hreach, hnone⟩
    exact ⟨_, applyBlock_ne_of_drawn hs' hkeeps hreach hmissing⟩

/-! ## Two nodes, computed -/

def drawParams : Params :=
  { toyParams with random := fun call _ => ⟨⟨900 + call⟩, ⟨901⟩, ⟨902⟩, ⟨903⟩⟩ }

def drawNode (calls : Nat) : Node drawParams := { init drawParams with draws := calls }

def payBlock (receiver : WalletName) : SignedBlock :=
  toyBlock .zero 3
    [toyTransaction 0 [.transfer { toyTransfer with toWallet := receiver }] [1]]

theorem payBlock_reaches {P : Params} {env : Env} {s u : Objects} {receiver : WalletName}
    {o : TransferOperation} (h : ReachesTransfer P env s (payBlock receiver) u o) :
    u.wallets = s.wallets ∧ o.toWallet = receiver := by
  obtain ⟨t, v, v1, before, after, ⟨s1, txs, rest, hheader, htx, hv⟩, hops, hrecord, hu⟩ := h
  have hnone : txs = [] ∧ t = toyTransaction 0
      [.transfer { toyTransfer with toWallet := receiver }] [1] := by
    cases txs with
    | nil => exact ⟨rfl, (cons.inj htx).1.symm⟩
    | cons t' txs => exact absurd (cons.inj htx).2 (by simp)
  obtain ⟨rfl, rfl⟩ := hnone
  have hfirst : before = [] ∧ o = { toyTransfer with toWallet := receiver } := by
    cases before with
    | nil => exact ⟨rfl, (Operation.transfer.inj (cons.inj hops).1).symm⟩
    | cons op before => exact absurd (cons.inj hops).2 (by simp)
  obtain ⟨rfl, rfl⟩ := hfirst
  cases hheader
  cases hv
  cases hu
  unfold recordTransaction at hrecord
  split_ifs at hrecord
  · cases hrecord
    exact ⟨rfl, rfl⟩
  · obtain ⟨_, -, hrecord⟩ := of_bind hrecord
    cases hrecord
    exact ⟨rfl, rfl⟩

theorem payBlock_deterministic :
    (((drawNode 1).applyBlock skipNothing [] (payBlock xgtTempWallet)).2 =
        ((drawNode 0).applyBlock skipNothing [] (payBlock xgtTempWallet)).2 ∧
      ((drawNode 1).applyBlock skipNothing [] (payBlock xgtTempWallet)).1.stored =
        ((drawNode 0).applyBlock skipNothing [] (payBlock xgtTempWallet)).1.stored) ∧
    ∃ s' random, (drawNode 0).objects.applyBlock drawParams ((drawNode 0).env skipNothing false)
        (payBlock "XGTnew") = .ok s' ∧
      (drawNode 0).objects.applyBlock drawParams
        { (drawNode 0).env skipNothing false with random := random } (payBlock "XGTnew") ≠ .ok s' := by
  constructor
  · refine (applyBlock_deterministic drawParams (drawNode 0) (drawNode 1) skipNothing [] _ rfl).1 ?_
    intro u o hreach
    obtain ⟨hwallets, hreceiver⟩ := payBlock_reaches hreach
    rw [findAccount, hwallets, hreceiver]
    decide
  · have hrun : ((drawNode 0).objects.applyBlock drawParams ((drawNode 0).env skipNothing false)
        (payBlock "XGTnew")).toOption.any (fun _ => true) = true := by decide +kernel
    obtain ⟨s', hs', -⟩ := exists_ok_of_any hrun
    have hrecord : ((drawNode 0).objects.recordTransaction drawParams.toCrypto
        (toyTransaction 0 [.transfer { toyTransfer with toWallet := "XGTnew" }] [1])
        ((drawNode 0).env skipNothing false)).toOption.any (fun _ => true) = true := by decide +kernel
    obtain ⟨v, hv, -⟩ := exists_ok_of_any hrecord
    have hreach : ReachesTransfer drawParams ((drawNode 0).env skipNothing false)
        (drawNode 0).objects (payBlock "XGTnew") v { toyTransfer with toWallet := "XGTnew" } :=
      ⟨_, _, v, [], [], ⟨_, [], [], rfl, rfl, rfl⟩, rfl, hv, rfl⟩
    have hmissing : (v.findAccount "XGTnew").isSome = false := by
      rw [findAccount, (payBlock_reaches hreach).1]
      decide
    have hkeeps : KeepsReceivers (payBlock "XGTnew") := by
      simp [KeepsReceivers, payBlock, toyBlock, toyTransaction]
    obtain ⟨random, hrandom⟩ := (applyBlock_deterministic drawParams (drawNode 0) (drawNode 1)
      skipNothing [] (payBlock "XGTnew") rfl).2 s' hs' hkeeps fun hall =>
        Bool.false_ne_true (hmissing.symm.trans (hall v _ hreach))
    exact ⟨s', random, hs', hrandom⟩

theorem payBlock_splits_nodes :
    (drawNode 1).stored = (drawNode 0).stored ∧
      ((drawNode 0).applyBlock skipNothing [] (payBlock "XGTnew")).2 = .ok () ∧
      ((drawNode 1).applyBlock skipNothing [] (payBlock "XGTnew")).2 = .ok () ∧
      ((drawNode 1).applyBlock skipNothing [] (payBlock "XGTnew")).1.stored ≠
        ((drawNode 0).applyBlock skipNothing [] (payBlock "XGTnew")).1.stored := by
  refine ⟨rfl, by decide +kernel, by decide +kernel, fun heq => ?_⟩
  have hsame := congrArg (fun c => (c.1.state.findAuthority "XGTnew").map fun r => r.2.recovery) heq
  exact absurd hsame (by decide +kernel)

end Node

end Xgt
