import XgtChain.Chain.Determinism
import XgtChain.Chain.LoggedBlocks

/-!
# Closing and opening the database

`close` undoes the pending transactions and every session, and leaves the indexes and the block log on
disk.
-/

namespace Xgt

open Base Chainbase UndoStack List Objects Node TableName Option

structure Directory where
  indexes : (t : TableName) → GenericIndex.File (Row t)
  blockLog : List SignedBlock

def Node.undoPending {P : Params} (n : Node P) : EStateM String Indexes Unit :=
  if n.pendingState.isSome then Database.undo indexList else pure ()

def Node.close {P : Params} (n : Node P) : EStateM String Indexes Directory := do
  n.undoPending
  Database.undoAll indexList
  -- `chainbase::database::close` does it once more
  Database.undoAll indexList
  let D ← get
  pure ⟨fun t => (D t).close, n.blockLog⟩

variable (P : Params) (skipEnvCheck : Bool) (dir : Directory) (D : Indexes)

def startForkDb (log : List SignedBlock) (dgp : DynamicGlobalPropertyObject) :
    Result (ForkDatabase P.toCrypto) :=
  if dgp.headBlockNumber = 0 then .ok (.empty P.toCrypto)
  else
    match log.find? fun b => b.blockNum = dgp.headBlockNumber with
    | none => .error ⟨.assertException,
        "Chain state does not match block log. Please reindex blockchain."⟩
    | some b => do
      fcAssert (P.blockId b.toSignedBlockHeader = dgp.headBlockId)
        "Chain state does not match block log. Please reindex blockchain."
      pure ((ForkDatabase.empty P.toCrypto).startBlock b)

def initHardforks : Result Unit :=
  match (D .hardforkProperty).find? 0 with
  | some h => fcAssert (h.lastHardfork ≤ 0) "Chain knows of more hardforks than configuration"
  | none => .error ⟨.unknownKey, "unknown key"⟩

def openIndexes : Indexes :=
  let D : Indexes := fun t => .openFile (dir.indexes t)
  if ((D .dynamicGlobalProperty).find? 0).isSome then D else .ofObjects (genesis P.initPublicKey) 0

def checkRevision (headBlockNum : Nat) : Result Indexes :=
  if skipEnvCheck then .ok fun t => { D t with revision := headBlockNum }
  else do
    fcAssert ((D .dynamicGlobalProperty).revision = headBlockNum)
      "Chainbase revision does not match head block num."
    pure D

def openDatabase : Result (Indexes × ForkDatabase P.toCrypto) :=
  match (openIndexes P dir .dynamicGlobalProperty).find? 0 with
  | none => .error ⟨.unknownKey, "unknown key"⟩
  | some dgp => do
    let D ← checkRevision skipEnvCheck (openIndexes P dir) dgp.headBlockNumber
    let F ← startForkDb P dir.blockLog dgp
    initHardforks D
    pure (D, F)

section Close

variable {P} {n : Node P} {d : DbState} {D} {u : UndoStack Objects} {s : Objects}

theorem close_ok (h : d.Valid) (hd : d.Holds n) :
    ∃ D, n.close d.indexes = .ok ⟨fun t => (D t).close, n.blockLog⟩ D ∧
      Mirrors view D ⟨d.db.oldest, d.committed, []⟩ := by
  -- the pending transactions
  obtain ⟨D1, hD1, h1⟩ : ∃ D1, n.undoPending d.indexes = .ok () D1 ∧ Mirrors view D1 d.db := by
    have hmirrors := h.mirrors
    unfold undoPending
    cases hp : d.pending with
    | none =>
      rw [DbState.stack_of_idle hp] at hmirrors
      rw [← hd.pending, hp]
      exact ⟨d.indexes, rfl, hmirrors⟩
    | some s =>
      rw [DbState.stack_of_pending hp] at hmirrors
      rw [← hd.pending, hp]
      exact hmirrors.undo nodup_indexList mem_indexList
  -- the sessions
  obtain ⟨D2, hD2, h2⟩ := h1.undoAll nodup_indexList mem_indexList
  obtain ⟨D3, hD3, h3⟩ := h2.undoAll nodup_indexList mem_indexList
  rw [undoAll_of_nil rfl, h.spans.undoAll] at h3
  refine ⟨D3, ?_, h3⟩
  unfold close
  refine run_bind_ok_iff.2 ⟨(), D1, hD1, run_bind_ok_iff.2 ⟨(), D2, hD2, run_bind_ok_iff.2 ⟨(), D3, hD3, ?_⟩⟩⟩
  rfl

theorem find?_single {α : Type} (a : α) : (Table.ofIndex (single a)).find? 0 = some a :=
  Table.find?_ofIndex.2 (.head _)

theorem find?_dynamicGlobalProperty (h : Mirrors view D u) :
    (D .dynamicGlobalProperty).find? 0 = some u.state.dgp := by
  rw [(h.refines .dynamicGlobalProperty).table]
  exact find?_single u.state.dgp

theorem openIndexes_close (h : Mirrors view D u) (hsaved : u.saved = []) (log : List SignedBlock) :
    openIndexes P ⟨fun t => (D t).close, log⟩ = D := by
  have hfiles : (fun t => GenericIndex.openFile (D t).close) = D := by
    funext t
    refine GenericIndex.openFile_close ((h.refines t).stacked.nil_iff.2 ?_)
    rw [UndoStack.map, hsaved]
    rfl
  have hfind : ((fun t => GenericIndex.openFile (D t).close) dynamicGlobalProperty).find? 0 =
      some u.state.dgp := by
    rw [hfiles]
    exact find?_dynamicGlobalProperty h
  refine (if_pos ?_).trans hfiles
  exact isSome_iff_exists.2 ⟨_, hfind⟩

theorem checkRevision_ok {headBlockNum : Nat} (h : ∀ t, (D t).revision = headBlockNum) (skipEnvCheck : Bool) :
    checkRevision skipEnvCheck D headBlockNum = .ok D := by
  cases skipEnvCheck with
  | true =>
    refine congrArg Except.ok (funext fun t => ?_)
    rw [← h t]
  | false => exact bind_ok (fcAssert_ok (h _)) rfl

theorem openDatabase_close (h : Mirrors view D ⟨s, s.headBlockNum, []⟩)
    (hforks : s.hardforks.lastHardfork = 0) (log : List SignedBlock) (skipEnvCheck : Bool) :
    openDatabase P skipEnvCheck ⟨fun t => (D t).close, log⟩ =
      (startForkDb P log s.dgp).map fun F => (D, F) := by
  have hrevision (t : TableName) : (D t).revision = s.dgp.headBlockNumber := (h.refines t).revision
  have hinit : initHardforks D = .ok () := by
    have hfind : (D .hardforkProperty).find? 0 = some s.hardforks := by
      rw [(h.refines .hardforkProperty).table]
      exact find?_single s.hardforks
    unfold initHardforks
    rw [hfind]
    exact fcAssert_ok hforks.le
  unfold openDatabase
  rw [openIndexes_close h rfl, find?_dynamicGlobalProperty h]
  dsimp only
  rw [checkRevision_ok hrevision]
  change (startForkDb P log s.dgp >>= fun F => initHardforks D >>= fun _ => pure (D, F)) = _
  rw [hinit]
  cases startForkDb P log s.dgp <;> rfl

end Close

theorem Objects.Trace.hardforks {s s' : Objects} {cs : List Call} (h : Trace s cs s') :
    s'.hardforks = s.hardforks := by
  induction h with
  | nil => rfl
  | call h => cases h <;> rfl
  | append _ _ ih ih' => exact ih'.trans ih

namespace Walk

variable {P} {d d' : DbState} {l : List DbState}

theorem forall_states {Q : Objects → Prop} (h : Walk P d l d') (hQ : ∀ s ∈ d.db.states, Q s)
    (hcalls : ∀ s cs s', Trace s cs s' → Q s → Q s') : ∀ s ∈ d'.db.states, Q s := by
  induction h with
  | nil => exact hQ
  | step _ hstep ih =>
    cases hstep with
    | applied hidle hblock hcs hnum =>
      intro t ht
      rcases mem_cons.1 ht with rfl | ht
      · exact hcalls _ _ _ hcs (ih _ (.head _))
      · obtain ⟨e, he, rfl⟩ := mem_map.1 ht
        have hmem := (UndoStack.commit_shortens _ _).subset he
        exact ih _ (mem_map_of_mem (f := Prod.snd) hmem)
    | popped => exact fun t ht => ih t ((undo_states_suffix _).subset ht)
    | failed | opened | closed | pushed | refused => exact ih

theorem seen (h : Walk P (.init P) l d) {k : Nat} {s : Objects} (hs : d.db.states[k]? = some s) :
    ∃ d0 ∈ DbState.init P :: l, d0.db.state = s ∧ d0.applied = d.applied.drop k := by
  induction h generalizing k s with
  | nil =>
    cases k with
    | zero => exact ⟨_, .head _, some.inj hs, rfl⟩
    | succ k => cases hs
  | @step l d d' _ hstep ih =>
    have hold {k : Nat} {s : Objects} (hs : d.db.states[k]? = some s) :
        ∃ d0 ∈ DbState.init P :: d' :: l, d0.db.state = s ∧ d0.applied = d.applied.drop k := by
      obtain ⟨d0, hd0, hseen⟩ := ih hs
      rcases mem_cons.1 hd0 with rfl | hd0
      · exact ⟨_, .head _, hseen⟩
      · exact ⟨d0, .tail _ (.tail _ hd0), hseen⟩
    cases hstep with
    | @applied _ b s' cs hidle hblock hcs hnum =>
      cases k with
      | zero => exact ⟨_, .tail _ (.head _), some.inj hs, rfl⟩
      | succ k =>
        obtain ⟨_, hsaved⟩ := (UndoStack.commit_shortens (d.db.start.set s')
          s'.lib).map Prod.snd
        change (((d.db.start.set s').commit s'.lib).saved.map Prod.snd)[k]? =
          some s at hs
        refine hold ?_
        change ((d.db.start.set s').saved.map Prod.snd)[k]? = some s
        rw [← hsaved, List.getElem?_append_left (List.getElem?_eq_some_iff.1 hs).1]
        exact hs
    | popped hidle =>
      change d.db.undo.states[k]? = some s at hs
      have happlied : d.pop.applied = if d.db.saved = [] then d.applied else d.applied.tail := rfl
      rw [happlied]
      unfold UndoStack.undo at hs
      split at hs
      · next hsaved =>
        rw [if_pos hsaved]
        exact hold hs
      · next e saved hsaved =>
        rw [if_neg (by rw [hsaved]; exact cons_ne_nil _ _), drop_tail]
        refine hold (k := k + 1) ?_
        rw [UndoStack.states, hsaved]
        exact hs
    | failed | opened | closed | pushed | refused => exact hold hs

end Walk

/-! ## Pushing the blocks again -/

structure Tower (P : Params) (B : SignedBlock → Prop) (S : SkipFlags → Prop) (c : Nat)
    (u : UndoStack Objects) (applied : List SignedBlock) : Prop where
  grown : Grown u
  spans : u.Spans c
  traced : Traced P B S u.states applied
  numbers : applied.map (fun b => b.blockNum) = (List.range' 1 u.state.headBlockNum).reverse
  blocks : ∀ b ∈ applied, B b

section Tower

variable {P} {B : SignedBlock → Prop} {S : SkipFlags → Prop} {c : Nat} {u : UndoStack Objects}
  {applied : List SignedBlock} {b : SignedBlock}

theorem Tower.length (h : Tower P B S c u applied) : applied.length = u.state.headBlockNum := by
  simpa using congrArg List.length h.numbers

theorem Tower.undo {e : Nat × Objects} {saved : List (Nat × Objects)} (h : Tower P B S c u (b :: applied))
    (hsaved : u.saved = e :: saved) : Tower P B S c u.undo applied := by
  have hundo : u.undo = ⟨e.2, u.revision - 1, saved⟩ := by rw [UndoStack.undo, hsaved]
  refine ⟨h.grown.undo, h.spans.undo, ?_, ?_, fun c hc => h.blocks c (.tail _ hc)⟩
  · have htraced := h.traced.2.2
    rw [hsaved] at htraced
    rw [hundo]
    exact htraced
  · have hnumbers := h.numbers
    rw [h.grown.tracks.of_cons hsaved, range'_concat, reverse_concat] at hnumbers
    rw [hundo]
    exact (List.cons.inj hnumbers).2

theorem Env.Follows.sameView {env env' : Env} {s : Objects} (hB : IdsTell P.toCrypto B)
    (hzero : ∀ c, B c → P.blockId c.toSignedBlockHeader ≠ BlockId.zero) (h : env.Follows P B applied)
    (h' : env'.Follows P B applied) (hskip : env'.skip = env.skip)
    (hline : Lineage P.toCrypto applied s.headBlockId)
    (hnumbers : applied.map (fun b => b.blockNum) = (List.range' 1 s.headBlockNum).reverse)
    (hb : b.blockNum = s.headBlockNum + 1) : env.SameView s b env' where
  skip := hskip
  producing := h'.producing.trans h.producing.symm
  pendingTx := h'.pendingTx.trans h.pendingTx.symm
  headBlock := by
    cases applied with
    | nil =>
      -- no block has the id of the genesis state
      have hnone {env : Env} (h : env.Follows P B []) : env.fetchBlockById s.headBlockId = none := by
        refine eq_none_iff_forall_ne_some.2 fun c hc => ?_
        obtain ⟨hBc, hid⟩ := h.fetchBlockById _ c hc
        exact hzero c hBc (hid.trans hline)
      rw [hnone h, hnone h']
    | cons c applied =>
      obtain ⟨c1, hc1⟩ := isSome_iff_exists.1 (h.head c rfl)
      obtain ⟨c2, hc2⟩ := isSome_iff_exists.1 (h'.head c rfl)
      obtain ⟨hB1, hid1⟩ := h.fetchBlockById _ c1 hc1
      obtain ⟨hB2, hid2⟩ := h'.fetchBlockById _ c2 hc2
      rw [← hline.1, hc1, hc2, hB c2 c1 hB2 hB1 (hid2.trans hid1.symm)]
  priorBlock hlow := by
    have hmem : b.blockNum - 302400 ∈ applied.map fun b => b.blockNum := by
      rw [hnumbers, mem_reverse, mem_range'_1]
      omega
    obtain ⟨c, hc, hnum⟩ := mem_map.1 hmem
    have hlength : applied.length = s.headBlockNum := by simpa using congrArg List.length hnumbers
    have hten : xgtMaxWitnesses = 10 := rfl
    rw [← hnum, h.prior c hc (by omega), h'.prior c hc (by omega)]

end Tower

namespace Node

variable {P} {B : SignedBlock → Prop} {n : Node P} {skip : SkipFlags} {budget : Nat}
  {u : UndoStack Objects} {applied log : List SignedBlock} {b : SignedBlock} {c : Nat}

def pushAll (skip : SkipFlags) (budget : Nat) (n : Node P) (blocks : List SignedBlock) : Node P :=
  blocks.foldl (fun n b => (n.pushBlock skip budget b).1) n

/-- The pushed block creates no receiver. -/
def Receives (n : Node P) (skip : SkipFlags) (b : SignedBlock) : Prop :=
  ReceiversExist P ((n.received b).env skip false) n.objects b

structure LogOf (B : SignedBlock → Prop) (c : Nat) (log applied : List SignedBlock) : Prop where
  blocks : ∀ a ∈ log, B a
  find : ∀ a ∈ applied, a.blockNum ≤ c → log.find? (fun b => b.blockNum = a.blockNum) = some a

structure Rebuilt (c : Nat) (log : List SignedBlock) (u : UndoStack Objects) (applied : List SignedBlock)
    (n : Node P) : Prop where
  db : n.db = u
  oneChain : n.OneChain
  blockLog : n.blockLog = log
  logHead : n.logHeadNum = c
  items : ∀ x ∈ n.forkDb.index, x.data ∈ applied

theorem Rebuilt.follows {S : SkipFlags → Prop} (skip : SkipFlags) (h : Rebuilt c log u applied n)
    (ht : Tower P B S c u applied) (hlog : LogOf B c log applied) (hb : B b)
    (hparent : b.previous = n.headBlockId) (hnum : b.blockNum = n.objects.headBlockNum + 1) :
    ((n.received b).env skip false).Follows P B applied where
  producing := rfl
  pendingTx := rfl
  fetchBlockById id a ha := by
    refine ⟨?_, (env_sees _ skip).fetchBlockById id a ha⟩
    obtain ⟨-, hindex, hunlinked, -⟩ := received_forkDb h.oneChain hparent hnum
    change (n.received b).fetchBlockById id = some a at ha
    unfold fetchBlockById ForkDatabase.fetchBlock at ha
    rw [hindex, hunlinked] at ha
    split at ha
    · next x hx =>
      cases ha
      rcases or_eq_some_iff.1 hx with hx | ⟨-, hx⟩
      · rcases mem_append.1 (mem_of_find?_eq_some hx) with hx | hx
        · exact ht.blocks _ (h.items x hx)
        · rw [mem_singleton.1 hx]
          exact hb
      · cases hx
    · have hmem := mem_of_find?_eq_some (filter_eq_some_iff.1 ha).1
      exact hlog.blocks a (h.blockLog ▸ hmem)
  head a ha := by
    obtain ⟨-, hindex, -⟩ := received_forkDb h.oneChain hparent hnum
    have hknown : (n.received b).forkDb.Knows (P.blockId a.toSignedBlockHeader) := by
      rcases h.oneChain.head with ⟨-, hzero⟩ | ⟨x, hx, -, hid⟩
      · rw [objects, h.db, ← ht.length] at hzero
        rw [eq_nil_of_length_eq_zero hzero] at ha
        cases ha
      · refine ⟨x, ?_, hid.trans ?_⟩
        · rw [hindex]
          exact mem_append_left _ (mem_append_left _ hx)
        · obtain ⟨_, rfl⟩ := head?_eq_some_iff.1 ha
          rw [headBlockId, objects, h.db]
          exact ht.traced.1.1.symm
    change ((n.received b).fetchBlockById _).isSome
    unfold fetchBlockById
    split
    · rfl
    · next hnone =>
      rw [← ForkDatabase.fetchBlock_isSome_iff, hnone] at hknown
      cases hknown
  prior a ha hle := by
    have hlib := ht.grown.lastIrreversible_le ht.spans
    rw [ht.grown.tip.1.2] at hlib
    rw [ht.length] at hle
    change (n.blockLog.find? fun b => b.blockNum = a.blockNum).or _ = some a
    rw [h.blockLog, hlog.find a ha (by omega), some_or]

theorem Rebuilt.push {e : Nat × Objects} {saved : List (Nat × Objects)} (budget : Nat)
    (hB : IdsTell P.toCrypto B)
    (hzero : ∀ a, B a → P.blockId a.toSignedBlockHeader ≠ BlockId.zero) (hforkDb : skip.skipForkDb = false)
    (hblockLog : skip.skipBlockLog = false) (ht : Tower P B (· = skip) c u (b :: applied))
    (hsaved : u.saved = e :: saved) (hlog : LogOf B c log (b :: applied)) (h : Rebuilt c log u.undo applied n)
    (hreceives : n.Receives skip b) :
    (n.pushBlock skip budget b).2 = .ok false ∧
      Rebuilt c log u (b :: applied) (n.pushBlock skip budget b).1 := by
  have ht' := ht.undo hsaved
  have hundo : u.undo = ⟨e.2, u.revision - 1, saved⟩ := by rw [UndoStack.undo, hsaved]
  have hobjects : n.objects = e.2 := by rw [objects, h.db, hundo]
  have hup : u.state.headBlockNum = e.2.headBlockNum + 1 := ht.grown.tracks.of_cons hsaved
  have hbnum : b.blockNum = u.state.headBlockNum := by
    have hnumbers := ht.numbers
    rw [hup, range'_concat, reverse_concat] at hnumbers
    have hfirst : b.blockNum = 1 + 1 * e.2.headBlockNum := (List.cons.inj hnumbers).1
    omega
  have hnext : b.blockNum = n.objects.headBlockNum + 1 := by rw [hobjects, ← hup, hbnum]
  have hline : Lineage P.toCrypto applied e.2.headBlockId := by
    have hline := ht'.traced.1
    rwa [hundo] at hline
  have hparent : b.previous = n.headBlockId := by
    rw [headBlockId, hobjects]
    exact Lineage.id_eq ht.traced.1.2 hline
  -- the block was applied before, on a chain that looked the same
  obtain ⟨_, ⟨⟩, env, rfl, henv, hmade⟩ := ht.traced.2.1 e.2 (by rw [hsaved]; rfl)
  have hlog' : LogOf B c log applied :=
    ⟨hlog.blocks, fun a ha => hlog.find a (.tail _ ha)⟩
  have hfollows := h.follows env.skip ht' hlog' (ht.blocks b (.head _)) hparent hnext
  have hnumbers := ht'.numbers
  rw [hundo] at hnumbers
  have hview := hfollows.sameView hB hzero henv rfl hline hnumbers (by rw [← hobjects]; exact hnext)
  have hs : n.objects.applyBlock P ((n.received b).env env.skip false) b = .ok u.state := by
    rw [hobjects, applyBlock_sameView hview (hobjects ▸ hreceives)]
    exact hmade
  have hroom : n.objects.headBlockNum + 1 < 2 ^ 32 := by
    rw [hobjects, ← hup]
    exact ht.grown.tip.2
  obtain ⟨hok, hext⟩ := pushBlock_onto budget h.oneChain hforkDb hblockLog hparent hroom hs
  have hlib : u.state.lib ≤ n.logHeadNum := by
    rw [h.logHead]
    exact ht.grown.lastIrreversible_le ht.spans
  refine ⟨hok, ?_, hext.oneChain, (hext.kept hlib).trans h.blockLog, ?_, fun x hx => ?_⟩
  · rw [hext.db, h.db, ht.grown.tracks.redo (fun _ _ => id) hsaved]
    exact commit_eq_self ht.grown.above
  · rw [hext.logHead, max_eq_right hlib, h.logHead]
  · rcases hext.items x hx with hx | hx
    · exact .tail _ (h.items x hx)
    · exact hx ▸ mem_cons_self

theorem pushAll_concat (n : Node P) (blocks : List SignedBlock) (b : SignedBlock) :
    pushAll skip budget n (blocks ++ [b]) = ((pushAll skip budget n blocks).pushBlock skip budget b).1 :=
  foldl_concat ..

theorem Rebuilt.pushAll (hB : IdsTell P.toCrypto B)
    (hzero : ∀ a, B a → P.blockId a.toSignedBlockHeader ≠ BlockId.zero) (hforkDb : skip.skipForkDb = false)
    (hblockLog : skip.skipBlockLog = false) (ht : Tower P B (· = skip) c u applied)
    (hlog : LogOf B c log applied) (h : Rebuilt c log u.undoAll (applied.drop u.saved.length) n)
    (hreceives : ∀ before b after, (applied.take u.saved.length).reverse = before ++ b :: after →
      (n.pushAll skip budget before).Receives skip b) :
    (∀ before b after, (applied.take u.saved.length).reverse = before ++ b :: after →
      ((n.pushAll skip budget before).pushBlock skip budget b).2 = .ok false) ∧
      Rebuilt c log u applied (n.pushAll skip budget (applied.take u.saved.length).reverse) := by
  induction hk : u.saved.length generalizing u applied with
  | zero =>
    rw [hk, undoAll_of_nil (length_eq_zero_iff.1 hk)] at h
    exact ⟨fun before b after hsplit => by simp at hsplit, h⟩
  | succ k ih =>
    obtain ⟨e, saved, hsaved⟩ := exists_cons_of_length_eq_add_one hk
    have hup : u.state.headBlockNum = e.2.headBlockNum + 1 := ht.grown.tracks.of_cons hsaved
    obtain ⟨b, applied, rfl⟩ := exists_cons_of_length_eq_add_one (ht.length.trans hup)
    have hk' : u.undo.saved.length = k := by rw [undo_saved, length_tail, hk]; rfl
    rw [hk, take_succ_cons, reverse_cons] at hreceives
    rw [take_succ_cons, reverse_cons]
    rw [hk, drop_succ_cons, ← undoAll_undo] at h
    obtain ⟨hok, hrebuilt⟩ := ih (ht.undo hsaved)
      ⟨hlog.blocks, fun a ha => hlog.find a (.tail _ ha)⟩ (hk' ▸ h)
      (fun before a after hsplit => hreceives before a (after ++ [b]) (by rw [← hk', hsplit]; simp)) hk'
    obtain ⟨hlast, hrebuilt⟩ := hrebuilt.push budget hB hzero hforkDb hblockLog ht hsaved hlog
      (hreceives _ b [] rfl)
    rw [pushAll_concat]
    refine ⟨fun before a after hsplit => ?_, hrebuilt⟩
    rcases eq_nil_or_concat after with rfl | ⟨after, a', rfl⟩
    · obtain ⟨rfl, hba⟩ := append_inj' hsplit rfl
      cases hba
      exact hlast
    · rw [concat_eq_append, ← cons_append, ← append_assoc] at hsplit
      exact hok before a after (append_inj' hsplit rfl).1

/-! ## The node that `open` starts with -/

def opened (P : Params) (s : Objects) (revision : Nat) (F : ForkDatabase P.toCrypto) (log : List SignedBlock)
    (draws : Nat) : Node P where
  db := ⟨s, revision, []⟩
  forkDb := F
  blockLog := log
  draws := draws

/-- A push under the given flags that the log can follow. -/
structure PushedWith (flags : SkipFlags) (n : Node P) (skip : SkipFlags) (b : SignedBlock) : Prop where
  loggable : n.Loggable skip b
  flags : skip = flags
  checkpoints : n.checkpoints = []

end Node

theorem Traced.lineage {P : Params} {B : SignedBlock → Prop} {S : SkipFlags → Prop} {states : List Objects}
    {blocks : List SignedBlock} {k : Nat} {s : Objects} (h : Traced P B S states blocks)
    (hs : states[k]? = some s) : Lineage P.toCrypto (blocks.drop k) s.headBlockId := by
  induction k generalizing states blocks with
  | zero =>
    obtain ⟨states, rfl⟩ := head?_eq_some_iff.1 (head?_eq_getElem? ▸ hs)
    exact h.1
  | succ k ih =>
    cases states with
    | nil => cases hs
    | cons t states =>
      rw [← drop_tail]
      exact ih h.2.2 hs

namespace Node.Joined

variable {P} {B : SignedBlock → Prop} {S : SkipFlags → Prop} {n : Node P} {d : DbState}
  {pinned : List ForkItem}

section

variable (h : Joined B S pinned d n)
include h

theorem oldest_headBlockNum : d.db.oldest.headBlockNum = d.committed :=
  h.valid.grown.tracks.level_oldest h.valid.spans

theorem oldest_lineage :
    Lineage P.toCrypto (d.applied.drop d.db.saved.length) d.db.oldest.headBlockId := by
  have htraced := h.traced
  rw [← h.holds.db] at htraced
  exact htraced.lineage d.db.getElem?_states_length

theorem drop_applied : (d.applied.drop d.db.saved.length).reverse = n.blockLog := by
  have hlog : n.blockLog.length = d.committed := by simpa using congrArg List.length h.numbers
  have happlied : d.applied.length = d.headBlockNum := by simpa using congrArg List.length h.valid.numbers
  have hsaved := h.valid.spans.length
  have hle := h.valid.spans.le
  have hrevision : d.db.revision = d.headBlockNum := h.valid.grown.tracks.revision
  rw [prefix_iff_eq_take.1 h.blockLog_prefix, reverse_drop, hlog]
  congr 1
  omega

theorem startForkDb :
    ∃ F, Xgt.startForkDb P n.blockLog d.db.oldest.dgp = .ok F ∧ F.unlinked = [] ∧
      (F.head = none ∧ F.index = [] ∧ d.committed = 0 ∨
        ∃ x, F.head = some x ∧ F.index = [x] ∧ x.data ∈ d.applied.drop d.db.saved.length ∧
          x.num = d.committed ∧ x.id P.toCrypto = d.db.oldest.headBlockId) := by
  have hnum : d.db.oldest.dgp.headBlockNumber = d.committed := h.oldest_headBlockNum
  unfold Xgt.startForkDb
  rw [hnum]
  split_ifs with hzero
  · exact ⟨.empty _, rfl, rfl, .inl ⟨rfl, rfl, hzero⟩⟩
  · have hline := h.oldest_lineage
    cases hdrop : d.applied.drop d.db.saved.length with
    | nil =>
      -- without blocks nothing is committed
      have hlog := h.drop_applied
      rw [hdrop] at hlog
      have hlength : n.blockLog.length = d.committed := by simpa using congrArg List.length h.numbers
      rw [← hlog] at hlength
      exact absurd hlength.symm hzero
    | cons a applied =>
      rw [hdrop] at hline
      have ha : a ∈ d.applied := mem_of_mem_drop (hdrop ▸ mem_cons_self)
      have hanum : a.blockNum = d.committed := by
        have hid : a.blockNum = d.db.oldest.headBlockId.num := congrArg BlockId.num hline.1
        have hmem := mem_of_getElem? d.db.getElem?_states_length
        rw [hid, ← (h.valid.grown.tips _ hmem).1.1]
        exact h.oldest_headBlockNum
      have hfind : n.blockLog.find? (fun b => b.blockNum = d.committed) = some a := by
        rw [← hanum]
        exact h.readBlockByNum ha hanum.le
      rw [hfind]
      refine ⟨_, bind_ok (fcAssert_ok hline.1) rfl, rfl, .inr ⟨⟨0, a⟩, rfl, rfl,
        mem_cons_self, hanum, hline.1⟩⟩

theorem rebuilt_opened {F : ForkDatabase P.toCrypto} (draws : Nat)
    (hF : Xgt.startForkDb P n.blockLog d.db.oldest.dgp = .ok F) :
    Rebuilt d.committed n.blockLog d.db.undoAll (d.applied.drop d.db.saved.length)
      (opened P d.db.oldest d.committed F n.blockLog draws) := by
  obtain ⟨F', hF', hunlinked, hhead⟩ := h.startForkDb
  cases hF.symm.trans hF'
  have hnum := h.oldest_headBlockNum
  have hlogHead : (opened P d.db.oldest d.committed F n.blockLog draws).logHeadNum = d.committed :=
    h.logHeadNum
  have htip := (h.valid.grown.tips _ (mem_of_getElem? d.db.getElem?_states_length)).1
  refine ⟨h.valid.spans.undoAll.symm, ⟨hunlinked, ?_, ?_, ?_, htip, ?_, ?_, rfl, rfl, rfl⟩, rfl, hlogHead, ?_⟩
  · rcases hhead with ⟨hnone, -, hzero⟩ | ⟨x, hsome, hindex, -, -, hid⟩
    · exact .inl ⟨hnone, hnum.trans hzero⟩
    · have hx : x ∈ F.index := hindex ▸ mem_singleton_self x
      exact .inr ⟨x, hx, hsome, hid⟩
  · intro x hx
    change x ∈ F.index at hx
    change x.num ≤ d.db.oldest.headBlockNum
    rcases hhead with ⟨-, hnil, -⟩ | ⟨y, -, hindex, -, hynum, -⟩
    · rw [hnil] at hx
      cases hx
    · rw [hindex] at hx
      rw [mem_singleton.1 hx, hynum, hnum]
  · intro num hlow hhigh
    rw [hlogHead] at hlow
    change num ≤ d.db.oldest.headBlockNum at hhigh
    omega
  · rw [hlogHead]
    change d.db.oldest.lib ≤ d.committed
    rw [htip.2, hnum]
    exact Nat.sub_le _ _
  · intro num hpos hle
    rw [hlogHead] at hle
    change (n.blockLog.find? fun b => b.blockNum = num).isSome
    have hmem : num ∈ n.blockLog.map fun c => c.blockNum := by
      rw [h.numbers, mem_range'_1]
      omega
    obtain ⟨a, ha, hanum⟩ := mem_map.1 hmem
    exact find?_isSome.2 ⟨a, ha, decide_eq_true hanum⟩
  · intro x hx
    change x ∈ F.index at hx
    rcases hhead with ⟨-, hnil, -⟩ | ⟨y, -, hindex, hy, -⟩
    · rw [hnil] at hx
      cases hx
    · rw [hindex] at hx
      rw [mem_singleton.1 hx]
      exact hy

end

end Node.Joined

theorem Node.Joined.tower {P : Params} {B : SignedBlock → Prop} {S : SkipFlags → Prop} {n : Node P}
    {d : DbState} {pinned : List ForkItem} (h : Joined B S pinned d n) :
    Tower P B S d.committed d.db d.applied :=
  ⟨h.valid.grown, h.valid.spans, h.holds.db ▸ h.traced, h.valid.numbers, h.blocks⟩

def DbState.undone (d : DbState) : List SignedBlock := (d.applied.take d.db.saved.length).reverse

/-- Pushing the undone blocks again brings the state back. -/
def DbState.RestoredBy {P : Params} (d : DbState) (skip : SkipFlags) (budget : Nat) (n : Node P) : Prop :=
  (∀ before b after, d.undone = before ++ b :: after →
    ((n.pushAll skip budget before).pushBlock skip budget b).2 = .ok false) ∧
  (n.pushAll skip budget d.undone).db = d.db

namespace LoggedRun

variable {P} {B : SignedBlock → Prop} {n : Node P} {d : DbState}

theorem hardforks {C : Node P → SkipFlags → SignedBlock → Prop} (h : LoggedRun P B C n d) :
    ∀ s ∈ d.db.states, s.hardforks.lastHardfork = 0 := by
  obtain ⟨l, hwalk⟩ := h.walk
  refine hwalk.forall_states (Q := fun s => s.hardforks.lastHardfork = 0) (fun s hs => ?_)
    fun s cs s' hcs hs => ?_
  · rw [mem_singleton.1 hs]
    rfl
  · rw [hcs.hardforks]
    exact hs

theorem reopen (hB : IdsTell P.toCrypto B) (h : LoggedRun P B Loggable n d) (skipEnvCheck : Bool) :
    ∃ (dir : Directory) (D : Indexes) (F : ForkDatabase P.toCrypto),
      n.close d.indexes = .ok dir D ∧ openDatabase P skipEnvCheck dir = .ok (D, F) ∧
      -- the state that held after the last committed block
      Mirrors view D ⟨d.db.oldest, d.committed, []⟩ ∧ dir.blockLog = n.blockLog ∧
      (∃ l, Walk P (.init P) l d) ∧
      (∀ l, Walk P (.init P) l d → ∃ d0 ∈ DbState.init P :: l, d0.db.state = d.db.oldest ∧
        d0.applied.reverse = n.blockLog) ∧
      -- the blocks above it
      ∀ (skip : SkipFlags) (budget draws : Nat), skip.skipForkDb = false → skip.skipBlockLog = false →
        LoggedRun P B (PushedWith skip) n d →
        (∀ a, B a → P.blockId a.toSignedBlockHeader ≠ BlockId.zero) →
        let n' := opened P d.db.oldest d.committed F n.blockLog draws
        (∀ before b after, d.undone = before ++ b :: after →
          (n'.pushAll skip budget before).Receives skip b) →
        d.RestoredBy skip budget n' := by
  have hjoined := h.joined_any hB fun _ _ _ hpush => hpush
  obtain ⟨D, hclose, hmirrors⟩ := close_ok hjoined.valid hjoined.holds
  obtain ⟨F, hF, -⟩ := hjoined.startForkDb
  have hnum := hjoined.oldest_headBlockNum
  have holdest := mem_of_getElem? d.db.getElem?_states_length
  refine ⟨_, D, F, hclose, ?_, hmirrors, rfl, h.walk, fun l hwalk => ?_, ?_⟩
  · rw [← hnum] at hmirrors
    rw [openDatabase_close hmirrors (h.hardforks _ holdest), hF]
    rfl
  · obtain ⟨d0, hd0, hstate, happlied⟩ := hwalk.seen d.db.getElem?_states_length
    exact ⟨d0, hd0, hstate, by rw [happlied, hjoined.drop_applied]⟩
  · intro skip budget draws hforkDb hblockLog hrun hzero n' hreceives
    have hjoined' := hrun.joined (S := (· = skip)) hB (fun _ _ _ hpush => hpush.loggable)
      fun n skip' b hpush skip'' hflags => by
        rw [checkpointFlags, hpush.checkpoints] at hflags
        cases hflags
        exact hpush.flags
    have hlog : LogOf B d.committed n.blockLog d.applied :=
      ⟨fun a ha => hjoined.blocks a (hjoined.logged a ha), fun a ha hle => hjoined.readBlockByNum ha hle⟩
    obtain ⟨hok, hrebuilt⟩ := (hjoined.rebuilt_opened draws hF).pushAll hB hzero hforkDb hblockLog
      hjoined'.tower hlog hreceives
    exact ⟨hok, hrebuilt.db⟩

end LoggedRun

theorem reopen_idle : ∃ (n : Node toyParams) (d : DbState) (dir : Directory) (D : Indexes)
    (F : ForkDatabase toyParams.toCrypto), LoggedRun toyParams IdleBlock (PushedWith skipNothing) n d ∧
      d.headBlockNum = 12 ∧ d.committed = 2 ∧ n.close d.indexes = .ok dir D ∧
      openDatabase toyParams false dir = .ok (D, F) ∧
      d.RestoredBy skipNothing 0 (opened toyParams d.db.oldest 2 F n.blockLog 0) := by
  obtain ⟨n, d, hrun, hlinear, hobjects⟩ := idleNode_loggedRun (C := PushedWith skipNothing) (k := 12)
    (by decide) (fun _ _ _ hpush => hpush.loggable)
    fun n j hlinear hchild => ⟨⟨rfl, rfl, .inl hchild⟩, rfl, hlinear.idle.2.2⟩
  have hrun' := hrun.mono fun _ _ _ hpush => hpush.loggable
  have hjoined := hrun'.joined_any idsTell_idle fun _ _ _ hpush => hpush
  have hcommitted : d.committed = 2 := by
    rw [← hjoined.logHeadNum, hlinear.written, hobjects]
    rfl
  obtain ⟨dir, D, F, hclose, hopen, -, -, -, -, hrestored⟩ := hrun'.reopen idsTell_idle false
  refine ⟨n, d, dir, D, F, hrun, hjoined.holds.headBlockNum hobjects, hcommitted, hclose, hopen, ?_⟩
  rw [← hcommitted]
  refine hrestored skipNothing 0 0 rfl rfl hrun ?_ fun before b after hsplit => ?_
  · rintro _ ⟨k, hk, rfl⟩ hzero
    rw [idleBlock_id hk] at hzero
    have hnum := congrArg BlockId.num hzero
    rw [idleId_num] at hnum
    cases hnum
  · -- the blocks have no transactions
    have hb : b ∈ d.applied := by
      have hmem : b ∈ d.undone := hsplit ▸ mem_append_right _ (.head _)
      exact mem_of_mem_take (mem_reverse.1 hmem)
    obtain ⟨k, -, rfl⟩ := hjoined.blocks b hb
    rintro u o ⟨t, v, v1, ops, ops', ⟨s1, txs, txs', -, htxs, -⟩, -⟩
    change ([] : List SignedTransaction) = _ at htxs
    simp at htxs

theorem reopen_of_stranger :
    ∃ (first sibling rejected : SignedBlock) (blocks : List SignedBlock) (n : Node toyParams)
      (l : List DbState) (d : DbState) (dir : Directory) (D : Indexes),
      n = (init toyParams).pushBlocks (first :: sibling :: rejected :: blocks) ∧
      SessionRun toyParams n l d ∧ n.close d.indexes = .ok dir D ∧
      openDatabase toyParams false dir = .error ⟨.assertException,
        "Chain state does not match block log. Please reindex blockchain."⟩ := by
  let first := toyBlock .zero 1
  let sibling := toyBlock .zero 2
  let rejected := toyBlock (toyId first) 3 [] xgtTempWallet
  let blocks := toyChain (toyId sibling) 4 10
  let n := (init toyParams).pushBlocks (first :: sibling :: rejected :: blocks)
  obtain ⟨l, d, hrun⟩ := (SessionRun.init (P := toyParams) []).pushBlocks
    (first :: sibling :: rejected :: blocks)
  obtain ⟨D, hclose, hmirrors⟩ := close_ok hrun.valid hrun.holds
  refine ⟨first, sibling, rejected, blocks, n, l, d, _, D, rfl, hrun, hclose, ?_⟩
  have hdb : d.db = n.db := hrun.holds.db
  have hforks : d.db.oldest.hardforks.lastHardfork = 0 := by
    rw [hdb]
    decide +kernel
  rw [← hrun.valid.grown.tracks.level_oldest hrun.valid.spans] at hmirrors
  rw [openDatabase_close hmirrors hforks, hdb]
  have hlog : n.blockLog = [sibling] := by decide +kernel
  have hnum : n.db.oldest.dgp.headBlockNumber = 1 := by decide +kernel
  have hid : toyParams.blockId sibling.toSignedBlockHeader ≠ n.db.oldest.dgp.headBlockId := by decide +kernel
  change (startForkDb toyParams n.blockLog n.db.oldest.dgp).map _ = _
  rw [startForkDb, hnum, hlog]
  have hfind : [sibling].find? (fun b => b.blockNum = 1) = some sibling := by decide +kernel
  rw [if_neg (by decide), hfind]
  dsimp only
  rw [fcAssert, decide_eq_false hid]
  rfl

end Xgt
