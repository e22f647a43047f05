import XgtChain.Chain.Reindex
import XgtChain.Chain.Reopen
import XgtChain.Plugins.WalletHistory

/-!
# The wallet history over runs of a node

A run pushes blocks through the fork database, pushes transactions, and restarts the node, with or without
a reindex.
-/

namespace Xgt

open Base List WalletHistory Node UndoStack

namespace WalletHistory

variable {cfg : HistoryConfig} {P : Params} {h : WalletHistory}

def chain (h : WalletHistory) : UndoStack Objects := h.db.map HistoryState.objects

theorem step_chain (cfg : HistoryConfig) (h : WalletHistory) (e : ChainEvent) :
    (h.step cfg P (.chain e)).chain = chainStep P h.chain e := by
  cases e with
  | pop => exact map_undo ..
  | apply env b accepted =>
    cases accepted with
    | false => rfl
    | true =>
      have hstate : h.chain.state = h.db.state.objects := rfl
      rcases hres : h.db.state.objects.applyBlock P env b with e | s
      · simp only [step, chainStep, if_true, hstate, hres]
        rfl
      · simp only [step, chainStep, if_true, hstate, hres]
        exact map_commit ..

end WalletHistory

namespace Node

variable {P : Params} {n n' : Node P}

def replayedLog (last : Nat) : List SignedBlock → Node P → List (Env × SignedBlock)
  | [], _ => []
  | b :: rest, n => (n.env reindexFlags false, b) :: match n.applyLoggedBlock b with
    | .ok n => if b.blockNum < last then replayedLog last rest n else []
    | .error _ => []

def replayedBlocks (last : Nat) (n : Node P) : List (Env × SignedBlock) :=
  if n.objects.headBlockNum < last then replayedLog last (n.blockLog.drop n.objects.headBlockNum) n else []

def reindexedBlocks (n : Node P) (stopAtBlock : Nat) : List (Env × SignedBlock) :=
  match n.blockLog.getLast? with
  | none => []
  | some head => n.wiped.replayedBlocks
      (if 0 < stopAtBlock ∧ stopAtBlock < head.blockNum then stopAtBlock else head.blockNum)

structure Bare (n : Node P) : Prop where
  saved : n.db.saved = []
  head : n.forkDb.head = none
  items : ∀ x, ¬n.forkDb.Holds x
  links : ∀ x p, n.forkDb.prev x = some p → 0 < x.num

theorem Bare.applyLoggedBlock {b : SignedBlock} (h : n.Bare) (hstep : n.applyLoggedBlock b = .ok n') :
    n'.Bare ∧ n.objects.applyBlock P (n.env reindexFlags false) b = .ok n'.objects := by
  obtain ⟨s, hs, hmigrate⟩ := of_bind hstep
  obtain ⟨blocks, -, -, rfl⟩ := migrateIrreversibleState_ok hmigrate
  have hholds (F : ForkDatabase P.toCrypto) (size : Nat) (x : ForkItem) (hF : F.head = none)
      (hx : (F.setMaxSize size).Holds x) : F.Holds x := by
    simpa only [ForkDatabase.Holds, ForkDatabase.setMaxSize, hF] using hx
  refine ⟨⟨?_, ?_, fun x hx => ?_, ?_⟩, hs⟩
  · exact prefix_nil.1 (h.saved ▸ commit_shortens (n.db.set s) _)
  · simp only [ForkDatabase.setMaxSize_head]
    exact h.head
  · refine h.items x ?_
    exact hholds _ _ x h.head (hholds _ _ x (ForkDatabase.setMaxSize_head.trans h.head) hx)
  · simp only [ForkDatabase.setMaxSize_prev]
    exact h.links

theorem Bare.replayLog {last : Nat} {log : List SignedBlock} (h : n.Bare)
    (hstep : replayLog last log n = .ok n') :
    n'.Bare ∧ (replayedLog last log n).map Prod.snd <+: log ∧
      (replayedLog last log n).foldlM (fun s x => Objects.applyBlock s P x.1 x.2) n.objects =
        .ok n'.objects := by
  induction log generalizing n with
  | nil => cases hstep
  | cons b log ih =>
    obtain ⟨n1, hblock, hrest⟩ := of_bind hstep
    obtain ⟨h1, hs⟩ := h.applyLoggedBlock hblock
    rw [replayedLog, hblock]
    dsimp only
    split_ifs at hrest ⊢ with hlast
    · obtain ⟨h', hpre, hfold⟩ := ih h1 hrest
      exact ⟨h', cons_prefix_cons.2 ⟨rfl, hpre⟩, foldlM_cons_ok_iff.2 ⟨_, hs, hfold⟩⟩
    · cases hrest
      exact ⟨h1, cons_prefix_cons.2 ⟨rfl, List.nil_prefix⟩, foldlM_cons_ok_iff.2 ⟨_, hs, rfl⟩⟩

end Node

/-! ## Runs -/

namespace Node

variable {P : Params} {n n' : Node P}

theorem grown_of_tip {s : Objects} (htip : s.TipOk) (hlow : s.headBlockNum < 2 ^ 32) :
    Grown ⟨s, s.headBlockNum, []⟩ := by
  refine ⟨.init s, fun t ht => ?_, by nofun⟩
  cases mem_singleton.1 ht
  exact ⟨htip, hlow⟩

theorem sound_of_single {h : Option ForkItem} (hgrown : Grown n.db)
    (hitems : ∀ x, n.forkDb.Holds x → h = some x) (hhead : n.forkDb.head = h)
    (hpos : ∀ x, h = some x → 0 < x.num) (hstarted : h = none → n.objects.headBlockNum = 0)
    (hlinks : ∀ x p, n.forkDb.prev x = some p → 0 < x.num) : n.Sound [] where
  grown := hgrown
  sane := ⟨hlinks, fun x hx => .inr (hpos x (hitems x hx))⟩
  pinned := nofun
  started hnone := hstarted (hhead.symm.trans hnone)

theorem Sound.opened {F : ForkDatabase P.toCrypto} (h : n.Sound []) (checkpoints : List (Nat × BlockId))
    (draws : Nat) (hF : startForkDb P n.blockLog n.db.oldest.dgp = .ok F) :
    ({ Node.opened P n.db.oldest n.db.oldest.headBlockNum F n.blockLog draws with
      checkpoints := checkpoints } : Node P).Sound [] := by
  obtain ⟨htip, hlow⟩ := h.grown.tips _ (mem_of_getElem? n.db.getElem?_states_length)
  have hgrown := grown_of_tip htip hlow
  unfold startForkDb at hF
  split_ifs at hF with hzero
  · cases hF
    refine sound_of_single (h := none) hgrown (fun x hx => ?_) rfl (fun x hx => ?_) (fun _ => hzero)
      fun x p hp => ?_
    · simp [ForkDatabase.Holds, Node.opened, ForkDatabase.empty] at hx
    · cases hx
    · cases hp
  · split at hF
    · cases hF
    · next b hfind =>
      obtain ⟨_, -, hF⟩ := of_bind hF
      cases hF
      have hnum : b.blockNum = n.db.oldest.dgp.headBlockNumber := by simpa using find?_some hfind
      refine sound_of_single (h := some ⟨0, b⟩) hgrown (fun x hx => ?_) rfl (fun x hx => ?_) (fun hnone => ?_)
        fun x p hp => ?_
      · simp [ForkDatabase.Holds, Node.opened, ForkDatabase.startBlock, ForkDatabase.empty,
          insertItem, findItem] at hx
        exact congrArg some hx.symm
      · cases hx
        change 0 < b.blockNum
        omega
      · cases hnone
      · cases hp

end Node

namespace Node

variable {P : Params} {n n' : Node P} {blocks : List (Env × SignedBlock)}

theorem bare_wiped_started (P : Params) (log : List SignedBlock) (draws : Nat)
    (checkpoints : List (Nat × BlockId)) :
    ({ started P log draws with checkpoints := checkpoints } : Node P).wiped.Bare :=
  ⟨rfl, rfl, fun x hx => by simp [ForkDatabase.Holds, wiped, started, init, clearPending,
    ForkDatabase.reset] at hx,
    nofun⟩

theorem tip_of_foldlM {s s' : Objects} (htip : s.TipOk) (hlow : s.headBlockNum < 2 ^ 32)
    (hnums : blocks.map (fun x => x.2.blockNum) = List.range' (s.headBlockNum + 1) blocks.length)
    (hfold : blocks.foldlM (fun s x => Objects.applyBlock s P x.1 x.2) s = .ok s') :
    s'.TipOk ∧ s'.headBlockNum < 2 ^ 32 := by
  induction blocks generalizing s with
  | nil =>
    cases hfold
    exact ⟨htip, hlow⟩
  | cons x blocks ih =>
    obtain ⟨s1, hs1, hrest⟩ := foldlM_cons_ok_iff.1 hfold
    rw [map_cons, length_cons, range'_succ] at hnums
    obtain ⟨hnum, hnums'⟩ := List.cons.inj hnums
    obtain ⟨htip1, hnum1⟩ := tip_of_next hs1 htip hnum
    refine ih htip1 ?_ ?_ hrest
    · rw [hnum1]
      exact Nat.mod_lt _ (by decide)
    · rw [hnums', hnum1, hnum]

theorem Bare.replay {last : Nat} (h : n.Bare) (hrevision : n.db.revision = n.objects.headBlockNum)
    (hstep : n.replay last = .ok n') :
    n'.Bare ∧ n'.db = ⟨n'.objects, n'.objects.headBlockNum, []⟩ ∧
      (n.replayedBlocks last).map Prod.snd <+: n.blockLog.drop n.objects.headBlockNum ∧
      (n.replayedBlocks last).foldlM (fun s x => Objects.applyBlock s P x.1 x.2) n.objects =
        .ok n'.objects := by
  have hdb {m : Node P} (hm : m.Bare) (r : Nat) : ({ m.db with revision := r } : UndoStack Objects) =
      ⟨m.objects, r, []⟩  := by
    simp only [hm.saved]
    rfl
  unfold Node.replay at hstep
  unfold replayedBlocks
  split_ifs at hstep ⊢
  · obtain ⟨_, -, hstep⟩ := of_bind hstep
    obtain ⟨m, hlog, hstep⟩ := of_bind hstep
    obtain ⟨hm, hpre, hfold⟩ := h.replayLog hlog
    rw [setRevision?_of_nil _ hm.saved] at hstep
    cases hstep
    exact ⟨⟨hm.saved, hm.head, hm.items, hm.links⟩, hdb hm _, hpre, hfold⟩
  · cases hstep
    refine ⟨h, ?_, List.nil_prefix, rfl⟩
    rw [← hrevision]
    exact hdb h n.db.revision

theorem nums_of_prefix {log : List SignedBlock}
    (hlog : log.map (fun b => b.blockNum) = List.range' 1 log.length) (hpre : blocks.map Prod.snd <+: log) :
    blocks.map (fun x => x.2.blockNum) = List.range' 1 blocks.length := by
  have hnums := hpre.map fun b => b.blockNum
  have hle : blocks.length ≤ log.length := by simpa using hpre.length_le
  rw [map_map, hlog, prefix_iff_eq_take, length_map, take_range'_of_length_ge hle] at hnums
  exact hnums

theorem reindex_applies {stopAtBlock : Nat} (hbare : n.wiped.Bare)
    (hlog : n.blockLog.map (fun b => b.blockNum) = List.range' 1 n.blockLog.length)
    (hstep : n.reindex stopAtBlock = .ok n') :
    n'.Sound [] ∧ n'.db = ⟨n'.objects, n'.objects.headBlockNum, []⟩ ∧
      (n.reindexedBlocks stopAtBlock).map (fun x => x.2.blockNum) =
        List.range' 1 (n.reindexedBlocks stopAtBlock).length ∧
      (n.reindexedBlocks stopAtBlock).foldlM (fun s x => Objects.applyBlock s P x.1 x.2)
        (genesis P.initPublicKey) = .ok n'.objects := by
  unfold reindex at hstep
  unfold reindexedBlocks
  cases hhead : n.blockLog.getLast? with
  | none =>
    rw [hhead] at hstep
    cases hstep
  | some head =>
    rw [hhead] at hstep
    have hmem : head.blockNum ∈ n.blockLog.map fun b => b.blockNum :=
      mem_map_of_mem (mem_of_getLast? hhead)
    rw [hlog, mem_range'_1] at hmem
    dsimp only
    obtain ⟨m, hreplay, hn'⟩ := of_bind hstep
    obtain ⟨hm, hdb, hpre, hfold⟩ := hbare.replay rfl hreplay
    rw [if_neg (by omega)] at hn'
    cases hn'
    have hnums := nums_of_prefix hlog hpre
    obtain ⟨htip, hlow⟩ := tip_of_foldlM (s := genesis P.initPublicKey) ⟨rfl, rfl⟩
      (Nat.two_pow_pos 32) hnums hfold
    refine ⟨?_, hdb, hnums, hfold⟩
    refine sound_of_single (h := some ⟨m.forkDb.nextSerial, head⟩) ?_ (fun x hx => ?_) rfl
      (fun x hx => ?_) nofun
      hm.links
    · exact hdb ▸ grown_of_tip htip hlow
    · have hindex : m.forkDb.index = [] := eq_nil_iff_forall_not_mem.2 fun y hy =>
        hm.items y (mem_append_left _ (mem_append_left _ hy))
      have hunlinked : m.forkDb.unlinked = [] := eq_nil_iff_forall_not_mem.2 fun y hy =>
        hm.items y (mem_append_left _ (mem_append_right _ hy))
      simp [ForkDatabase.Holds, ForkDatabase.startBlock, hindex, hunlinked, insertItem, findItem] at hx
      exact congrArg some hx.symm
    · cases hx
      exact hmem.1

end Node

/-- A node's pushes and restarts, with the events the plugin hears. -/
inductive HistoryRun (P : Params) : Node P → List HistoryEvent → Prop where
  | init (checkpoints : List (Nat × BlockId)) :
      HistoryRun P { Node.init P with checkpoints := checkpoints } []
  | pushBlock {n : Node P} {events : List HistoryEvent} (skip : SkipFlags) (budget : Nat) (b : SignedBlock)
      (h : HistoryRun P n events) (hskip : skip.skipForkDb = false) :
      HistoryRun P (n.pushBlock skip budget b).1 (events ++ (n.pushBlockEvents skip b).map .chain)
  | pushTransaction {n : Node P} {events : List HistoryEvent} (skip : SkipFlags) (t : SignedTransaction)
      (h : HistoryRun P n events) : HistoryRun P (n.pushTransaction skip t).1 events
  | restart {n : Node P} {events : List HistoryEvent} {F : ForkDatabase P.toCrypto} (draws : Nat)
      (checkpoints : List (Nat × BlockId)) (h : HistoryRun P n events)
      (hF : startForkDb P n.blockLog n.db.oldest.dgp = .ok F) :
      HistoryRun P { Node.opened P n.db.oldest n.db.oldest.headBlockNum F n.blockLog draws with
        checkpoints := checkpoints } (events ++ [.restart])
  | reindex {n n' : Node P} {events : List HistoryEvent} (draws stopAtBlock : Nat)
      (checkpoints : List (Nat × BlockId)) (h : HistoryRun P n events)
      (hlog : n.blockLog.map (fun b => b.blockNum) = List.range' 1 n.blockLog.length)
      (hreindex : ({ Node.started P n.blockLog draws with checkpoints := checkpoints } : Node P).reindex
        stopAtBlock = .ok n') :
      HistoryRun P n' (events ++ [.reindex (({ Node.started P n.blockLog draws with
        checkpoints := checkpoints } : Node P).reindexedBlocks stopAtBlock)])

namespace HistoryRun

variable {P : Params} {n : Node P} {events : List HistoryEvent} (cfg : HistoryConfig)

structure Follows (n : Node P) (events : List HistoryEvent) : Prop where
  sound : n.Sound []
  chain : (events.foldl (step cfg P) (.init P)).chain = n.db
  order : ∀ p ∈ Run.states (step cfg P) (.init P) events, p.2.InOrder P p.1

variable {cfg}

theorem Follows.append {n' : Node P} {more : List HistoryEvent} (h : Follows cfg n events)
    (hsound : n'.Sound [])
    (hchain : ∀ H : WalletHistory, H.chain = n.db → (more.foldl (step cfg P) H).chain = n'.db)
    (horder : ∀ H : WalletHistory, H.chain = n.db →
      ∀ p ∈ Run.states (step cfg P) H more, p.2.InOrder P p.1) :
    Follows cfg n' (events ++ more) where
  sound := hsound
  chain := by
    rw [foldl_append]
    exact hchain _ h.chain
  order p hp := by
    rw [Run.states_append] at hp
    exact (mem_append.1 hp).elim (h.order p) (horder _ h.chain p)

theorem follows (cfg : HistoryConfig) (h : HistoryRun P n events) : Follows cfg n events := by
  induction h with
  | init checkpoints => exact ⟨.init P checkpoints, rfl, fun p hp => absurd hp not_mem_nil⟩
  | pushBlock skip budget b h hskip ih =>
    obtain ⟨hsound, -, horder⟩ := pushBlock_leads ih.sound hskip budget b
    refine ih.append hsound (fun H hH => ?_) fun H hH p hp => ?_
    · rw [Run.foldl_part (step_chain cfg), hH]
      exact pushBlock_leadsBy _ skip budget b
    · obtain ⟨e, he, hmem⟩ := Run.states_part (step_chain cfg) H _ p hp
      rw [hH] at hmem
      rw [he]
      exact horder _ hmem
  | pushTransaction skip t h ih =>
    refine ⟨(pushTransaction_leads ih.sound skip t).1, ih.chain.trans ?_, ih.order⟩
    exact (congrArg Prod.fst (pushTransaction_chain _ skip t)).symm
  | restart draws checkpoints h hF ih =>
    refine ih.append (ih.sound.opened checkpoints draws hF) (fun H hH => ?_) fun H hH p hp => ?_
    · change H.db.undoAll.map HistoryState.objects = _
      have hlevel := ih.sound.grown.tracks.level_oldest_add fun _ _ => id
      rw [map_undoAll, show H.db.map HistoryState.objects = _ from hH, undoAll, ← hlevel,
        Nat.add_sub_cancel]
      rfl
    · rw [mem_singleton.1 hp]
      trivial
  | reindex draws stopAtBlock checkpoints h hlog hreindex ih =>
    obtain ⟨hsound, hdb, hnums, hfold⟩ := reindex_applies (bare_wiped_started ..) hlog hreindex
    refine ih.append hsound (fun H hH => ?_) fun H hH p hp => ?_
    · have hobjects := ((Replaying.init P).foldl cfg hnums hfold).2
      rw [hdb, ← hobjects]
      rfl
    · rw [mem_singleton.1 hp]
      exact ⟨hnums, _, hfold⟩

end HistoryRun

theorem stored_exactly_once_iff {P : Params} {n : Node P} {events : List HistoryEvent} (cfg : HistoryConfig)
    (h : HistoryRun P n events) :
    let states := Run.states (step cfg P) (.init P) events
    let last := events.foldl (step cfg P) (.init P)
    last.chain = n.db ∧
      ((∀ p ∈ states, p.1.Exact) ∧ last.Exact ↔ ∀ p ∈ states, p.2.Settles cfg P p.1) := by
  have hfollows := h.follows cfg
  refine ⟨hfollows.chain, ?_⟩
  have hrun := Run.of_foldl_of_forall (Q := fun p => p.2.InOrder P p.1) (.init P) events hfollows.order
  refine hrun.invariant_iff (J := Sound) (C := fun p => p.2.Settles cfg P p.1) (.init P)
    (fun hsound => hsound.2) ?_
  rintro s s' e hsound ⟨horder, rfl⟩
  obtain ⟨htidy, hiff⟩ := step_exact_iff cfg hsound horder
  exact ⟨fun hsettles => ⟨htidy, hiff.2 hsettles⟩, hiff.1⟩

namespace Node

def historyEvents {P : Params} : Node P → List PushCall → List HistoryEvent
  | _, [] => []
  | n, c :: cs => (n.pushBlockEvents c.skip c.block).map .chain ++
      historyEvents (n.pushBlock c.skip c.budget c.block).1 cs

end Node

theorem HistoryRun.pushCalls {P : Params} {n : Node P} {events : List HistoryEvent} (h : HistoryRun P n events)
    (calls : List PushCall) (hskip : ∀ c ∈ calls, c.skip.skipForkDb = false) :
    HistoryRun P (n.pushCalls calls) (events ++ n.historyEvents calls) := by
  induction calls generalizing n events with
  | nil =>
    rw [historyEvents, append_nil]
    exact h
  | cons c cs ih =>
    have hrest := ih (h.pushBlock c.skip c.budget c.block (hskip c (.head _)))
      fun c hc => hskip c (.tail _ hc)
    rw [append_assoc] at hrest
    exact hrest

instance (cfg : HistoryConfig) (P : Params) (h : WalletHistory) (e : HistoryEvent) :
    Decidable (e.Settles cfg P h) := by
  unfold HistoryEvent.Settles
  split <;> infer_instance

def trackAll : HistoryConfig := ⟨fun _ => true, fun _ => [xgtInitMinerName]⟩

def historyTrunk : List SignedBlock :=
  let first := toyBlock .zero 1
    [toyTransaction 0 [.transfer toyTransfer] [1] (xgtGenesisTime + 30)]
  first :: toyChain (toyId first) 2 9

def historyTip : BlockId :=
  toyId (historyTrunk.getLast?.getD (toyBlock .zero 0))

def historyCalls (blocks : List SignedBlock) : List PushCall := blocks.map fun b => ⟨skipNothing, 0, b⟩

theorem stored_exactly_once_chain :
    let calls := historyCalls (historyTrunk ++ toyChain historyTip 20 2)
    let events := (Node.init toyParams).historyEvents calls
    let last := events.foldl (step trackAll toyParams) (.init toyParams)
    last.Exact ∧ last.store.map StoredOperation.op = [.transfer toyTransfer] := by
  intro calls events last
  have hrun : HistoryRun toyParams _ ([] ++ events) := (HistoryRun.init []).pushCalls calls (by decide)
  refine ⟨((stored_exactly_once_iff trackAll hrun).2.2 ?_).2, ?_⟩ <;> decide +kernel

theorem stored_twice : ∃ (n : Node toyParams) (events : List HistoryEvent), HistoryRun toyParams n events ∧
    let last := events.foldl (step trackAll toyParams) (.init toyParams)
    last.store.map StoredOperation.op = [.transfer toyTransfer, .transfer toyTransfer] ∧
      last.db.oldest.tracked.map VolatileOperation.op = [.transfer toyTransfer] ∧ ¬last.Exact := by
  let calls := historyCalls (historyTrunk ++ toyChain historyTip 20 1 ++
    toyChain historyTip 40 2)
  have hrun : HistoryRun toyParams _ ([] ++ (Node.init toyParams).historyEvents calls) :=
    (HistoryRun.init []).pushCalls calls (by decide)
  have hstore : ((((Node.init toyParams).historyEvents calls).foldl (step trackAll toyParams)
      (.init toyParams)).store.map StoredOperation.op) = [.transfer toyTransfer, .transfer toyTransfer] := by
    decide +kernel
  have htracked : ((((Node.init toyParams).historyEvents calls).foldl (step trackAll toyParams)
      (.init toyParams)).db.oldest.tracked.map VolatileOperation.op) = [.transfer toyTransfer] := by
    decide +kernel
  refine ⟨_, _, hrun, hstore, htracked, fun hexact => ?_⟩
  have hlength := hexact.length_eq
  rw [length_map] at hlength
  have htwo := congrArg List.length hstore
  have hone := congrArg List.length htracked
  rw [length_map] at htwo hone
  exact absurd (htwo.symm.trans (hlength.trans hone)) (by decide)

end Xgt
