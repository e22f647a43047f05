import XgtChain.Chain.SessionRuns
import XgtChain.Chain.ForkThreads

/-!
# The applied blocks, the fork database and the log

Blocks are applied from what `push_block` is given, and written to the log later from the fork database.
-/

namespace Xgt

open Base Chainbase ForkDatabase List BlockId Option

/-- An application that reads blocks, all of them from `B`, as after the applied blocks. -/
structure Env.Follows (P : Params) (B : SignedBlock → Prop) (applied : List SignedBlock) (env : Env) :
    Prop where
  producing : env.producing = false
  pendingTx : env.pendingTx = false
  fetchBlockById : ∀ id c, env.fetchBlockById id = some c → B c ∧ P.blockId c.toSignedBlockHeader = id
  head : ∀ c ∈ applied.head?, (env.fetchBlockById (P.blockId c.toSignedBlockHeader)).isSome
  prior : ∀ c ∈ applied, c.blockNum + xgtMaxWitnesses ≤ applied.length →
    env.fetchPriorBlock c.blockNum = some c

variable (P : Params)

/-- Some application of `b` after the applied blocks, with flags from `S`, gives the new objects. -/
def MadeBy (B : SignedBlock → Prop) (S : SkipFlags → Prop) (applied : List SignedBlock)
    (old : Objects) (b : SignedBlock) (new : Objects) : Prop :=
  ∃ env, S env.skip ∧ env.Follows P B applied ∧ old.applyBlock P env b = .ok new

/-- Each state is made from the next one by its block, the newest first. -/
def Traced (P : Params) (B : SignedBlock → Prop) (S : SkipFlags → Prop) :
    List Objects → List SignedBlock → Prop
  | [], _ => True
  | s :: states, blocks => Lineage P.toCrypto blocks s.headBlockId ∧
      (∀ old ∈ states.head?, ∃ b ∈ blocks.head?, MadeBy P B S blocks.tail old b s) ∧
      Traced P B S states blocks.tail

theorem head?_mono {α : Type} {a : α} {l l' : List α} (hpre : l' <+: l) (ha : l'.head? = some a) :
    l.head? = some a := by
  obtain ⟨t, rfl⟩ := hpre
  rw [head?_append, ha]
  rfl

theorem Traced.of_prefix {P : Params} {B : SignedBlock → Prop} {S : SkipFlags → Prop} {l l' : List Objects}
    {blocks : List SignedBlock} (h : Traced P B S l blocks) (hpre : l' <+: l) : Traced P B S l' blocks := by
  induction l' generalizing l blocks with
  | nil => trivial
  | cons s l' ih =>
    obtain ⟨t, rfl⟩ := hpre
    exact ⟨h.1, fun old hold => h.2.1 old (head?_mono ⟨t, rfl⟩ hold), ih h.2.2 ⟨t, rfl⟩⟩

/-- The sessions and the applied blocks, the newest first, after an event. -/
def appliedStep (r : UndoStack Objects × List SignedBlock) (e : ChainEvent) :
    UndoStack Objects × List SignedBlock :=
  (chainStep P r.1 e, match e with
    | .apply _ b true => b :: r.2
    | .apply _ _ false => r.2
    | .pop => if r.1.saved = [] then r.2 else r.2.tail)

/-- The database has the sessions and the blocks that the events leave. -/
def DbState.After (d : DbState) (events : List ChainEvent) (d' : DbState) : Prop :=
  (d'.db, d'.applied) = events.foldl (appliedStep P) (d.db, d.applied)

theorem DbState.After.trans {P : Params} {d d' d'' : DbState} {events events' : List ChainEvent}
    (h : d.After P events d') (h' : d'.After P events' d'') : d.After P (events ++ events') d'' := by
  unfold DbState.After at *
  rw [foldl_append, ← h, h']

namespace Node

variable {P} {B : SignedBlock → Prop} {S : SkipFlags → Prop} {n n' n'' : Node P}
  {d d' d'' : DbState} {events events' : List ChainEvent} {skip : SkipFlags}
    {pinned : List ForkItem} {b c : SignedBlock}
  {t : ForkItem} {xs : List ForkItem} {r : Result Unit} {id : BlockId} {well : Prop}

/-! ## The log, the fork database and the applied blocks -/

/-- The fork database links the block. -/
def Indexed (n : Node P) (b : SignedBlock) : Prop :=
  ∃ x ∈ n.forkDb.index, x.id P.toCrypto = P.blockId b.toSignedBlockHeader

/-- The database holds the node's state, each of its states is made by its block, the log has the
committed blocks, and the fork database has the others below the head. -/
structure Joined (B : SignedBlock → Prop) (S : SkipFlags → Prop) (pinned : List ForkItem) (d : DbState)
    (n : Node P) : Prop where
  holds : d.Holds n
  valid : d.Valid
  sound : n.Sound pinned
  traced : Traced P B S n.db.states d.applied
  blocks : ∀ b ∈ d.applied, B b
  items : n.forkDb.Sane fun x => B x.data
  pinned : ∀ x ∈ pinned, B x.data
  threaded : n.forkDb.Threaded
  kept : ∀ c ∈ d.applied.tail, d.committed < c.blockNum → n.Indexed c
  logged : ∀ c ∈ n.blockLog, c ∈ d.applied
  numbers : n.blockLog.map (fun c => c.blockNum) = List.range' 1 d.committed

/-- The fork database has the head as well. -/
def AllKept (d : DbState) (n : Node P) : Prop :=
  ∀ c ∈ d.applied, d.committed < c.blockNum → n.Indexed c

/-- The fork database's head is an item of the chain's head. -/
def Topped (n : Node P) : Prop :=
  ∃ x ∈ n.forkDb.index, n.forkDb.head = some x ∧ x.id P.toCrypto = n.headBlockId

section

variable (h : Joined B S pinned d n)
include h

theorem Joined.lineage : Lineage P.toCrypto d.applied n.headBlockId := h.traced.1

theorem Joined.headBlockNum : d.headBlockNum = n.objects.headBlockNum :=
  congrArg (fun u : UndoStack Objects => u.state.headBlockNum) h.holds.db

theorem Joined.logHeadNum : n.logHeadNum = d.committed := by
  have hlast : (n.blockLog.getLast?).map (fun c => c.blockNum) = (List.range' 1 d.committed).getLast? := by
    rw [← getLast?_map, h.numbers]
  unfold Node.logHeadNum
  cases hlog : n.blockLog.getLast? with
  | none =>
    rw [getLast?_eq_none_iff] at hlog
    have hnil : List.range' 1 d.committed = [] := by rw [← h.numbers, hlog]; rfl
    exact (range'_eq_nil_iff.1 hnil).symm
  | some c =>
    rw [hlog] at hlast
    cases hcommitted : d.committed with
    | zero =>
      rw [hcommitted] at hlast
      cases hlast
    | succ k =>
      rw [hcommitted, range'_concat, getLast?_concat] at hlast
      have hnum : c.blockNum = 1 + 1 * k := some.inj hlast
      change c.blockNum = k + 1
      omega

theorem Joined.allKept
    (hhead : d.applied ≠ [] → ∃ x ∈ n.forkDb.index, x.id P.toCrypto = n.headBlockId) : AllKept d n := by
  intro c hc hnum
  have hkept := h.kept
  have hline := h.lineage
  cases happlied : d.applied with
  | nil =>
    rw [happlied] at hc
    cases hc
  | cons a applied =>
    rw [happlied] at hc hkept hline
    rcases mem_cons.1 hc with rfl | hc
    · obtain ⟨x, hx, hid⟩ := hhead (by rw [happlied]; exact cons_ne_nil _ _)
      exact ⟨x, hx, hid.trans hline.1.symm⟩
    · exact hkept c hc hnum

theorem Joined.applied_eq_nil (hzero : n.objects.headBlockNum = 0) : d.applied = [] := by
  have hnumbers := h.valid.numbers
  rw [h.headBlockNum, hzero] at hnumbers
  exact map_eq_nil_iff.1 hnumbers

theorem Joined.blockNum_le (hc : c ∈ d.applied) : c.blockNum ≤ n.objects.headBlockNum := by
  rw [← h.headBlockNum]
  exact h.valid.blockNum_le hc

end

theorem Sound.headBlockId_num (h : n.Sound pinned) : n.headBlockId.num = n.objects.headBlockNum :=
  h.grown.tip.1.1.symm

theorem Sound.headBlockId_lt (h : n.Sound pinned) : n.headBlockId.num < 2 ^ 32 :=
  h.headBlockId_num ▸ h.grown.tip.2

section

variable (h : Joined B S pinned d n)
include h

theorem Joined.committed_le : d.committed ≤ n.headBlockId.num := by
  rw [h.sound.headBlockId_num, ← h.headBlockNum]
  exact h.valid.spans.le.trans h.valid.grown.tracks.revision.le

theorem Joined.pin {pinned' : List ForkItem}
    (hcounted : ∀ x ∈ pinned', n.Counted x) (hblocks : ∀ x ∈ pinned', B x.data) : Joined B S pinned' d n :=
  { h with sound := h.sound.pin hcounted, pinned := hblocks }

theorem Joined.of_chain (hchain : n'.chain = n.chain) (hd' : d'.Holds n')
    (hvalid : d'.Valid) (happlied : d'.applied = d.applied) (hcommitted : d'.committed = d.committed) :
    Joined B S pinned d' n' := by
  have hsound := h.sound.of_chain hchain
  obtain ⟨db, forkDb, blockLog⟩ := n'
  obtain ⟨db', pending, applied, committed⟩ := d'
  cases hchain
  cases happlied
  cases hcommitted
  exact { h with holds := hd', valid := hvalid, sound := hsound }

theorem Joined.of_forkDb {F : ForkDatabase P.toCrypto}
    (hsound : ({ n with forkDb := F } : Node P).Sound pinned) (hitems : F.Sane fun x => B x.data)
    (hthreaded : F.Threaded)
    (hkept : ∀ c ∈ d.applied.tail, d.committed < c.blockNum → ({ n with forkDb := F } : Node P).Indexed c) :
    Joined B S pinned d { n with forkDb := F } :=
  { h with
    holds := ⟨h.holds.db, h.holds.pending⟩
    sound := hsound
    items := hitems
    threaded := hthreaded
    kept := hkept }

theorem Joined.setHead {x : ForkItem} (hidle : n.pendingState = none)
    (hx : x ∈ pinned) : Joined B S pinned d { n with forkDb := n.forkDb.setHead x } := by
  have hheld (y : ForkItem) (hy : (n.forkDb.setHead x).Holds y) : n.forkDb.Holds y ∨ y ∈ pinned := by
    rcases holds_of_setHead hy with hy | rfl
    · exact .inl hy
    · exact .inr hx
  exact h.of_forkDb (h.sound.moves_setHead hidle hx).sound
    (h.items.of_holds rfl fun y hy => (hheld y hy).imp_right (h.pinned y)) (h.threaded.setHead x) h.kept

theorem Joined.remove (hidle : n.pendingState = none)
    (hid : ∀ c ∈ d.applied, P.blockId c.toSignedBlockHeader ≠ id) :
    Joined B S pinned d { n with forkDb := n.forkDb.remove id } ∧
      (AllKept d n → AllKept d { n with forkDb := n.forkDb.remove id }) := by
  have hindexed (c : SignedBlock) (hc : c ∈ d.applied) (hknown : n.Indexed c) :
      ({ n with forkDb := n.forkDb.remove id } : Node P).Indexed c := by
    obtain ⟨x, hx, hxc⟩ := hknown
    refine ⟨x, mem_filter.2 ⟨hx, ?_⟩, hxc⟩
    rw [hxc]
    exact decide_eq_true (hid c hc)
  have hsound := (h.sound.moves_forkDb (F := n.forkDb.remove id) hidle rfl
    (fun _ hy => .inl (holds_of_remove hy)) fun h => h).sound
  refine ⟨h.of_forkDb hsound (h.items.of_holds rfl fun _ hy => .inl (holds_of_remove hy)) (h.threaded.remove id)
    fun c hc hnum => ?_, fun hall c hc hnum => ?_⟩
  · exact hindexed c (mem_of_mem_tail hc) (h.kept c hc hnum)
  · exact hindexed c hc (hall c hc hnum)

end

/-- The events lead from the one node to the other, and the database follows. -/
structure Reached (B : SignedBlock → Prop) (S : SkipFlags → Prop) (pinned : List ForkItem)
    (d : DbState) (n : Node P) (events : List ChainEvent) (d' : DbState) (n' : Node P) : Prop where
  walk : ∃ l, Walk P d l d'
  after : d.After P events d'
  joined : Joined B S pinned d' n'
  idle : n'.pendingState = none
  committed : d.committed ≤ d'.committed
  retains : ∀ x ∈ n.forkDb.index, d'.committed < x.num → x ∈ n'.forkDb.index

theorem Reached.of_joined (h : Joined B S pinned d n') (hidle : n'.pendingState = none)
    (hindex : n.forkDb.index ⊆ n'.forkDb.index) : Reached B S pinned d n [] d n' :=
  ⟨⟨[], .nil⟩, rfl, h, hidle, le_rfl, fun _ hx _ => hindex hx⟩

theorem Reached.refl (h : Joined B S pinned d n) (hidle : n.pendingState = none) :
    Reached B S pinned d n [] d n :=
  .of_joined h hidle (List.Subset.refl _)

theorem Reached.trans (h : Reached B S pinned d n events d' n')
    (h' : Reached B S pinned d' n' events' d'' n'') :
    Reached B S pinned d n (events ++ events') d'' n'' := by
  obtain ⟨l, hwalk⟩ := h.walk
  obtain ⟨l', hwalk'⟩ := h'.walk
  exact ⟨⟨l' ++ l, hwalk.append hwalk'⟩, h.after.trans h'.after, h'.joined, h'.idle,
    h.committed.trans h'.committed,
    fun x hx hnum => h'.retains x (h.retains x hx (h'.committed.trans_lt hnum)) hnum⟩

/-- The events only pop blocks. -/
structure Unwound (B : SignedBlock → Prop) (S : SkipFlags → Prop) (pinned : List ForkItem)
    (d : DbState) (n : Node P)
    (events : List ChainEvent) (d' : DbState)
      (n' : Node P) : Prop extends Reached B S pinned d n events d' n' where
  allKept : AllKept d' n'
  covers : n.forkDb.Covers d.applied → n'.forkDb.Covers d'.applied
  committed_eq : d'.committed = d.committed
  index_eq : n'.forkDb.index = n.forkDb.index

/-! ## One block -/

section

variable (h : Joined B S pinned d n)
include h

theorem Joined.readBlockByNum (hc : c ∈ d.applied)
    (hle : c.blockNum ≤ d.committed) : n.readBlockByNum c.blockNum = some c := by
  have hpos := (h.valid.mem_numbers.1 ⟨c, hc, rfl⟩).1
  have hmem : c.blockNum ∈ n.blockLog.map fun c => c.blockNum := by
    rw [h.numbers, mem_range'_1]
    omega
  obtain ⟨c', hc', hnum⟩ := mem_map.1 hmem
  obtain ⟨c1, hfound⟩ : ∃ c1, n.readBlockByNum c.blockNum = some c1 :=
    isSome_iff_exists.1 (find?_isSome.2 ⟨c', hc', decide_eq_true hnum⟩)
  have hnum1 : c1.blockNum = c.blockNum := by simpa using find?_some hfound
  rw [hfound, h.valid.eq_of_blockNum_eq hc (h.logged c1 (mem_of_find?_eq_some hfound)) hnum1]

theorem Joined.known (hall : AllKept d n) (hc : c ∈ d.applied) :
    (n.fetchBlockById (P.blockId c.toSignedBlockHeader)).isSome := by
  unfold Node.fetchBlockById
  split
  · rfl
  · next hnone =>
    rcases Nat.lt_or_ge d.committed c.blockNum with hnum | hle
    · obtain ⟨x, hx, hid⟩ := hall c hc hnum
      have hknown : n.forkDb.Knows (P.blockId c.toSignedBlockHeader) := ⟨x, mem_append_left _ hx, hid⟩
      rw [← fetchBlock_isSome_iff, hnone] at hknown
      cases hknown
    · change ((n.readBlockByNum c.blockNum).filter _).isSome
      rw [h.readBlockByNum hc hle, filter_some, if_pos (decide_eq_true rfl)]
      rfl

theorem Joined.follows (hall : AllKept d n) (skip : SkipFlags) :
    (n.env skip false).Follows P B d.applied where
  producing := rfl
  pendingTx := rfl
  fetchBlockById id c hc := by
    refine ⟨?_, (env_sees n skip).fetchBlockById id c hc⟩
    change n.fetchBlockById id = some c at hc
    unfold Node.fetchBlockById at hc
    split at hc
    · next x hx =>
      cases hc
      exact h.items.held x (holds_of_fetchBlock hx)
    · have hlog := (filter_eq_some_iff.1 hc).1
      exact h.blocks c (h.logged c (mem_of_find?_eq_some hlog))
  head c hc := h.known hall (mem_of_head? hc)
  prior c hc hle := by
    change (n.readBlockByNum c.blockNum).or _ = some c
    have hlength : d.applied.length = d.headBlockNum := by simpa using congrArg List.length h.valid.numbers
    have hlib := h.valid.lastIrreversible_le
    have htip : d.lastIrreversibleBlockNum = d.headBlockNum - xgtMaxWitnesses := h.valid.grown.tip.1.2
    rw [h.readBlockByNum hc (by omega), some_or]

end

theorem mem_trimmed_index {t x : ForkItem} (hhead : n.forkDb.head = some t)
    (hnum : t.num = n.objects.headBlockNum) (htip : n.objects.TipOk) (hx : x ∈ n.forkDb.index)
    (hlib : n.objects.lib < x.num) : x ∈ n.trimmed.index := by
  have hten : xgtMaxWitnesses = 10 := rfl
  have hmax : xgtForkDbMaxSize = 1024 := rfl
  have hlib' := htip.2
  unfold trimmed
  rw [mem_setMaxSize_index (by rw [setMaxSize_head, hhead]),
    mem_setMaxSize_index hhead]
  exact ⟨⟨hx, by omega⟩, by omega⟩

section

variable (hB : IdsTell P.toCrypto B) (h : Joined B S pinned d n)
include hB h

theorem Joined.fetchBlock_mem {t z : ForkItem} {num : Nat} (hall : AllKept d n) (hhead : n.forkDb.head = some t)
    (hchild : t.data.previous = n.headBlockId) (hlow : d.committed < num)
    (hhigh : num ≤ n.objects.headBlockNum) (hlt : num < t.num)
    (hz : n.forkDb.fetchBlockOnMainBranchByNumber pinned num = some z) : z.data ∈ d.applied := by
  have hheld (y : ForkItem) (hy : n.forkDb.Holds y ∨ y ∈ pinned) : B y.data :=
    hy.elim (h.items.held y) (h.pinned y)
  have ht : B t.data := hheld t (.inl (by simp [ForkDatabase.Holds, hhead]))
  have hmem : z.data ∈ t.data :: d.applied := by
    refine fetchBlockOnMainBranchByNumber_mem hB (forall_mem_cons.2 ⟨ht, h.blocks⟩) hheld
      (by omega) hhead ⟨rfl, hchild ▸ h.lineage⟩ (fun _ _ => ?_) hz
    obtain ⟨c, hc, hnum⟩ := h.valid.mem_numbers.2 ⟨by omega, h.headBlockNum ▸ hhigh⟩
    exact ⟨c, .tail _ hc, hnum, hall c hc (by omega)⟩
  rcases mem_cons.1 hmem with heq | hmem
  · have hnum : z.num = t.num := congrArg (fun c : SignedBlock => c.blockNum) heq
    have hfound := fetchBlockOnMainBranchByNumber_num hz
    omega
  · exact hmem

theorem Joined.blocksToWrite {s : Objects} {blocks : List SignedBlock} (hall : AllKept d n)
    (hskip : skip.skipBlockLog = false) (hhead : n.forkDb.head = some t)
    (hchild : t.data.previous = n.headBlockId) (hnum : t.num = s.headBlockNum)
    (hnext : s.headBlockNum = n.objects.headBlockNum + 1) (htip : s.TipOk)
    (hblocks : ({ n.hand b with db := n.db.start.set s } : Node P).blocksToWrite skip pinned = .ok blocks) :
    blocks.map (fun c => c.blockNum) = List.range' (1 + d.committed)
      (s.lib - d.committed) ∧ ∀ c ∈ blocks, c ∈ d.applied := by
  have hten : xgtMaxWitnesses = 10 := rfl
  have hlib := htip.2
  unfold Node.blocksToWrite at hblocks
  rw [if_neg (by simp [hskip])] at hblocks
  change (List.range' (n.logHeadNum + 1) (s.lib - n.logHeadNum)).mapM
    (mainBranchBlock _ pinned) = _ at hblocks
  rw [h.logHeadNum, Nat.add_comm] at hblocks
  refine mapM_ok_map hblocks fun num hrange c hc => ?_
  rw [mem_range'_1] at hrange
  unfold mainBranchBlock at hc
  split at hc
  · next z hz =>
    cases hc
    exact ⟨fetchBlockOnMainBranchByNumber_num hz,
      h.fetchBlock_mem hB hall hhead hchild (by omega) (by omega) (by omega) hz⟩
  · cases hc

theorem applyBlock_joined {u : Unit} (hidle : n.pendingState = none) (hpos : ∀ x ∈ pinned, 0 < x.num)
    (hall : AllKept d n) (hskip : skip.skipBlockLog = false ∧ S skip) (hhead : n.forkDb.head = some t)
    (hchild : t.data.previous = n.headBlockId) (hb : B b) (hparent : b.previous = n.headBlockId)
    (hstep : n.applyBlock skip pinned b = (n', .ok u)) :
    ∃ d', Reached B S pinned d n (n.applyBlockEvents skip pinned b) d' n' ∧
      (n.Indexed b → AllKept d' n' ∧ (n.forkDb.Covers d.applied → n'.forkDb.Covers d'.applied)) := by
  have hmoves := applyBlock_moves h.sound hidle hpos hhead hchild hstep
  obtain ⟨s, hs, hmigrate⟩ := applyBlock_ok hstep
  obtain ⟨hnum, hnext⟩ := h.sound.num_of_applied hhead hchild hmigrate
  obtain ⟨blocks, -, hblocks, rfl⟩ := migrateIrreversibleState_ok hmigrate
  have htip : s.TipOk := hmoves.sound.grown.tip.1
  obtain ⟨hwritten, hlogged⟩ := h.blocksToWrite hB hall hskip.1 hhead hchild hnum hnext htip hblocks
  obtain ⟨cs, hcs, -⟩ := Objects.applyBlock_calls hs
  have hs' := hs
  rw [objects, ← h.holds.db] at hs' hcs
  have hstep' : DbStep P d (d.apply b s cs) :=
    .applied (h.holds.pending.trans hidle) hs' hcs (by rw [h.headBlockNum]; exact hnext)
  have hcommitted : (d.apply b s cs).committed = max d.committed s.lib := rfl
  have htips := Objects.applyBlock_tip hs
  -- what the trim keeps
  let m : Node P := { n.hand b with db := n.db.start.set s }
  have hretains (x : ForkItem) (hx : x ∈ n.forkDb.index) (hxnum : (d.apply b s cs).committed < x.num) :
      x ∈ m.trimmed.index :=
    mem_trimmed_index (n := m) hhead hnum htip hx ((le_max_right _ _).trans_lt (hcommitted ▸ hxnum))
  have hindexed (c : SignedBlock) (hc : n.Indexed c) (hcnum : (d.apply b s cs).committed < c.blockNum) :
      ∃ x ∈ m.trimmed.index, x.id P.toCrypto = P.blockId c.toSignedBlockHeader := by
    obtain ⟨x, hx, hid⟩ := hc
    have hxnum : x.num = c.blockNum := congrArg num hid
    exact ⟨x, hretains x hx (hxnum ▸ hcnum), hid⟩
  have hkept (c : SignedBlock) (hc : c ∈ d.applied) (hcnum : (d.apply b s cs).committed < c.blockNum) :
      ∃ x ∈ m.trimmed.index, x.id P.toCrypto = P.blockId c.toSignedBlockHeader :=
    hindexed c (hall c hc ((le_max_left _ _).trans_lt (hcommitted ▸ hcnum))) hcnum
  have hafter : d.After P (n.applyBlockEvents skip pinned b) (d.apply b s cs) := by
    unfold DbState.After applyBlockEvents
    rw [hstep]
    change _ = appliedStep P (d.db, d.applied) (.apply _ b true)
    simp only [appliedStep, chainStep, hs']
    rfl
  refine ⟨d.apply b s cs, ⟨⟨_, .single hstep'⟩, hafter,
    ⟨⟨?_, h.holds.pending⟩, h.valid.step hstep', hmoves.sound, ?_,
    ?_, ?_, h.pinned, ?_, hkept, ?_, ?_⟩, hidle, le_max_left _ _, hretains⟩, fun hbknown =>
      ⟨fun c hc hcnum => ?_,
    fun hcovers => ((hcovers.cons hbknown).setMaxSize _).setMaxSize _⟩⟩
  · change (d.db.start.set s).commit _ = (n.db.start.set s).commit _
    rw [h.holds.db]
    rfl
  · -- the newest state is at the block, and the others are as they were
    have hpre := (UndoStack.commit_shortens (n.db.start.set s) s.lib).map
      Prod.snd
    refine ⟨⟨(congrArg (fun t => t.2.1) htips).symm, ?_⟩, fun old hold => ?_, h.traced.of_prefix hpre⟩
    · rw [hparent]
      exact h.lineage
    · have hhead := head?_mono hpre hold
      cases (show n.db.state = old from some.inj hhead)
      exact ⟨b, rfl, n.env skip false, hskip.2, h.follows hall skip, hs⟩
  · exact forall_mem_cons.2 ⟨hb, h.blocks⟩
  · refine h.items.of_holds ?_ fun x hx => .inl ?_
    · rw [setMaxSize_prev, setMaxSize_prev]
      rfl
    · have hheads (size : Nat) : (n.forkDb.setMaxSize size).head = some t := by
        rw [setMaxSize_head, hhead]
      exact (holds_of_setMaxSize hhead
        (holds_of_setMaxSize (hheads _) hx).1).1
  · exact (h.threaded.setMaxSize _).setMaxSize _
  · intro c hc
    rcases mem_append.1 hc with hc | hc
    · exact .tail _ (h.logged c hc)
    · exact .tail _ (hlogged c hc)
  · change (n.blockLog ++ blocks).map _ = _
    rw [map_append, h.numbers, hwritten, hcommitted]
    rcases Nat.le_total s.lib d.committed with hle | hle
    · rw [Nat.sub_eq_zero_of_le hle, max_eq_left hle]
      exact append_nil _
    · rw [max_eq_right hle, range'_append_1, Nat.add_sub_cancel' hle]
  · rcases mem_cons.1 hc with rfl | hc
    · exact hindexed c hbknown hcnum
    · exact hkept c hc hcnum

end

theorem applyBlock_forkDb_head {u : Unit} (hhead : n.forkDb.head = some t)
    (hstep : n.applyBlock skip pinned b = (n', .ok u)) :
    n'.forkDb.head = some t ∧ (t ∈ n.forkDb.index → t ∈ n'.forkDb.index) := by
  obtain ⟨s, -, hmigrate⟩ := applyBlock_ok hstep
  obtain ⟨blocks, -, -, rfl⟩ := migrateIrreversibleState_ok hmigrate
  have hhead' (size : Nat) : (n.forkDb.setMaxSize size).head = some t := by
    rw [setMaxSize_head, hhead]
  refine ⟨?_, fun ht => ?_⟩
  · exact (setMaxSize_head ..).trans (hhead' _)
  · refine (mem_setMaxSize_index (hhead' _)).2 ⟨?_, Nat.sub_le _ _⟩
    exact (mem_setMaxSize_index hhead).2 ⟨ht, Nat.sub_le _ _⟩

section

variable (h : Joined B S pinned d n) (hidle : n.pendingState = none)
include h hidle

theorem applyBlock_refused {e : Exc} (hstep : n.applyBlock skip pinned b = (n', .error e)) :
    Reached B S pinned d n (n.applyBlockEvents skip pinned b) d n' := by
  rw [applyBlock_error hstep]
  refine ⟨⟨[], .nil⟩, ?_, { h with holds := ⟨h.holds.db, h.holds.pending⟩, sound := h.sound.of_eq rfl rfl },
    hidle, le_rfl, fun _ hx _ => hx⟩
  unfold DbState.After applyBlockEvents
  rw [hstep]
  rfl

theorem Joined.pop {p : ForkItem} (hp : n.forkDb.Holds p ∨ p ∈ pinned) (hsound : n'.Sound pinned)
    (hdb : n'.db = n.db.undo) (hforkDb : n'.forkDb = n.forkDb.setHead p) (hlog : n'.blockLog = n.blockLog)
    (hidle' : n'.pendingState = none) : Joined B S pinned d.pop n' ∧ AllKept d.pop n' ∧
      (n.forkDb.Covers d.applied → n'.forkDb.Covers d.pop.applied) := by
  have hdb' : d.pop.db = n'.db := by
    rw [hdb, ← h.holds.db]
    rfl
  have hpending : d.pending = none := h.holds.pending.trans hidle
  have hindexed (c : SignedBlock) (hc : n.Indexed c) : n'.Indexed c := by
    unfold Indexed
    rw [hforkDb]
    exact hc
  have hsub : d.pop.applied ⊆ d.applied := by
    unfold DbState.pop
    dsimp only
    split_ifs
    · exact List.Subset.refl _
    · exact fun c hc => mem_of_mem_tail hc
  have hkept (c : SignedBlock) (hc : c ∈ d.pop.applied) (hnum : d.committed < c.blockNum) : n'.Indexed c := by
    refine hindexed c (h.kept c ?_ hnum)
    unfold DbState.pop at hc
    dsimp only at hc
    split_ifs at hc with hsaved
    · -- Nothing can be undone: the head is committed.
      have hspans := h.valid.spans
      have hzero : 0 = d.db.revision - d.committed := by
        simpa [hsaved] using congrArg List.length hspans.revisions
      have hle := h.valid.blockNum_le hc
      have htop := h.valid.grown.tracks.revision
      unfold DbState.headBlockNum at hle
      omega
    · exact hc
  have htraced : Traced P B S n.db.undo.states d.pop.applied := by
    have htraced := h.traced
    unfold DbState.pop
    dsimp only
    rw [h.holds.db]
    unfold UndoStack.undo
    split
    · next hsaved =>
      rw [if_pos hsaved]
      exact htraced
    · next e saved hsaved =>
      rw [if_neg (by rw [hsaved]; exact cons_ne_nil _ _)]
      unfold UndoStack.states at htraced
      rw [hsaved] at htraced
      exact htraced.2.2
  refine ⟨⟨⟨hdb', hpending.trans hidle'.symm⟩, h.valid.pop hpending, hsound, hdb ▸ htraced,
    fun c hc => h.blocks c (hsub hc), ?_, h.pinned, ?_, fun c hc => hkept c (mem_of_mem_tail hc), ?_, ?_⟩,
    hkept, fun hcovers => hcovers.of_subset hsub (by rw [hforkDb]; rfl)⟩
  · rw [hforkDb]
    refine h.items.of_holds rfl fun y hy => ?_
    rcases holds_of_setHead hy with hy | rfl
    · exact .inl hy
    · exact hp.imp_right (h.pinned y)
  · rw [hforkDb]
    exact h.threaded.setHead p
  · rw [hlog]
    intro c hc
    -- The block log's blocks are below every state that can be undone.
    have hsettled : d.Settled c := by
      refine ⟨h.logged c hc, fun e he => ?_⟩
      have hc' : c.blockNum ∈ List.range' 1 d.committed := h.numbers ▸ mem_map_of_mem hc
      have he' : e.1 ∈ (List.range' (d.committed + 1) (d.db.revision - d.committed)).reverse :=
        h.valid.spans.revisions ▸ mem_map_of_mem he
      rw [mem_range'_1] at hc'
      rw [mem_reverse, mem_range'_1] at he'
      omega
    exact (hsettled.pop h.valid).applied
  · rw [hlog]
    exact h.numbers

theorem popBlock_joined (hall : AllKept d n) (hstep : n.popBlock pinned = (n', r)) :
    ∃ d', Unwound B S pinned d n (n.popBlockEvents pinned) d' n' := by
  have hmoves := popBlock_moves h.sound hidle hstep
  have hsame : Joined B S pinned d { n with pendingState := none } :=
    h.of_chain rfl ⟨h.holds.db, h.holds.pending.trans hidle⟩ h.valid rfl rfl
  unfold popBlockEvents
  rw [hstep]
  rcases popBlock_cases hstep with ⟨_, rfl, rfl⟩ | ⟨b, p, rfl, -, hp, rfl⟩
  · exact ⟨d, .of_joined hsame rfl (List.Subset.refl _), hall, id, rfl, rfl⟩
  · obtain ⟨hjoined, hkept, hcovers⟩ := h.pop hidle hp hmoves.sound rfl rfl rfl rfl
    exact ⟨d.pop, ⟨⟨_, .single (.popped (h.holds.pending.trans hidle))⟩, rfl, hjoined, rfl, le_rfl,
      fun _ hx _ => hx⟩, hkept, hcovers, rfl, rfl⟩

/-! ## Branches -/

theorem popUntil_joined {fuel : Nat} (hall : AllKept d n) (hstep : popUntil pinned id fuel n = (n', r)) :
    ∃ d', Unwound B S pinned d n (popUntilEvents pinned id fuel n) d' n' := by
  induction fuel generalizing n d with
  | zero =>
    cases hstep
    exact ⟨d, .refl h hidle, hall, fun h => h, rfl, rfl⟩
  | succ fuel ih =>
    unfold popUntilEvents
    unfold popUntil at hstep
    split_ifs at hstep ⊢
    · cases hstep
      exact ⟨d, .refl h hidle, hall, fun h => h, rfl, rfl⟩
    · rcases hpop : n.popBlock pinned with ⟨n1, e | u⟩
      all_goals
        rw [hpop] at hstep
        obtain ⟨d1, h1, hall1, hcovers1, hcommitted1, hindex1⟩ := popBlock_joined h hidle hall hpop
      · cases hstep
        exact ⟨d1, h1.trans (.refl h1.joined h1.idle), hall1, hcovers1, hcommitted1, hindex1⟩
      · obtain ⟨d2, h2, hall2, hcovers2, hcommitted2, hindex2⟩ := ih h1.joined h1.idle hall1 hstep
        exact ⟨d2, h1.trans h2, hall2, hcovers2 ∘ hcovers1, hcommitted2.trans hcommitted1,
          hindex2.trans hindex1⟩

end

theorem applyBranch_joined {r : Option (Exc × List ForkItem)} (hB : IdsTell P.toCrypto B)
    (h : Joined B S pinned d n) (hidle : n.pendingState = none) (hpos : ∀ x ∈ pinned, 0 < x.num)
    (hall : AllKept d n) (hskip : skip.skipBlockLog = false ∧ S skip)
    (hxs : ForkDatabase.BuildsOn P.toCrypto n.headBlockId xs) (hpinned : ∀ x ∈ xs, x ∈ pinned)
    (hindex : ∀ x ∈ xs.dropLast, x ∈ n.forkDb.index) (hstep : applyBranch skip pinned xs n = (n', r)) :
    ∃ d', Reached B S pinned d n (applyBranchEvents skip pinned xs n) d' n' ∧
      ((∀ x ∈ xs, x ∈ n.forkDb.index) → AllKept d' n' ∧
        (n.forkDb.Covers d.applied → n'.forkDb.Covers d'.applied) ∧ (xs ≠ [] → r = none → n'.Topped)) ∧
      ∀ e rest, r = some (e, rest) → rest ⊆ xs ∧ ForkDatabase.BuildsOn P.toCrypto n'.headBlockId rest := by
  induction xs generalizing n d with
  | nil =>
    cases hstep
    exact ⟨d, .refl h hidle, fun _ => ⟨hall, id, fun hne => absurd rfl hne⟩, nofun⟩
  | cons x xs ih =>
    have hx := hpinned x (.head _)
    let n0 : Node P := { n with forkDb := n.forkDb.setHead x }
    have h0 : Joined B S pinned d n0 := h.setHead hidle hx
    have hreached0 : Reached B S pinned d n [] d n0 :=
      ⟨⟨[], .nil⟩, rfl, h0, hidle, le_rfl, fun _ hy _ => hy⟩
    unfold applyBranchEvents
    unfold applyBranch at hstep
    rcases hblock : n0.applyBlock skip pinned x.data with ⟨n1, e | u⟩
    all_goals
      dsimp only [n0] at hblock
      rw [hblock] at hstep
    swap
    · obtain ⟨d1, h1, hall1⟩ := applyBlock_joined hB h0 hidle hpos hall hskip rfl hxs.1 (h.pinned x hx)
        hxs.1 hblock
      have hid : n1.headBlockId = x.id P.toCrypto := applyBlock_headBlockId hblock
      have hxs' := hxs.2
      rw [← hid] at hxs'
      have hlow := h1.joined.sound.headBlockId_lt
      have hhigh (y : ForkItem) (hy : y ∈ xs) : d1.committed < y.num :=
        h1.joined.committed_le.trans_lt (hxs'.lt_num hlow
          (fun z hz => hpos z (hpinned z (.tail _ hz))) y hy)
      have hretains (y : ForkItem) (hy : y ∈ xs) (hmem : y ∈ n.forkDb.index) : y ∈ n1.forkDb.index :=
        h1.retains y hmem (hhigh y hy)
      cases xs with
      | nil =>
        cases hstep
        refine ⟨d1, (hreached0.trans h1).trans (.refl h1.joined h1.idle), fun hxs => ?_, nofun⟩
        have hx' : x ∈ n.forkDb.index := hxs x (.head _)
        obtain ⟨hall1, hcovers1⟩ := hall1 ⟨x, hx', rfl⟩
        obtain ⟨hhead, hmem⟩ := applyBlock_forkDb_head (t := x) rfl hblock
        exact ⟨hall1, hcovers1, fun _ _ => ⟨x, hmem hx', hhead, hid.symm⟩⟩
      | cons y xs =>
        obtain ⟨hall1, hcovers1⟩ := hall1 ⟨x, hindex x (.head _), rfl⟩
        obtain ⟨d2, h2, hall2, hrest⟩ := ih h1.joined h1.idle hall1 hxs'
          (fun z hz => hpinned z (.tail _ hz))
          (fun z hz => hretains z (dropLast_subset _ hz) (hindex z (.tail _ hz))) hstep
        refine ⟨d2, (hreached0.trans h1).trans h2, fun hxs => ?_, fun e rest hr => ?_⟩
        · obtain ⟨hall2, hcovers2, htop⟩ :=
            hall2 fun z hz => hretains z hz (hxs z (.tail _ hz))
          exact ⟨hall2, hcovers2 ∘ hcovers1, fun _ => htop (cons_ne_nil _ _)⟩
        · exact ⟨fun z hz => .tail _ ((hrest e rest hr).1 hz), (hrest e rest hr).2⟩
    · cases hstep
      have h1 := applyBlock_refused h0 hidle hblock
      refine ⟨d, (hreached0.trans h1).trans (.refl h1.joined h1.idle), fun _ => ?_, fun e rest hr => ?_⟩
      · rw [applyBlock_error hblock]
        exact ⟨hall, id, fun _ hr => absurd hr (some_ne_none _)⟩
      · cases hr
        rw [applyBlock_error hblock]
        exact ⟨List.Subset.refl _, hxs⟩

theorem removeItems_joined (h : Joined B S pinned d n) (hidle : n.pendingState = none)
    (hall : AllKept d n) (hxs : ∀ x ∈ xs, n.objects.headBlockNum < x.num) :
    Joined B S pinned d (n.removeItems xs) ∧ AllKept d (n.removeItems xs) ∧
      (n.forkDb.Covers d.applied → (n.removeItems xs).forkDb.Covers d.applied) ∧
        ∀ y ∈ n.forkDb.index, (∀ x ∈ xs, x.id P.toCrypto ≠ y.id P.toCrypto) →
        y ∈ (n.removeItems xs).forkDb.index := by
  induction xs generalizing n with
  | nil => exact ⟨h, hall, id, fun y hy _ => hy⟩
  | cons x xs ih =>
    have hid (c : SignedBlock) (hc : c ∈ d.applied) :
        P.blockId c.toSignedBlockHeader ≠ x.id P.toCrypto := by
      intro heq
      have hnum : c.blockNum = x.num := congrArg num heq
      have hle := h.blockNum_le hc
      have hlt := hxs x (.head _)
      omega
    obtain ⟨h1, hall1⟩ := h.remove hidle hid
    obtain ⟨h2, hall2, hcovers2, hkeeps⟩ := ih h1 hidle (hall1 hall) fun y hy =>
      hxs y (.tail _ hy)
    refine ⟨h2, hall2, fun hcovers => hcovers2 (hcovers.remove hid), fun y hy hne =>
      hkeeps y (mem_filter.2 ⟨hy, ?_⟩) fun z hz =>
      hne z (.tail _ hz)⟩
    exact decide_eq_true (hne x (.head _)).symm

/-- The events end at a node whose fork database has the applied blocks, if it goes well. -/
def Ends (B : SignedBlock → Prop) (S : SkipFlags → Prop) (pinned : List ForkItem) (d : DbState)
    (n : Node P) (events : List ChainEvent) (well : Prop) (n' : Node P) : Prop :=
  ∃ l d', Walk P d l d' ∧ d.After P events d' ∧ Joined B S pinned d' n' ∧ n'.pendingState = none ∧
    (well → n.forkDb.Covers d.applied → n'.forkDb.Covers d'.applied ∧ n'.Topped)

theorem Reached.ends (h : Reached B S pinned d n events d' n')
    (hwell : well → n.forkDb.Covers d.applied → n'.forkDb.Covers d'.applied ∧ n'.Topped) :
    Ends B S pinned d n events well n' := by
  obtain ⟨l, hwalk⟩ := h.walk
  exact ⟨l, d', hwalk, h.after, h.joined, h.idle, hwell⟩

theorem Ends.unpin (h : Ends B S pinned d n events well n') : Ends B S [] d n events well n' := by
  obtain ⟨l, d', hwalk, hafter, hjoined, hend⟩ := h
  exact ⟨l, d', hwalk, hafter, hjoined.pin (by simp) (by simp), hend⟩

section Switch

/-- The old branch is applied again up to its tip. -/
def Restores (skip : SkipFlags) (pinned second : List ForkItem) (point : BlockId) (n : Node P) : Prop :=
  ∃ n1 n2 u, popUntil pinned point n.popFuel n = (n1, .ok u) ∧
    applyBranch skip pinned second.reverse n1 = (n2, none)

/-- A block of the new branch is refused, and the node goes back to the old branch. -/
def GoesBack (skip : SkipFlags) (pinned first second : List ForkItem) (point : BlockId) (n : Node P) : Prop :=
  ∃ n1 n2 u e rest, popUntil pinned point n.popFuel n = (n1, .ok u) ∧
    applyBranch skip pinned first.reverse n1 = (n2, some (e, rest)) ∧
    (∀ x ∈ rest, x.id P.toCrypto ≠ n.headBlockId) ∧
    Restores skip pinned second point (n2.removeItems rest)

variable {first second : List ForkItem} {point : BlockId} {r : Result Bool}

theorem restoreBranch_joined {e : Exc} (hB : IdsTell P.toCrypto B) (h : Joined B S pinned d n)
    (hidle : n.pendingState = none) (hpos : ∀ x ∈ pinned, 0 < x.num) (hall : AllKept d n)
    (hskip : skip.skipBlockLog = false ∧ S skip)
    (hsecond : ForkDatabase.BuildsOn P.toCrypto point second.reverse) (hpinned : ∀ x ∈ second, x ∈ pinned)
    (hne : second ≠ []) (hindex : d.committed ≤ point.num → ∀ x ∈ second.tail, x ∈ n.forkDb.index)
    (hstep : n.restoreBranch skip pinned second point e = (n', r)) :
    Ends B S pinned d n (n.restoreBranchEvents skip pinned second point)
      (Restores skip pinned second point n ∧
        (d.committed ≤ point.num → ∀ x ∈ second, x ∈ n.forkDb.index)) n' := by
  unfold restoreBranchEvents
  unfold restoreBranch at hstep
  rcases hpop : popUntil pinned point n.popFuel n with ⟨n1, e' | u⟩
  all_goals
    rw [hpop] at hstep
    obtain ⟨d1, h1, hall1, hcovers1, hcommitted, hindex1⟩ := popUntil_joined h hidle hall hpop
  · cases hstep
    refine (h1.trans (.refl h1.joined h1.idle)).ends fun hwell => ?_
    obtain ⟨⟨_, _, _, hpop', -⟩, -⟩ := hwell
    rw [hpop] at hpop'
    cases hpop'
  · have hhead := popUntil_headBlockId hpop
    rw [← hhead] at hsecond
    have hlow : d.committed ≤ point.num := by
      rw [← hcommitted, ← hhead]
      exact h1.joined.committed_le
    have hbelow (x : ForkItem) (hx : x ∈ second.reverse.dropLast) : x ∈ n1.forkDb.index := by
      rw [dropLast_reverse, mem_reverse] at hx
      rw [hindex1]
      exact hindex hlow x hx
    rcases hap : applyBranch skip pinned second.reverse n1 with ⟨n2, _ | f⟩
    all_goals
      dsimp only at hstep
      rw [hap] at hstep
      cases hstep
      obtain ⟨d2, h2, hkept, -⟩ := applyBranch_joined hB h1.joined h1.idle hpos hall1 hskip hsecond
        (fun x hx => hpinned x (mem_reverse.1 hx)) hbelow hap
      refine (h1.trans h2).ends fun hwell hcovers => ?_
    · obtain ⟨-, hcovers2, htop⟩ := hkept fun x hx => hindex1 ▸ hwell.2 hlow x (mem_reverse.1 hx)
      exact ⟨hcovers2 (hcovers1 hcovers), htop (mt reverse_eq_nil_iff.1 hne) rfl⟩
    · obtain ⟨⟨_, _, _, hpop', hap'⟩, -⟩ := hwell
      rw [hpop] at hpop'
      cases hpop'
      rw [hap] at hap'
      cases hap'

/-- The new branch is applied, or the node goes back to the old one. -/
def SwitchesWell (skip : SkipFlags) (pinned first second : List ForkItem) (point : BlockId) (n : Node P)
    (r : Result Bool) : Prop :=
  (∃ v, r = .ok v) ∨ GoesBack skip pinned first second point n

theorem switchBranch_joined (hB : IdsTell P.toCrypto B) (h : Joined B S pinned d n)
    (hidle : n.pendingState = none) (hall : AllKept d n) (hskip : skip.skipBlockLog = false ∧ S skip)
    (hpoint : ∀ x ∈ pinned, 0 < x.num ∨ (point.num + 1) % 2 ^ 32 = 0)
    (hfirst : ForkDatabase.BuildsOn P.toCrypto point first.reverse)
    (hsecond : ForkDatabase.BuildsOn P.toCrypto point second.reverse)
    (hpinned1 : ∀ x ∈ first, x ∈ pinned) (hpinned2 : ∀ x ∈ second, x ∈ pinned)
    (hindex1 : ∀ x ∈ first, x ∈ n.forkDb.index) (hindex2 : ∀ x ∈ second, x ∈ n.forkDb.index)
    (hapart : ∀ z ∈ first, ∀ w ∈ second.tail, z.id P.toCrypto ≠ w.id P.toCrypto)
    (hne : first ≠ []) {v : ForkItem} (hold : second.head? = some v) (hv : v.id P.toCrypto = n.headBlockId)
    (hstep : n.switchBranch skip pinned first second point = (n', r)) :
    Ends B S pinned d n (n.switchBranchEvents skip pinned first second point)
      (SwitchesWell skip pinned first second point n r) n' := by
  unfold switchBranchEvents
  unfold switchBranch at hstep
  rcases hpop : popUntil pinned point n.popFuel n with ⟨n1, e' | u⟩
  all_goals
    rw [hpop] at hstep
    obtain ⟨d1, h1, hall1, hcovers1, -, hindex⟩ := popUntil_joined h hidle hall hpop
  · cases hstep
    refine (h1.trans (.refl h1.joined h1.idle)).ends fun hwell => ?_
    rcases hwell with ⟨_, hr⟩ | ⟨_, _, _, _, _, hpop', -⟩
    · cases hr
    · rw [hpop] at hpop'
      cases hpop'
  · have hhead := popUntil_headBlockId hpop
    have hpos := h1.joined.sound.pos_of_head hhead hpoint
    rw [← hhead] at hfirst
    have hfirst' (x : ForkItem) (hx : x ∈ first.reverse) : x ∈ n1.forkDb.index := by
      rw [hindex]
      exact hindex1 x (mem_reverse.1 hx)
    rcases hap : applyBranch skip pinned first.reverse n1 with ⟨n2, _ | ⟨e, rest⟩⟩
    all_goals
      dsimp only at hstep ⊢
      rw [hap] at hstep ⊢
      obtain ⟨d2, h2, hkept, hfailed⟩ := applyBranch_joined hB h1.joined h1.idle hpos hall1 hskip hfirst
        (fun x hx => hpinned1 x (mem_reverse.1 hx)) (fun x hx => hfirst' x (dropLast_subset _ hx)) hap
      obtain ⟨hall2, hcovers2, htop⟩ := hkept hfirst'
    · cases hstep
      refine (h1.trans (h2.trans (.refl h2.joined h2.idle))).ends fun _ hcovers => ?_
      exact ⟨hcovers2 (hcovers1 hcovers), htop (mt reverse_eq_nil_iff.1 hne) rfl⟩
    · obtain ⟨hsub, hrest⟩ := hfailed e rest rfl
      have habove := hrest.lt_num h2.joined.sound.headBlockId_lt fun x hx =>
        hpos x (hpinned1 x (mem_reverse.1 (hsub hx)))
      rw [h2.joined.sound.headBlockId_num] at habove
      obtain ⟨h3, hall3, hcovers3, hkeeps⟩ := removeItems_joined h2.joined h2.idle hall2 habove
      -- The old branch is above the blocks that became irreversible with the new one.
      have hstays (hlow : d2.committed ≤ point.num) (x : ForkItem) (hx : x ∈ second)
          (hid : ∀ z ∈ rest, z.id P.toCrypto ≠ x.id P.toCrypto) :
          x ∈ (n2.removeItems rest).forkDb.index := by
        have hnum : point.num < x.num := hsecond.lt_num (hhead ▸ h1.joined.sound.headBlockId_lt)
          (fun z hz => hpos z (hpinned2 z (mem_reverse.1 hz))) x (mem_reverse.2 hx)
        exact hkeeps x ((h1.trans h2).retains x (hindex2 x hx) (hlow.trans_lt hnum)) hid
      have htail (hlow : d2.committed ≤ point.num) (x : ForkItem) (hx : x ∈ second.tail) :
          x ∈ (n2.removeItems rest).forkDb.index :=
        hstays hlow x (mem_of_mem_tail hx) fun z hz =>
          hapart z (mem_reverse.1 (hsub hz)) x hx
      obtain ⟨second, rfl⟩ := head?_eq_some_iff.1 hold
      obtain ⟨l2, hwalk2⟩ := (h1.trans h2).walk
      obtain ⟨l4, d4, hwalk4, hafter4, h4, hidle4, hwell4⟩ := restoreBranch_joined hB h3 h2.idle hpos hall3
        hskip hsecond hpinned2 (cons_ne_nil _ _) htail hstep
      refine ⟨_, d4, hwalk2.append hwalk4, h1.after.trans (h2.after.trans hafter4), h4, hidle4,
        fun hwell hcovers => ?_⟩
      rcases hwell with ⟨_, hr⟩ | ⟨_, _, _, _, _, hpop', hap', hids, hrestores⟩
      · exact absurd (hr ▸ hstep) restoreBranch_ne_ok
      · rw [hpop] at hpop'
        cases hpop'
        rw [hap] at hap'
        cases hap'
        refine hwell4 ⟨hrestores, fun hlow x hx => ?_⟩ (hcovers3 (hcovers2 (hcovers1 hcovers)))
        rcases mem_cons.1 hx with rfl | hx
        · exact hstays hlow x (.head _) fun z hz => hv ▸ hids z hz
        · exact htail hlow x hx

end Switch

variable {newHead : ForkItem} {F : ForkDatabase P.toCrypto} {r : Result Bool} {x : ForkItem}

/-- The switch ends at the tip of a branch. -/
def SwitchSettles (n : Node P) (skip : SkipFlags) (newHead : ForkItem) (r : Result Bool) : Prop :=
  (∃ v, r = .ok v) ∨
    ∃ first second, n.forkDb.fetchBranchFrom (newHead.id P.toCrypto) n.headBlockId = .ok (first, second) ∧
      GoesBack skip (newHead :: first ++ second) first second (branchPoint second) n

theorem switchForks_joined (hB : IdsTell P.toCrypto B)
    (h : Joined B S [] d n) (hidle : n.pendingState = none) (hskip : skip.skipBlockLog = false ∧ S skip)
    (hhead : n.forkDb.head = some newHead) (hhigher : n.objects.headBlockNum < newHead.num)
    (hstep : n.switchForks skip newHead = (n', r)) :
    Ends B S [] d n (n.switchForksEvents skip newHead) (n.SwitchSettles skip newHead r) n' := by
  unfold switchForksEvents
  unfold switchForks at hstep
  rcases hbranches : n.forkDb.fetchBranchFrom (newHead.id P.toCrypto) n.headBlockId with e | ⟨first, second⟩
  all_goals rw [hbranches] at hstep
  · cases hstep
    refine (Reached.refl h hidle).ends fun hwell => ?_
    rcases hwell with ⟨_, hr⟩ | ⟨_, _, hfetch', -⟩
    · cases hr
    · rw [hbranches] at hfetch'
      cases hfetch'
  · have hnum := h.sound.headBlockId_num
    have hle : n.headBlockId.num ≤ (newHead.id P.toCrypto).num := by
      rw [hnum]
      exact hhigher.le
    have hapart := fetchBranchFrom_apart h.sound.sane hbranches hle
    obtain ⟨hfirst, hsecond, ⟨w, hwindex, hw, hwhead⟩, ⟨v, hvindex, hv, hvhead⟩, hheld, -⟩ :=
      fetchBranchFrom_ok hbranches
    obtain ⟨hbuild1, hbuild2⟩ := fetchBranchFrom_buildsOn hbranches
    obtain ⟨hsound, hpos⟩ := h.sound.branches hhead hbranches
    have hwnum : w.num = newHead.num := congrArg num hw
    have hvnum : v.num = n.headBlockId.num := congrArg num hv
    -- The fork database's head has the highest number, so it is in no branch below the tip.
    have hindexed {z : ForkItem} {zs : List ForkItem} (hzs : n.forkDb.Branch zs) (hz : zs.head? = some z)
        (hmem : z ∈ n.forkDb.index) (hzs' : ∀ u ∈ zs, n.forkDb.Holds u) (hznum : z.num ≤ newHead.num) :
        ∀ u ∈ zs, u ∈ n.forkDb.index := by
      obtain ⟨zs, rfl⟩ := head?_eq_some_iff.1 hz
      refine hzs.mem_index h.threaded hmem (fun u hu => hzs' u (.tail _ hu)) fun u hu heq => ?_
      have hlt := (pairwise_cons.1 (hzs.falling h.sound.sane)).1 u hu
      rw [hhead] at heq
      cases heq
      omega
    have hheld' (z : ForkItem) (hz : z ∈ newHead :: first ++ second) : n.forkDb.Holds z := by
      rcases mem_cons.1 hz with rfl | hz
      · simp [ForkDatabase.Holds, hhead]
      · exact hheld z hz
    have hpinned := h.pin hsound.pinned fun z hz => h.items.held z (hheld' z hz)
    have hne : first ≠ [] := by
      rintro rfl
      cases hwhead
    have hall : AllKept d n := h.allKept fun _ => ⟨v, hvindex, hv⟩
    have hmem1 := hindexed hfirst hwhead hwindex (fun u hu => hheld u (mem_append_left _ hu)) hwnum.le
    have hmem2 := hindexed hsecond hvhead hvindex (fun u hu => hheld u (mem_append_right _ hu)) (by omega)
    have hswitch := switchBranch_joined hB hpinned hidle hall hskip hpos hbuild1 hbuild2
      (fun z hz => .tail _ (mem_append_left _ hz))
      (fun z hz => .tail _ (mem_append_right _ hz)) hmem1 hmem2 hapart hne hvhead hv hstep
    obtain ⟨l, d', hwalk, hafter, hjoined, hidle', hwell⟩ := hswitch.unpin
    refine ⟨l, d', hwalk, hafter, hjoined, hidle', fun hsettles => hwell (hsettles.imp_right ?_)⟩
    rintro ⟨_, _, hfetch', hback⟩
    rw [hbranches] at hfetch'
    cases hfetch'
    exact hback

/-! ## Pushes -/

section

variable (h : Joined B S [] d n) (hidle : n.pendingState = none) (hb : B b)
include h hidle hb

theorem Joined.pushBlock_forkDb {r : Result ForkItem} (hpush : n.forkDb.pushBlock b = (F, r)) :
    Joined B S [] d { n with forkDb := F } := by
  have hpushed := h.threaded.pushBlock hpush
  refine h.of_forkDb (h.sound.pushBlock_forkDb hidle hpush).sound (pushBlock_sane h.items (fun _ => hb) hpush).1
    hpushed.threaded fun c hc hnum => ?_
  obtain ⟨x, hx, hid⟩ := h.kept c hc hnum
  exact ⟨x, hpushed.index hx, hid⟩

theorem Joined.allKept_pushBlock (hparent : b.previous = n.headBlockId)
    (hpush : n.forkDb.pushBlock b = (F, .ok x)) : AllKept d { n with forkDb := F } := by
  have hpushed := h.threaded.pushBlock hpush
  refine (h.pushBlock_forkDb hidle hb hpush).allKept fun hne => ?_
  have hnum : n.objects.headBlockNum ≠ 0 := fun hzero => hne (h.applied_eq_nil hzero)
  rcases hpushed.parent x rfl with hnone | hzero | ⟨p, hp, hid⟩
  · exact absurd (h.sound.started hnone) hnum
  · rw [hparent] at hzero
    rw [← h.sound.headBlockId_num, hzero] at hnum
    exact absurd rfl hnum
  · exact ⟨p, hpushed.index hp, hid.trans hparent⟩

end

theorem extend_joined (hB : IdsTell P.toCrypto B) (h : Joined B S [] d n)
    (hidle : n.pendingState = none) (hall : AllKept d n) (hskip : skip.skipBlockLog = false ∧ S skip)
    (hhead : n.forkDb.head = some x) (hchild : x.data.previous = n.headBlockId) (hb : B b)
    (hparent : b.previous = n.headBlockId) (hstep : n.extend skip b = (n', r)) :
    Ends B S [] d n (n.applyBlockEvents skip [] b)
      ((∃ v, r = .ok v) ∧ x ∈ n.forkDb.index ∧ x.data = b) n' := by
  unfold extend at hstep
  split at hstep
  · next hblock =>
    cases hstep
    obtain ⟨d1, h1, hkept⟩ := applyBlock_joined hB h hidle (by simp) hall hskip hhead hchild hb hparent hblock
    refine h1.ends fun ⟨_, hx, hdata⟩ hcovers => ?_
    have hid : x.id P.toCrypto = P.blockId b.toSignedBlockHeader := by rw [ForkItem.id, hdata]
    obtain ⟨hhead', hstays⟩ := applyBlock_forkDb_head hhead hblock
    exact ⟨(hkept ⟨x, hx, hid⟩).2 hcovers, x, hstays hx, hhead', hid.trans (applyBlock_headBlockId hblock).symm⟩
  · next hblock =>
    cases hstep
    have h1 := applyBlock_refused h hidle hblock
    refine ⟨[], d, .nil, h1.after, (h1.joined.remove h1.idle fun c hc heq => ?_).1, h1.idle,
      fun ⟨⟨_, hr⟩, _⟩ => ?_⟩
    swap
    · cases hr
    -- The number of the block is the one after the head's, or zero.
    have hnum : c.blockNum = b.blockNum := congrArg num heq
    have hb' : b.blockNum = (n.headBlockId.num + 1) % 2 ^ 32 := by
      rw [← hparent]
      rfl
    have hlow := h.sound.headBlockId_lt
    have hle := h.blockNum_le hc
    have hpos := (h.valid.mem_numbers.1 ⟨c, hc, rfl⟩).1
    rw [← h.sound.headBlockId_num] at hle
    omega

/-- The fork database's head is the item of the chain's head. -/
structure Anchored (d : DbState) (n : Node P) : Prop where
  covers : n.forkDb.Covers d.applied
  top : n.forkDb.head = none ∧ n.forkDb.index = [] ∨ n.Topped

/-- The push ends with the fork database's head at the chain's head. -/
structure PushSettles (n : Node P) (skip : SkipFlags) (b : SignedBlock) : Prop where
  first : n.forkDb.head = none → b.previous = .zero
  root : b.previous = .zero → n.forkDb.head = none ∨ ∃ x ∈ n.forkDb.index, x.num = 1
  refused : ∀ F e, n.forkDb.pushBlock b = (F, .error e) → F.head = n.forkDb.head
  accepted : ∀ F newHead, n.forkDb.pushBlock b = (F, .ok newHead) →
    newHead.data.previous = n.headBlockId →
    newHead ∈ F.index ∧ ∃ v, (n.pushBlockCore skip b).2 = .ok v
  switches : ∀ F newHead, n.forkDb.pushBlock b = (F, .ok newHead) →
    newHead.data.previous ≠ n.headBlockId → n.objects.headBlockNum < newHead.num →
    ({ n with forkDb := F } : Node P).SwitchSettles skip newHead (n.pushBlockCore skip b).2

theorem Anchored.covers_pushBlock {r : Result ForkItem} (ha : Anchored d n) (h : Joined B S [] d n)
    (hb : n.PushSettles skip b) (hpush : n.forkDb.pushBlock b = (F, r)) : F.Covers d.applied := by
  refine ha.covers.pushBlock hpush (h.threaded.pushBlock hpush).index (fun hnone =>
    ⟨?_, hb.first hnone⟩) hb.root
    fun hnone => h.applied_eq_nil (h.sound.started hnone)
  rcases ha.top with ⟨-, hnil⟩ | ⟨x, -, hsome, -⟩
  · exact hnil
  · rw [hnone] at hsome
    cases hsome

theorem previous_ne_id (x : ForkItem) : x.data.previous ≠ x.id P.toCrypto := by
  intro heq
  have hnum : x.num = (x.num + 1) % 2 ^ 32 := by
    change (x.data.previous.num + 1) % 2 ^ 32 = _
    rw [heq]
    rfl
  have hlow : x.num < 2 ^ 32 := Nat.mod_lt _ (by decide)
  omega

theorem Anchored.newHead_eq (ha : Anchored d n)
    (hpush : n.forkDb.pushBlock b = (F, .ok newHead)) (hchild : newHead.data.previous = n.headBlockId)
    (hparent : b.previous = n.headBlockId) : newHead.data = b := by
  rcases (pushBlock_added hpush).2 newHead rfl with hold | rfl | hnum
  · rcases ha.top with ⟨hnone, -⟩ | ⟨x, -, hsome, hid⟩
    · rw [hnone] at hold
      cases hold
    · rw [hsome] at hold
      cases hold
      exact absurd (hchild.trans hid.symm) (previous_ne_id _)
  · rfl
  · have hsame : newHead.num = b.blockNum := by
      change (newHead.data.previous.num + 1) % 2 ^ 32 = (b.previous.num + 1) % 2 ^ 32
      rw [hchild, hparent]
    omega

theorem Anchored.top_of_le (ha : Anchored d n)
    (h : Joined B S [] d n) (hb : n.PushSettles skip b) (hpush : n.forkDb.pushBlock b = (F, .ok newHead))
    (hle : newHead.num ≤ n.objects.headBlockNum) : ({ n with forkDb := F } : Node P).Topped := by
  rcases ha.top with ⟨hnone, -⟩ | ⟨x, hx, hsome, hid⟩
  · -- The first block has a number, and so have the blocks above it.
    exfalso
    have hone : b.blockNum = 1 := by
      change (b.previous.num + 1) % 2 ^ 32 = 1
      rw [hb.first hnone]
      rfl
    have hzero := h.sound.started hnone
    rcases (pushBlock_added hpush).2 newHead rfl with hold | rfl | hnum
    · rw [hnone] at hold
      cases hold
    · have hnum : (n.forkDb.newItem b).num = b.blockNum := rfl
      omega
    · omega
  · rcases pushBlock_head_lt hsome hpush with rfl | hlt
    · exact ⟨newHead, (h.threaded.pushBlock hpush).index hx, (pushBlock_head hpush).1, hid⟩
    · have hnum : x.num = n.headBlockId.num := congrArg num hid
      rw [h.sound.headBlockId_num] at hnum
      omega

theorem pushBlockCore_joined (hB : IdsTell P.toCrypto B) (h : Joined B S [] d n)
    (hidle : n.pendingState = none) (hskip : skip.skipForkDb = false)
      (hskip' : skip.skipBlockLog = false ∧ S skip)
    (hb : B b) (hunmistakable : n.Unmistakable b) (hstep : n.pushBlockCore skip b = (n', r)) :
    ∃ l d', Walk P d l d' ∧ d.After P (n.pushBlockCoreEvents skip b) d' ∧ Joined B S [] d' n' ∧
      n'.pendingState = none ∧ (n.PushSettles skip b → Anchored d n → Anchored d' n') := by
  have hr : (n.pushBlockCore skip b).2 = r := by rw [hstep]
  unfold pushBlockCoreEvents
  unfold pushBlockCore at hstep
  rw [if_neg (by simp [hskip])] at hstep ⊢
  rcases hpush : n.forkDb.pushBlock b with ⟨F, e | newHead⟩
  all_goals
    rw [hpush] at hstep
    have h1 := h.pushBlock_forkDb hidle hb hpush
  · cases hstep
    refine ⟨[], d, .nil, rfl, h1, hidle, fun hsettles ha => ?_⟩
    refine ⟨ha.covers_pushBlock h hsettles hpush, ?_⟩
    have hsame := hsettles.refused F e hpush
    rcases ha.top with ⟨hnone, -⟩ | ⟨x, hx, hsome, hid⟩
    · have hhead := pushBlock_head_isSome hnone hpush
      rw [hsame, hnone] at hhead
      cases hhead
    · exact .inr ⟨x, (h.threaded.pushBlock hpush).index hx, hsame.trans hsome, hid⟩
  · have hhead := (pushBlock_head hpush).1
    dsimp only at hstep ⊢
    split_ifs at hstep ⊢ with hchild hhigher
    · have hparent := hunmistakable.previous_eq hpush hchild
      obtain ⟨l, d', hwalk, hafter, h', hidle', hwell⟩ := extend_joined hB h1 hidle
        (h.allKept_pushBlock hidle hb hparent hpush) hskip' hhead hchild hb hparent hstep
      refine ⟨l, d', hwalk, hafter, h', hidle', fun hsettles ha => ?_⟩
      obtain ⟨hmem, hok⟩ := hsettles.accepted F newHead hpush hchild
      obtain ⟨hcovers, htop⟩ := hwell ⟨hr ▸ hok, hmem, ha.newHead_eq hpush hchild hparent⟩
        (ha.covers_pushBlock h hsettles hpush)
      exact ⟨hcovers, .inr htop⟩
    · obtain ⟨l, d', hwalk, hafter, h', hidle', hwell⟩ := switchForks_joined hB h1 hidle hskip' hhead
        hhigher hstep
      refine ⟨l, d', hwalk, hafter, h', hidle', fun hsettles ha => ?_⟩
      obtain ⟨hcovers, htop⟩ := hwell (hr ▸ hsettles.switches F newHead hpush hchild hhigher)
        (ha.covers_pushBlock h hsettles hpush)
      exact ⟨hcovers, .inr htop⟩
    · cases hstep
      exact ⟨[], d, .nil, rfl, h1, hidle, fun hsettles ha => ⟨ha.covers_pushBlock h hsettles hpush,
        .inr (ha.top_of_le h hsettles hpush (Nat.le_of_not_lt hhigher))⟩⟩

theorem checkpointFlags_skipBlockLog {skip' : SkipFlags} (h : n.checkpointFlags skip b = .ok skip')
    (hskip : skip.skipBlockLog = false) : skip'.skipBlockLog = false := by
  obtain rfl | rfl := checkpointFlags_eq h
  · exact hskip
  · rfl

theorem pushTransaction_chain (n : Node P) (skip : SkipFlags) (t : SignedTransaction) :
    (n.pushTransaction skip t).1.chain = n.chain := by
  unfold pushTransaction
  split_ifs
  · exact pushTransactionCore_chain
  · rfl

theorem Anchored.of_chain (h : Anchored d n) (hchain : n'.chain = n.chain) (happlied : d'.applied = d.applied) :
    Anchored d' n' := by
  obtain ⟨db, forkDb⟩ := n'
  obtain ⟨db', pending, applied⟩ := d'
  cases hchain
  cases happlied
  exact ⟨h.covers, h.top⟩

theorem Joined.of_idles (h : Joined B S pinned d n) (hidles : n.Idles n') (hchain : n'.chain = n.chain) :
    ∃ l d', Walk P d l d' ∧ d.After P [] d' ∧ Joined B S pinned d' n' ∧
      (Anchored d n → Anchored d' n') := by
  obtain ⟨l, d', hwalk, hd', happlied, hcommitted⟩ := hidles d h.holds
  have hdb : d'.db = d.db := hd'.db.trans ((congrArg Prod.fst hchain).trans h.holds.db.symm)
  exact ⟨l, d', hwalk, congrArg₂ Prod.mk hdb happlied,
    h.of_chain hchain hd' (hwalk.valid h.valid) happlied hcommitted,
    fun ha => ha.of_chain hchain happlied⟩

/-- The push uses the fork database and writes the log, and no cached block takes the block's place. -/
structure Loggable (n : Node P) (skip : SkipFlags) (b : SignedBlock) : Prop where
  forkDb : skip.skipForkDb = false
  blockLog : skip.skipBlockLog = false
  unmistakable : n.Unmistakable b

theorem pushBlock_joined (budget : Nat) (hB : IdsTell P.toCrypto B) (h : Joined B S [] d n) (hb : B b)
    (hlog : n.Loggable skip b) (hS : ∀ skip', n.checkpointFlags skip b = .ok skip' → S skip') :
    ∃ l d', Walk P d l d' ∧ d.After P (n.pushBlockEvents skip b) d' ∧
      Joined B S [] d' (n.pushBlock skip budget b).1 ∧
      ((∀ skip', n.checkpointFlags skip b = .ok skip' → n.clearPending.PushSettles skip' b) →
        Anchored d n → Anchored d' (n.pushBlock skip budget b).1) := by
  unfold pushBlockEvents pushBlock
  rcases hflags : n.checkpointFlags skip b with e | skip'
  · exact ⟨[], d, .nil, rfl, h, fun _ ha => ha⟩
  · obtain ⟨l0, d0, hwalk0, hafter0, h0, ha0⟩ := h.of_idles n.clearPending_idles rfl
    have hunmistakable : n.clearPending.Unmistakable b := hlog.unmistakable
    obtain ⟨l1, d1, hwalk1, hafter1, h1, -, ha1⟩ := pushBlockCore_joined (r := _) hB h0 rfl
      (checkpointFlags_skipForkDb hflags hlog.forkDb)
      ⟨checkpointFlags_skipBlockLog hflags hlog.blockLog, hS skip' hflags⟩ hb
      hunmistakable rfl
    obtain ⟨l2, d2, hwalk2, hafter2, h2, ha2⟩ := h1.of_idles
      (restorePending_idles _ _ budget n.pendingTx) restorePending_chain
    have hafter := hafter0.trans (hafter1.trans hafter2)
    rw [append_nil] at hafter
    exact ⟨_, d2, (hwalk0.append hwalk1).append hwalk2, hafter, h2,
      fun hsettles ha => ha2 (ha1 (hsettles skip' rfl) (ha0 ha))⟩

/-- Two databases with a node's sessions and one list of blocks have the same sessions behind them. -/
theorem Joined.of_after (h : Joined B S [] d' n) (hvalid : d''.Valid) (hd'' : d''.Holds n)
    (hafter : d.After P events d') (hafter' : d.After P events d'') :
    Joined B S [] d'' n ∧ (Anchored d' n → Anchored d'' n) := by
  obtain ⟨hdb, happlied⟩ := Prod.mk.inj (Eq.trans hafter' (Eq.symm hafter))
  have hcommitted : d''.committed = d'.committed := by
    have hspans := h.valid.spans
    have hspans' := hvalid.spans
    rw [hdb] at hspans'
    have hsaved := congrArg List.length (hspans.revisions.symm.trans hspans'.revisions)
    rw [length_reverse, length_reverse, length_range', length_range'] at hsaved
    have hle := hspans.le
    have hle' := hspans'.le
    omega
  exact ⟨h.of_chain rfl hd'' hvalid happlied hcommitted, fun ha => ha.of_chain rfl happlied⟩

theorem Joined.blockLog_prefix (h : Joined B S pinned d n) : n.blockLog <+: d.applied.reverse := by
  have hle : d.committed ≤ d.headBlockNum := by
    rw [h.headBlockNum, ← h.sound.headBlockId_num]
    exact h.committed_le
  have hnumbers : d.applied.reverse.map (fun c => c.blockNum) =
      List.range' 1 d.committed ++ List.range' (1 + d.committed) (d.headBlockNum - d.committed) := by
    rw [map_reverse, h.valid.numbers, reverse_reverse, range'_append_1, Nat.add_sub_cancel' hle]
  obtain ⟨low, high, hsplit, hlow, -⟩ := map_eq_append_iff.1 hnumbers
  have hmap : low.map (fun c => c.blockNum) = n.blockLog.map fun c => c.blockNum := hlow.trans h.numbers.symm
  suffices heq : low = n.blockLog from ⟨high, by rw [hsplit, heq]⟩
  refine ext_getElem (by simpa using congrArg List.length hmap) fun i hi hi' => ?_
  have hnum : low[i].blockNum = n.blockLog[i].blockNum := by
    have hi'' : i < (low.map fun c => c.blockNum).length := by rwa [length_map]
    have hget := getElem_of_eq hmap hi''
    rwa [getElem_map, getElem_map] at hget
  -- Of each number there is one applied block.
  refine h.valid.eq_of_blockNum_eq (h.logged _ (getElem_mem hi')) (mem_reverse.1 ?_) hnum
  rw [hsplit]
  exact mem_append_left _ (getElem_mem hi)

end Node

end Xgt
