import XgtChain.Chain.ForkBranches
import XgtChain.Chain.ForkThreads

/-!
# The order in which blocks reach the fork database

Blocks that arrive before their parents wait in the cache and are linked when their parents come, depth
first.
-/

namespace Xgt

open Base List ForkDatabase BlockId Nat

namespace ForkDatabase

variable {cr : Crypto}

/-- New blocks that link to the base or to each other, within its size. -/
structure Forest (base : ForkDatabase cr) (blocks : List SignedBlock) : Prop where
  distinct : (blocks.map fun b => cr.blockId b.toSignedBlockHeader).Nodup
  new : ∀ b ∈ blocks, ∀ x ∈ base.index ++ base.unlinked, x.id cr ≠ cr.blockId b.toSignedBlockHeader
  rooted : ∀ b ∈ blocks, b.previous = .zero ∨ (∃ p ∈ base.index, p.id cr = b.previous) ∨
    ∃ p ∈ blocks, cr.blockId p.toSignedBlockHeader = b.previous
  uncached : ∀ b ∈ blocks, ∀ x ∈ base.unlinked, x.data.previous ≠ cr.blockId b.toSignedBlockHeader
  heights : ∀ b ∈ blocks, 0 < b.blockNum ∧ (∀ h ∈ base.head, h.num - base.maxSize < b.blockNum) ∧
    ∀ c ∈ blocks, c.blockNum - base.maxSize < b.blockNum

structure Filled (base : ForkDatabase cr) (blocks : List SignedBlock) (linked cached : List ForkItem)
    (waiting : List BlockId) (db : ForkDatabase cr) : Prop where
  maxSize : db.maxSize = base.maxSize
  index : db.index = base.index ++ linked
  unlinked : db.unlinked = base.unlinked ++ cached
  blocks : ∀ x ∈ linked ++ cached, x.data ∈ blocks
  ids : ((linked ++ cached).map (·.id cr)).Nodup
  head : ∃ h, db.head = some h ∧ (base.head = some h ∨ h ∈ linked) ∧ (∀ h0 ∈ base.head, h0.num ≤ h.num) ∧
    ∀ x ∈ linked, x.num ≤ h.num
  links : ∀ x ∈ linked, x.data.previous = .zero ∧ db.prev x = none ∨ ∃ p ∈ db.index, db.prev x = some p
  parents : ∀ x ∈ cached, x.data.previous ≠ .zero ∧
    ((∃ p ∈ db.index, p.id cr = x.data.previous) → x.data.previous ∈ waiting)
  loose : ∀ x ∈ cached, x.serial < db.nextSerial ∧ db.prev x = none
  fresh : ∀ x, db.nextSerial ≤ x.serial → db.prev x = none
  kept : ∀ x ∈ base.index, db.prev x = base.prev x
  waiting : ∀ id ∈ waiting, ∃ x ∈ linked, x.id cr = id

section Attach

variable {db : ForkDatabase cr} {x p h : ForkItem} (hhead : db.head = some h)
  (hnum : h.num - db.maxSize < x.num)
include hhead hnum

theorem attach_linked (hprev : db.prev x = none)
    (hparent : x.data.previous = .zero ∨ ∃ p ∈ db.index, p.id cr = x.data.previous) :
    ∃ f hf, db.attach x = .ok (({ db with prev := f, linked := hf } : ForkDatabase cr).insertLinked x) ∧
      (∀ y, y ≠ x → f y = db.prev y) ∧
      (x.data.previous = .zero ∧ f x = none ∨ ∃ p ∈ db.index, f x = some p) := by
  by_cases hzero : x.data.previous = .zero
  · exact ⟨_, _, attach_of_zero hhead hnum hzero, fun _ _ => rfl, .inl ⟨hzero, hprev⟩⟩
  · obtain ⟨p, hp⟩ := Option.isSome_iff_exists.1 (findItem_isSome_iff.2 (hparent.resolve_left hzero))
    exact ⟨_, _, attach_of_parent hhead hnum hzero hp, fun y hy => if_neg hy,
      .inr ⟨p, mem_of_find?_eq_some hp, if_pos rfl⟩⟩

theorem attach_of_none
    (hzero : x.data.previous ≠ .zero) (hp : findItem cr db.index x.data.previous = none) :
    db.attach x = .error ⟨.unlinkableBlock, "block does not link to known chain"⟩ := by
  refine bind_error_iff.2 (.inl ?_)
  unfold linkItem
  simp only [hhead]
  refine bind_error_iff.2 (.inr ⟨(), ensure_ok hnum, ?_⟩)
  rw [if_neg hzero]
  split
  · rfl
  · next q hq => cases hq.symm.trans hp

end Attach

/-! ## One more item in the index -/

section Filled

variable {base db : ForkDatabase cr} {blocks : List SignedBlock} {linked cached : List ForkItem}
  {waiting : List BlockId} {x : ForkItem} {b : SignedBlock}

section

variable (hforest : base.Forest blocks) (h : Filled base blocks linked cached waiting db)
  (hx : x.data ∈ blocks)
include hforest h hx

theorem Filled.not_old : ∃ top, db.head = some top ∧ top.num - db.maxSize < x.num := by
  obtain ⟨top, hhead, hfrom, -, -⟩ := h.head
  refine ⟨top, hhead, ?_⟩
  obtain ⟨-, hbase, hblocks⟩ := hforest.heights x.data hx
  rw [h.maxSize]
  rcases hfrom with hold | hnew
  · exact hbase top hold
  · exact hblocks top.data (h.blocks top (mem_append_left _ hnew))

theorem Filled.attach (hids : ∀ y ∈ linked ++ cached, y.id cr ≠ x.id cr) (hserial : x.serial < db.nextSerial)
    (hprev : db.prev x = none)
    (hparent : x.data.previous = .zero ∨ ∃ p ∈ db.index, p.id cr = x.data.previous) :
    ∃ db', db.attach x = .ok db' ∧ db'.nextSerial = db.nextSerial ∧
      Filled base blocks (linked ++ [x]) cached (x.id cr :: waiting) db' := by
  obtain ⟨top, hhead, hnum⟩ := h.not_old hforest hx
  obtain ⟨f, hf, hattach, hothers, hlink⟩ := attach_linked hhead hnum hprev hparent
  have hindex : insertItem cr db.index x = base.index ++ (linked ++ [x]) := by
    rw [insertItem_of_new, h.index, append_assoc]
    intro y hy
    rw [h.index] at hy
    rcases mem_append.1 hy with hy | hy
    · exact hforest.new x.data hx y (mem_append_left _ hy)
    · exact hids y (mem_append_left _ hy)
  have hne {y : ForkItem} (hy : y ∈ linked ++ cached) : y ≠ x := fun heq => hids y hy (heq ▸ rfl)
  have hsub {y : ForkItem} (hy : y ∈ db.index) : y ∈ base.index ++ (linked ++ [x]) := by
    rw [h.index] at hy
    rw [← append_assoc]
    exact mem_append_left _ hy
  have hlinks {o : Option ForkItem} (ho : ∃ p ∈ db.index, o = some p) :
      ∃ p ∈ base.index ++ (linked ++ [x]), o = some p := by
    obtain ⟨p, hp, rfl⟩ := ho
    exact ⟨p, hsub hp, rfl⟩
  refine ⟨_, hattach, rfl, ?_⟩
  refine
    { maxSize := h.maxSize
      index := hindex
      unlinked := h.unlinked
      blocks := ?_
      ids := ?_
      head := ?_
      links := ?_
      parents := ?_
      loose := fun y hy => ⟨(h.loose y hy).1, (hothers y (hne (mem_append_right _ hy))).trans (h.loose y hy).2⟩
      fresh := fun y hy => (hothers y fun heq => absurd hserial (not_lt.2 (heq ▸ hy))).trans (h.fresh y hy)
      kept := ?_
      waiting := ?_ }
  · intro y hy
    rcases mem_append.1 hy with hy | hy
    · rcases mem_append.1 hy with hy | hy
      · exact h.blocks y (mem_append_left _ hy)
      · rw [mem_singleton.1 hy]
        exact hx
    · exact h.blocks y (mem_append_right _ hy)
  · have hperm : (linked ++ [x] ++ cached).Perm (x :: (linked ++ cached)) := by
      rw [append_assoc, singleton_append]
      exact perm_middle
    rw [(hperm.map _).nodup_iff, map_cons, nodup_cons]
    refine ⟨fun hmem => ?_, h.ids⟩
    obtain ⟨y, hy, hid⟩ := mem_map.1 hmem
    exact hids y hy hid
  · obtain ⟨top', htop, hfrom, hbase, hlinked⟩ := h.head
    obtain rfl : top = top' := Option.some.inj (hhead.symm.trans htop)
    by_cases hlt : top.num < x.num
    · refine ⟨x, ?_, .inr (by simp), fun h0 hh0 => (hbase h0 hh0).trans hlt.le, fun y hy => ?_⟩
      · simp only [insertLinked, hhead, if_pos hlt]
      · rcases mem_append.1 hy with hy | hy
        · exact (hlinked y hy).trans hlt.le
        · rw [mem_singleton.1 hy]
    · refine ⟨top, ?_, hfrom.imp id (mem_append_left _), hbase, fun y hy => ?_⟩
      · simp only [insertLinked, hhead, if_neg hlt]
      · rcases mem_append.1 hy with hy | hy
        · exact hlinked y hy
        · rw [mem_singleton.1 hy]
          exact not_lt.1 hlt
  · intro y hy
    change _ ∧ f y = none ∨ ∃ p ∈ insertItem cr db.index x, f y = some p
    rw [hindex]
    rcases mem_append.1 hy with hy | hy
    · rw [hothers y (hne (mem_append_left _ hy))]
      exact (h.links y hy).imp_right hlinks
    · rw [mem_singleton.1 hy]
      exact hlink.imp_right hlinks
  · intro y hy
    obtain ⟨hzero, hwaits⟩ := h.parents y hy
    refine ⟨hzero, ?_⟩
    rintro ⟨p, hp, hid⟩
    change p ∈ insertItem cr db.index x at hp
    rw [hindex, ← append_assoc, ← h.index] at hp
    rcases mem_append.1 hp with hp | hp
    · exact .tail _ (hwaits ⟨p, hp, hid⟩)
    · rw [mem_singleton.1 hp] at hid
      exact hid ▸ mem_cons_self
  · intro y hy
    rw [← h.kept y hy]
    refine hothers y fun heq => hforest.new x.data hx y (mem_append_left _ hy) (heq ▸ rfl)
  · intro id hid
    rcases mem_cons.1 hid with rfl | hid
    · exact ⟨x, by simp, rfl⟩
    · obtain ⟨y, hy, hid⟩ := h.waiting id hid
      exact ⟨y, mem_append_left _ hy, hid⟩

end

theorem Filled.take (h : Filled base blocks linked cached waiting db) (hout : x ∉ base.unlinked) :
    Filled base blocks linked (cached.erase x) waiting { db with unlinked := db.unlinked.erase x } where
  maxSize := h.maxSize
  index := h.index
  unlinked := by
    change db.unlinked.erase x = _
    rw [h.unlinked, erase_append_right _ hout]
  blocks y hy := h.blocks y ((append_sublist_append_left linked).2 erase_sublist |>.subset hy)
  ids := h.ids.sublist (((append_sublist_append_left linked).2 erase_sublist).map _)
  head := h.head
  links := h.links
  parents y hy := h.parents y (mem_of_mem_erase hy)
  loose y hy := h.loose y (mem_of_mem_erase hy)
  fresh := h.fresh
  kept := h.kept
  waiting := h.waiting

theorem Filled.pushNext (hforest : base.Forest blocks) (fuel : Nat)
    (h : Filled base blocks linked cached waiting db) (hfuel : 2 * db.unlinked.length + waiting.length < fuel) :
    ∃ linked' cached' db', pushNext fuel db waiting = (db', .ok ()) ∧
      db'.nextSerial = db.nextSerial ∧ Filled base blocks linked' cached' [] db' ∧
      (linked' ++ cached').Perm (linked ++ cached) := by
  induction fuel generalizing db linked cached waiting with
  | zero => exact absurd hfuel (not_lt_zero _)
  | succ fuel ih =>
    cases waiting with
    | nil => exact ⟨linked, cached, db, rfl, rfl, h, .refl _⟩
    | cons id waiting =>
      rw [length_cons] at hfuel
      cases hfind : db.unlinked.find? fun x => x.data.previous = id with
      | none =>
        have hrest : Filled base blocks linked cached waiting db := by
          refine { h with parents := fun y hy => ⟨(h.parents y hy).1, fun hp => ?_⟩,
                          waiting := fun i hi => h.waiting i (.tail _ hi) }
          refine (mem_cons.1 ((h.parents y hy).2 hp)).resolve_left fun heq => ?_
          have hmem : y ∈ db.unlinked := h.unlinked ▸ mem_append_right _ hy
          exact find?_eq_none.1 hfind y hmem (decide_eq_true heq)
        obtain ⟨linked', cached', db', hrun, hserial, hfilled, hperm⟩ := ih hrest (by omega)
        refine ⟨linked', cached', db', ?_, hserial, hfilled, hperm⟩
        simp only [pushNext, hfind]
        exact hrun
      | some x =>
        have hprevious : x.data.previous = id := by simpa using find?_some hfind
        have hmem : x ∈ db.unlinked := mem_of_find?_eq_some hfind
        obtain ⟨y, hy, hid⟩ := h.waiting id (.head _)
        have hout : x ∉ base.unlinked := fun hold =>
          hforest.uncached y.data (h.blocks y (mem_append_left _ hy)) x hold (hprevious.trans hid.symm)
        have hcached : x ∈ cached := by
          rw [h.unlinked] at hmem
          exact (mem_append.1 hmem).resolve_left hout
        have hperm : (linked ++ cached).Perm (x :: (linked ++ cached.erase x)) :=
          ((perm_cons_erase hcached).append_left _).trans perm_middle
        have hnodup := (hperm.map (·.id cr)).nodup_iff.1 h.ids
        rw [map_cons, nodup_cons] at hnodup
        have htaken := h.take hout
        obtain ⟨db1, hattach, hserial1, hfilled1⟩ := htaken.attach hforest
          (h.blocks x (mem_append_right _ hcached))
          (fun z hz heq => hnodup.1 (mem_map.2 ⟨z, hz, heq⟩)) (h.loose x hcached).1 (h.loose x hcached).2
          (.inr ⟨y, h.index ▸ mem_append_right _ hy, hid.trans hprevious.symm⟩)
        have hlength : db1.unlinked.length + 1 = db.unlinked.length := by
          rw [(attach_ok hattach).unlinked]
          exact length_erase_add_one hmem
        obtain ⟨linked', cached', db', hrun, hserial, hfilled, hperm'⟩ :=
          ih hfilled1 (by rw [length_cons, length_cons]; omega)
        refine ⟨linked', cached', db', ?_, hserial.trans hserial1, hfilled, hperm'.trans ?_⟩
        · simp only [pushNext, hfind, hattach]
          exact hrun
        · rw [append_assoc, singleton_append]
          exact perm_middle.trans hperm.symm

theorem Filled.counted (h : Filled base blocks linked cached waiting db) :
    Filled base blocks linked cached waiting db.counted :=
  { h with
    loose := fun y hy => ⟨lt_succ_of_lt (h.loose y hy).1, (h.loose y hy).2⟩
    fresh := fun y hy => h.fresh y (le_of_succ_le hy) }

section

variable (hforest : base.Forest blocks) (h : Filled base blocks linked cached [] db)
include hforest h

section

variable (hb : b ∈ blocks) (hids : ∀ y ∈ linked ++ cached, y.id cr ≠ cr.blockId b.toSignedBlockHeader)
include hb hids

theorem Filled.cache (hzero : b.previous ≠ .zero) (hnone : ¬∃ p ∈ db.index, p.id cr = b.previous) :
    Filled base blocks linked (cached ++ [db.newItem b]) []
      { db.counted with unlinked := insertItem cr db.unlinked (db.newItem b) } := by
  have hold := h.counted
  refine
    { maxSize := hold.maxSize
      index := hold.index
      unlinked := ?_
      blocks := ?_
      ids := ?_
      head := hold.head
      links := hold.links
      parents := ?_
      loose := ?_
      fresh := hold.fresh
      kept := hold.kept
      waiting := hold.waiting }
  · change insertItem cr db.unlinked (db.newItem b) = _
    rw [insertItem_of_new, h.unlinked, append_assoc]
    intro y hy
    rw [h.unlinked] at hy
    rcases mem_append.1 hy with hy | hy
    · exact hforest.new b hb y (mem_append_right _ hy)
    · exact hids y (mem_append_right _ hy)
  · intro y hy
    rw [← append_assoc] at hy
    rcases mem_append.1 hy with hy | hy
    · exact h.blocks y hy
    · rw [mem_singleton.1 hy]
      exact hb
  · rw [← append_assoc, map_append, nodup_append]
    refine ⟨h.ids, nodup_singleton _, fun i hi j hj => ?_⟩
    obtain ⟨y, hy, rfl⟩ := mem_map.1 hi
    rw [mem_singleton.1 hj]
    exact hids y hy
  · intro y hy
    rcases mem_append.1 hy with hy | hy
    · exact hold.parents y hy
    · rw [mem_singleton.1 hy]
      exact ⟨hzero, fun hp => absurd hp hnone⟩
  · intro y hy
    rcases mem_append.1 hy with hy | hy
    · exact hold.loose y hy
    · rw [mem_singleton.1 hy]
      exact ⟨lt_succ_self _, h.fresh _ (le_refl _)⟩

theorem Filled.pushBlock :
    ∃ linked' cached', Filled base blocks linked' cached' [] (db.pushBlock b).1 ∧
      ((linked' ++ cached').map (·.data)).Perm ((linked ++ cached).map (·.data) ++ [b]) := by
  have hb' : (db.newItem b).data ∈ blocks := hb
  have hprev : db.counted.prev (db.newItem b) = none := h.fresh _ (le_refl _)
  by_cases hparent : b.previous = .zero ∨ ∃ p ∈ db.index, p.id cr = b.previous
  · obtain ⟨db1, hattach, hserial, hfilled⟩ := h.counted.attach hforest hb' hids (lt_succ_self _) hprev hparent
    rcases pushBlock_cases (Prod.mk.eta (p := db.pushBlock b)).symm
      with ⟨e, herror, -, -⟩ | ⟨db2, r, hok, hnext, -⟩
    · cases hattach.symm.trans herror
    · obtain rfl : db1 = db2 := Except.ok.inj (hattach.symm.trans hok)
      obtain ⟨linked', cached', db', hrun, -, hfilled', hperm⟩ :=
        hfilled.pushNext hforest (2 * db1.unlinked.length + 2) (by simp)
      obtain ⟨hdb, -⟩ := Prod.mk.inj (hnext.symm.trans hrun)
      refine ⟨linked', cached', hdb ▸ hfilled', (hperm.map _).trans ?_⟩
      rw [append_assoc, singleton_append]
      refine (perm_middle.map _).trans ?_
      exact (perm_append_comm : ([b] ++ _).Perm _)
  · rw [not_or] at hparent
    have hnone : findItem cr db.counted.index (db.newItem b).data.previous = none := by
      rw [← Option.not_isSome_iff_eq_none, findItem_isSome_iff]
      exact hparent.2
    obtain ⟨top, hhead, hnum⟩ := h.counted.not_old hforest hb'
    have hattach := attach_of_none hhead hnum hparent.1 hnone
    rcases pushBlock_cases (Prod.mk.eta (p := db.pushBlock b)).symm with ⟨e, herror, -, hdb⟩ | ⟨db2, r, hok, -⟩
    · cases hattach.symm.trans herror
      rw [if_pos rfl] at hdb
      refine ⟨linked, cached ++ [db.newItem b], ?_, ?_⟩
      · rw [hdb]
        exact h.cache hforest hb hids hparent.1 hparent.2
      · rw [← append_assoc, map_append, map_singleton]
        exact .refl _
    · cases hattach.symm.trans hok

end

def pushBlocks (db : ForkDatabase cr) (l : List SignedBlock) : ForkDatabase cr :=
  l.foldl (fun db b => (db.pushBlock b).1) db

theorem Filled.pushBlocks (l : List SignedBlock) (hl : ∀ b ∈ l, b ∈ blocks)
    (hids : (((linked ++ cached).map (·.data) ++ l).map fun b => cr.blockId b.toSignedBlockHeader).Nodup) :
    ∃ linked' cached', Filled base blocks linked' cached' [] (db.pushBlocks l) ∧
      ((linked' ++ cached').map (·.data)).Perm ((linked ++ cached).map (·.data) ++ l) := by
  induction l generalizing db linked cached with
  | nil => exact ⟨linked, cached, h, by rw [append_nil]⟩
  | cons b l ih =>
    have hnew : ∀ y ∈ linked ++ cached, y.id cr ≠ cr.blockId b.toSignedBlockHeader := by
      rw [map_append, nodup_append] at hids
      intro y hy
      exact hids.2.2 _ (mem_map.2 ⟨y.data, mem_map.2 ⟨y, hy, rfl⟩, rfl⟩) _ (by simp)
    obtain ⟨linked1, cached1, h1, hperm1⟩ := h.pushBlock hforest (hl b (.head _)) hnew
    have hsplit : ((linked1 ++ cached1).map (·.data) ++ l).Perm
      ((linked ++ cached).map (·.data) ++ b :: l) := by
      rw [← singleton_append, ← append_assoc]
      exact hperm1.append_right l
    obtain ⟨linked', cached', h', hperm'⟩ := ih h1 (fun c hc => hl c (.tail _ hc))
      ((hsplit.map _).nodup_iff.2 hids)
    exact ⟨linked', cached', h', hperm'.trans hsplit⟩

theorem Filled.cached_eq_nil (hall : ∀ b ∈ blocks, ∃ x ∈ linked ++ cached, x.data = b) : cached = [] := by
  rw [eq_nil_iff_forall_not_mem]
  intro x hx
  induction hnum : x.num using Nat.strongRecOn generalizing x with
  | _ num ih =>
    obtain ⟨hzero, hparents⟩ := h.parents x hx
    have hmem : x.data ∈ blocks := h.blocks x (mem_append_right _ hx)
    rcases hforest.rooted x.data hmem with hroot | ⟨p, hp, hid⟩ | ⟨b, hb, hid⟩
    · exact hzero hroot
    · exact not_mem_nil (hparents ⟨p, h.index ▸ mem_append_left _ hp, hid⟩)
    · obtain ⟨y, hy, rfl⟩ := hall b hb
      rcases mem_append.1 hy with hy | hy
      · exact not_mem_nil (hparents ⟨y, h.index ▸ mem_append_right _ hy, hid⟩)
      · have hpos : 0 < x.num := (hforest.heights x.data hmem).1
        have hup : x.num = (x.data.previous.num + 1) % 2 ^ 32 := rfl
        have hprevious : x.data.previous.num = y.num := congrArg BlockId.num hid.symm
        have hlow : y.num < 2 ^ 32 := Nat.mod_lt _ (by decide)
        exact ih y.num (by omega) y hy rfl

end

end Filled

/-! ## Serial numbers -/

section Serials

variable {db db' : ForkDatabase cr} {x : ForkItem}

structure Numbered (db : ForkDatabase cr) : Prop where
  cached : ∀ x ∈ db.unlinked, x.serial < db.nextSerial
  links : ∀ x p, db.prev x = some p → x.serial < db.nextSerial

section

variable (h : db.Numbered)
include h

theorem Numbered.attach (hx : x.serial < db.nextSerial) (hattach : db.Attached x db') : db'.Numbered := by
  refine ⟨fun y hy => ?_, fun y p hp => ?_⟩
  · rw [hattach.nextSerial]
    exact h.cached y (hattach.unlinked ▸ hy)
  · rw [hattach.nextSerial]
    rcases hattach.links y p hp with hp | ⟨rfl, -⟩
    · exact h.links y p hp
    · exact hx

theorem Numbered.erase (y : ForkItem) :
    ({ db with unlinked := db.unlinked.erase y } : ForkDatabase cr).Numbered :=
  ⟨fun x hx => h.cached x (mem_of_mem_erase hx), h.links⟩

theorem Numbered.pushNext {fuel : Nat} {parents : List BlockId} {r : Result Unit}
    (hnext : pushNext fuel db parents = (db', r)) : db'.Numbered := by
  obtain ⟨-, h', -⟩ := pushNext_invariant (P := fun d _ => d.Numbered) (fun _ _ _ h => h)
    (fun _ _ _ y _ h => h.erase y) (fun d d' _ y hy h hd' => (h.erase y).attach (h.cached y hy) hd') h hnext
  exact h'

theorem Numbered.counted : db.counted.Numbered :=
  ⟨fun x hx => lt_succ_of_lt (h.cached x hx), fun x p hp => lt_succ_of_lt (h.links x p hp)⟩

theorem Numbered.pushBlock (b : SignedBlock) : (db.pushBlock b).1.Numbered := by
  rcases pushBlock_cases (Prod.mk.eta (p := db.pushBlock b)).symm
    with ⟨e, -, -, hdb⟩ | ⟨db1, r, hattach, hnext, -⟩
  · rw [hdb]
    split_ifs
    · refine ⟨fun x hx => ?_, h.counted.links⟩
      rcases mem_insertItem hx with hx | rfl
      · exact h.counted.cached x hx
      · exact lt_succ_self _
    · exact h.counted
  · exact (h.counted.attach (lt_succ_self _) (attach_ok hattach)).pushNext hnext

end

theorem Reached.numbered (h : db.Reached) : db.Numbered := by
  induction h with
  | empty => exact ⟨nofun, nofun⟩
  | pushBlock _ b ih => exact ih.pushBlock b
  | startBlock _ _ ih => exact ⟨ih.counted.cached, ih.counted.links⟩
  | setHead _ _ ih => exact ⟨ih.cached, ih.links⟩
  | @popBlock d d' _ pinned hpop ih =>
    obtain ⟨p, -, rfl⟩ := popBlock_ok hpop
    exact ⟨ih.cached, ih.links⟩
  | remove _ _ ih => exact ⟨ih.cached, ih.links⟩
  | @setMaxSize d _ size ih =>
    unfold ForkDatabase.setMaxSize
    split
    · exact ⟨ih.cached, ih.links⟩
    · exact ⟨fun x hx => ih.cached x (mem_of_mem_filter hx), ih.links⟩
  | reset _ ih => exact ⟨ih.cached, ih.links⟩

end Serials

theorem Filled.start {base : ForkDatabase cr} {blocks : List SignedBlock} {h : ForkItem} (hbase : base.Reached)
    (hhead : base.head = some h) : Filled base blocks [] [] [] base where
  maxSize := rfl
  index := (append_nil _).symm
  unlinked := (append_nil _).symm
  blocks := nofun
  ids := .nil
  head := ⟨h, hhead, .inl hhead, fun h0 hh0 => by cases hh0.symm.trans hhead; rfl, nofun⟩
  links := nofun
  parents := nofun
  loose := nofun
  fresh x hx := by
    cases hprev : base.prev x with
    | none => rfl
    | some p => exact absurd (hbase.numbered.links x p hprev) (not_lt.2 hx)
  kept _ _ := rfl
  waiting := nofun

theorem forest_in_any_order {base : ForkDatabase cr} (hbase : base.Reached) {h : ForkItem}
    (hhead : base.head = some h) {blocks order : List SignedBlock} (hforest : base.Forest blocks)
    (horder : order.Perm blocks) :
    let db := base.pushBlocks order
    ∃ items, db.index = base.index ++ items ∧ (items.map (·.data)).Perm blocks ∧ db.unlinked = base.unlinked ∧
      (∀ x ∈ items, x.data.previous = .zero ∧ db.prev x = none ∨
        ∃ p ∈ db.index, db.prev x = some p ∧ p.id cr = x.data.previous) ∧
      (∀ x ∈ base.index, db.prev x = base.prev x) ∧
      ∃ top, db.head = some top ∧ (top = h ∨ top ∈ items) ∧ h.num ≤ top.num ∧
        ∀ b ∈ blocks, b.blockNum ≤ top.num := by
  have hids : (order.map fun b => cr.blockId b.toSignedBlockHeader).Nodup :=
    (horder.map _).nodup_iff.2 hforest.distinct
  obtain ⟨items, cached, hfilled, hperm⟩ := (Filled.start hbase hhead).pushBlocks hforest order
    (fun b hb => horder.subset hb) hids
  have hitems : ((items ++ cached).map (·.data)).Perm blocks := hperm.trans horder
  have hall : ∀ b ∈ blocks, ∃ x ∈ items ++ cached, x.data = b := fun b hb =>
    mem_map.1 (hitems.symm.subset hb)
  obtain rfl := hfilled.cached_eq_nil hforest hall
  rw [append_nil] at hitems hall
  obtain ⟨top, htop, hfrom, hold, hlinked⟩ := hfilled.head
  refine ⟨items, hfilled.index, hitems, hfilled.unlinked.trans (append_nil _), fun x hx => ?_, hfilled.kept,
    top, htop, hfrom.imp (fun heq => Option.some.inj (heq.symm.trans hhead)) id, hold h hhead, fun b hb => ?_⟩
  · refine (hfilled.links x hx).imp_right ?_
    rintro ⟨p, hp, hprev⟩
    exact ⟨p, hp, hprev, linked _ x p hprev⟩
  · obtain ⟨x, hx, rfl⟩ := hall b hb
    exact hlinked x hx

section Toy

def leftTip : SignedBlock := toyBlock (toyId leftBlock) 12

def trunkDb : ForkDatabase toyParams.toCrypto := ((empty toyParams.toCrypto).pushBlock trunkBlock).1

theorem forest_trunkDb : trunkDb.Forest [leftBlock, rightBlock, leftTip] :=
  ⟨by decide, by decide, by decide, by decide, by decide⟩

theorem forest_in_reverse_order : ∃ items,
    (trunkDb.pushBlocks [leftTip, rightBlock, leftBlock]).index = trunkDb.index ++ items ∧
      (items.map (·.data)).Perm [leftBlock, rightBlock, leftTip] ∧
      (trunkDb.pushBlocks [leftTip, rightBlock, leftBlock]).unlinked = [] := by
  obtain ⟨items, hindex, hitems, hunlinked, -⟩ := forest_in_any_order (Reached.empty.pushBlock trunkBlock)
    (show trunkDb.head = some ⟨0, trunkBlock⟩ by decide) forest_trunkDb
    (show [leftTip, rightBlock, leftBlock].Perm _ by decide)
  exact ⟨items, hindex, hitems, hunlinked.trans (by decide)⟩

theorem forest_child_first :
    let parentFirst := (empty toyParams.toCrypto).pushBlocks [leftBlock, leftTip]
    let childFirst := (empty toyParams.toCrypto).pushBlocks [leftTip, leftBlock]
    parentFirst.index.map (·.data) = [leftBlock, leftTip] ∧ parentFirst.unlinked = [] ∧
      childFirst.index.map (·.data) = [leftTip] ∧ childFirst.unlinked.map (·.data) = [leftBlock] := by
  decide

end Toy

end ForkDatabase

end Xgt
