import XgtChain.Chain.ForkDatabase

/-!
# Which items a link leads to

A link of the fork database is made to an item of the index, and an item never goes from the index to the
cache (`Threaded`).
-/

namespace Xgt

open Base List BlockId Nat Option

def Lineage (cr : Crypto) : List SignedBlock → BlockId → Prop
  | [], id => id = .zero
  | b :: blocks, id => cr.blockId b.toSignedBlockHeader = id ∧ Lineage cr blocks b.previous

/-- Blocks in `B` with one id are one block. -/
def IdsTell (cr : Crypto) (B : SignedBlock → Prop) : Prop :=
  ∀ b c, B b → B c → cr.blockId b.toSignedBlockHeader = cr.blockId c.toSignedBlockHeader → b = c

theorem Lineage.id_eq {cr : Crypto} {l : List SignedBlock} {id id' : BlockId} (h : Lineage cr l id)
    (h' : Lineage cr l id') : id = id' := by
  cases l with
  | nil => exact Eq.trans h (Eq.symm h')
  | cons b l => exact h.1.symm.trans h'.1

theorem Lineage.unique {cr : Crypto} {B : SignedBlock → Prop} {l l' : List SignedBlock} {id : BlockId}
    (hB : IdsTell cr B) (h : Lineage cr l id) (h' : Lineage cr l' id) (hl : ∀ b ∈ l, B b)
    (hl' : ∀ b ∈ l', B b) (hlen : l.length = l'.length) : l = l' := by
  induction l generalizing l' id with
  | nil => exact (eq_nil_of_length_eq_zero hlen.symm).symm
  | cons b l ih =>
    obtain ⟨c, l', rfl⟩ := exists_cons_of_length_pos (zero_lt_of_lt (lt_of_lt_of_eq
      (zero_lt_succ l.length) hlen))
    have hbc : b = c := hB b c (hl b (.head _)) (hl' c (.head _)) (h.1.trans h'.1.symm)
    subst hbc
    rw [ih h.2 h'.2 (fun x hx => hl x (.tail _ hx))
      (fun x hx => hl' x (.tail _ hx)) (succ.inj hlen)]

namespace ForkDatabase

variable {cr : Crypto} {db db' : ForkDatabase cr} {x p : ForkItem} {xs ys : List ForkItem}
variable {fuel : Nat} {parents : List BlockId} {b : SignedBlock} {r : Result ForkItem} {t : ForkItem}

/-! ## Links -/

structure Threaded (db : ForkDatabase cr) : Prop where
  fresh : ∀ x ∈ db.index ++ db.unlinked, x.serial < db.nextSerial
  links : ∀ x p, db.prev x = some p → p.serial < db.nextSerial ∧ p ∉ db.unlinked
  apart : ∀ x ∈ db.index, x ∉ db.unlinked
  once : db.unlinked.Nodup

section

variable (h : db.Threaded)
include h

theorem Threaded.of_sublist (hserial : db'.nextSerial = db.nextSerial)
    (hindex : db'.index.Sublist db.index) (hunlinked : db'.unlinked.Sublist db.unlinked)
    (hprev : db'.prev = db.prev) : db'.Threaded where
  fresh x hx := hserial ▸ h.fresh x ((hindex.append hunlinked).subset hx)
  links y p hp := by
    rw [hprev] at hp
    obtain ⟨hserial', hcache⟩ := h.links y p hp
    exact ⟨hserial ▸ hserial', fun hmem => hcache (hunlinked.subset hmem)⟩
  apart y hy hmem := h.apart y (hindex.subset hy) (hunlinked.subset hmem)
  once := hunlinked.nodup h.once

theorem Threaded.setHead (x : ForkItem) : (db.setHead x).Threaded :=
  h.of_sublist rfl (.refl _) (.refl _) rfl

theorem Threaded.remove (id : BlockId) : (db.remove id).Threaded :=
  h.of_sublist rfl filter_sublist (.refl _) rfl

theorem Threaded.setMaxSize (size : Nat) : (db.setMaxSize size).Threaded := by
  unfold ForkDatabase.setMaxSize
  split
  · exact h.of_sublist rfl (.refl _) (.refl _) rfl
  · exact h.of_sublist rfl filter_sublist filter_sublist rfl

theorem Threaded.erase (y : ForkItem) :
    ({ db with unlinked := db.unlinked.erase y } : ForkDatabase cr).Threaded :=
  h.of_sublist rfl (.refl _) erase_sublist rfl

end

theorem Attached.threaded (h : db.Attached x db') (hdb : db.Threaded) (hserial : x.serial < db.nextSerial)
    (hcache : x ∉ db.unlinked) : db'.Threaded where
  fresh y hy := by
    rw [h.nextSerial]
    rw [h.unlinked] at hy
    rcases mem_append.1 hy with hy | hy
    · rcases h.mem_index hy with hy | rfl
      · exact hdb.fresh y (mem_append_left _ hy)
      · exact hserial
    · exact hdb.fresh y (mem_append_right _ hy)
  links y p hp := by
    rw [h.nextSerial, h.unlinked]
    rcases h.links y p hp with hp | ⟨-, hp, -⟩
    · exact hdb.links y p hp
    · exact ⟨hdb.fresh p (mem_append_left _ hp), hdb.apart p hp⟩
  apart y hy := by
    rw [h.unlinked]
    rcases h.mem_index hy with hy | rfl
    · exact hdb.apart y hy
    · exact hcache
  once := by
    rw [h.unlinked]
    exact hdb.once

theorem Attached.head_lt (h : db.Attached x db') (hhead : db.head = some t) :
    db'.head = some t ∨ db'.head = some x ∧ t.num < x.num := by
  rcases h.head with ⟨hnone, -⟩ | ⟨s, hsome, -, htop⟩
  · cases hhead.symm.trans hnone
  · cases hhead.symm.trans hsome
    exact htop

theorem pushNext_threaded {r : Result Unit} (h : db.Threaded)
    (hnext : pushNext fuel db parents = (db', r)) : db'.Threaded ∧ db.index ⊆ db'.index := by
  obtain ⟨-, h', -⟩ := pushNext_invariant (P := fun d _ => d.Threaded ∧ db.index ⊆ d.index)
    (fun _ _ _ h => h) (fun _ _ _ y _ h => ⟨h.1.erase y, h.2⟩)
    (fun d d' _ y hy h hd' => by
      refine ⟨hd'.threaded (h.1.erase y) (h.1.fresh y (mem_append_right _ hy)) h.1.once.not_mem_erase, ?_⟩
      exact List.Subset.trans h.2 hd'.subset)
    ⟨h, List.Subset.refl _⟩ hnext
  exact h'

theorem pushNext_numbers {k : Nat} {r : Result Unit} (hhead : db.head.isSome)
    (hparents : ∀ id ∈ parents, k ≤ id.num ∧ id.num < 2 ^ 32)
    (hnext : pushNext fuel db parents = (db', r)) :
    (∀ y ∈ db'.index, y ∈ db.index ∨ k < y.num) ∧
      (db'.head = db.head ∨ ∃ y, db'.head = some y ∧ k < y.num) := by
  obtain ⟨-, ⟨-, -, h⟩, -⟩ := pushNext_invariant
    (P := fun d parents => d.head.isSome ∧ (∀ id ∈ parents, k ≤ id.num ∧ id.num < 2 ^ 32) ∧
      (∀ y ∈ d.index, y ∈ db.index ∨ k < y.num) ∧ (d.head = db.head ∨ ∃ y, d.head = some y ∧ k < y.num))
    (fun _ _ _ h => ⟨h.1, fun q hq => h.2.1 q (.tail _ hq), h.2.2⟩) (fun _ _ _ _ _ h => h)
    (fun d d' _ y _ h hd' => by
      obtain ⟨hhead, hparents, hindex, htop⟩ := h
      obtain ⟨hk, hlow⟩ := hparents _ (.head _)
      have hnum : k < y.num := by
        have hpos := hd'.pos hhead
        have hmod : y.num = (y.data.previous.num + 1) % 2 ^ 32 := rfl
        omega
      refine ⟨hd'.head_isSome, fun q hq => ?_, fun z hz => ?_, ?_⟩
      · rcases mem_cons.1 hq with rfl | hq
        · exact ⟨hnum.le, mod_lt _ (by decide)⟩
        · exact hparents q hq
      · rcases hd'.mem_index hz with hz | rfl
        · exact hindex z hz
        · exact .inr hnum
      · rcases hd'.head_eq with heq | heq
        · rw [heq]
          exact htop
        · exact .inr ⟨y, heq, hnum⟩)
    ⟨hhead, hparents, fun y hy => .inl hy, .inl rfl⟩ hnext
  exact h

theorem pushNext_head_lt {r : Result Unit} (hnext : pushNext fuel db parents = (db', r))
    (hhead : db.head = some t) : ∃ y, db'.head = some y ∧ (y = t ∨ t.num < y.num) := by
  obtain ⟨-, h, -⟩ := pushNext_invariant (P := fun d _ => ∃ y, d.head = some y ∧ (y = t ∨ t.num < y.num))
    (fun _ _ _ h => h) (fun _ _ _ _ _ h => h)
    (fun d d' _ y _ h hd' => by
      obtain ⟨s, hs, hst⟩ := h
      rcases hd'.head_lt hs with hold | ⟨hnew, hlt⟩
      · exact ⟨s, hold, hst⟩
      · refine ⟨y, hnew, .inr ?_⟩
        rcases hst with rfl | hst
        · exact hlt
        · exact hst.trans hlt)
    ⟨t, hhead, .inl rfl⟩ hnext
  exact h

structure Pushed (db : ForkDatabase cr) (b : SignedBlock) (db' : ForkDatabase cr) (r : Result ForkItem) :
    Prop where
  threaded : db'.Threaded
  index : db.index ⊆ db'.index
  known : ∀ x, r = .ok x → ∃ y ∈ db'.index, y.id cr = cr.blockId b.toSignedBlockHeader
  parent : ∀ x, r = .ok x →
    db.head = none ∨ b.previous = .zero ∨ ∃ p ∈ db.index, p.id cr = b.previous

theorem Threaded.counted (h : db.Threaded) : db.counted.Threaded := by
  refine ⟨fun y hy => lt_succ_of_lt (h.fresh y hy), fun y p hp => ?_, h.apart, h.once⟩
  obtain ⟨hserial, hcache⟩ := h.links y p hp
  exact ⟨lt_succ_of_lt hserial, hcache⟩

theorem Threaded.cache (h : db.Threaded) (b : SignedBlock) :
    ({ db.counted with unlinked := insertItem cr db.unlinked (db.newItem b) } : ForkDatabase cr).Threaded := by
  have hnew {y : ForkItem} (hy : y.serial < db.nextSerial) : y ≠ db.newItem b := by
    rintro rfl
    exact lt_irrefl _ hy
  refine ⟨fun y hy => ?_, fun y p hp => ?_, fun y hy hmem => ?_, ?_⟩
  · rcases mem_append.1 hy with hy | hy
    · exact h.counted.fresh y (mem_append_left _ hy)
    · rcases mem_insertItem hy with hy | rfl
      · exact h.counted.fresh y (mem_append_right _ hy)
      · exact lt_succ_self _
  · obtain ⟨hserial, hout⟩ := h.links y p hp
    refine ⟨lt_succ_of_lt hserial, fun hmem => ?_⟩
    rcases mem_insertItem hmem with hmem | heq
    · exact hout hmem
    · exact hnew hserial heq
  · rcases mem_insertItem hmem with hmem | heq
    · exact h.apart y hy hmem
    · exact hnew (h.fresh y (mem_append_left _ hy)) heq
  · change (insertItem cr db.unlinked (db.newItem b)).Nodup
    unfold insertItem
    split_ifs
    · exact h.once
    · refine h.once.append (nodup_singleton _) ?_
      rw [disjoint_singleton]
      exact fun hx => hnew (h.fresh _ (mem_append_right _ hx)) rfl

theorem Threaded.pushBlock (h : db.Threaded) (hpush : db.pushBlock b = (db', r)) : db.Pushed b db' r := by
  have hcache : db.newItem b ∉ db.unlinked := fun hx =>
    lt_irrefl _ (h.fresh (db.newItem b) (mem_append_right _ hx))
  rcases pushBlock_cases hpush with ⟨e, -, rfl, rfl⟩ | ⟨db1, r', hattach, hnext, hr⟩
  · have hfailed (x : ForkItem) : (Except.error e : Result ForkItem) ≠ .ok x := by rintro ⟨⟩
    have hthreaded : (if e.kind = .unlinkableBlock then
        { db.counted with unlinked := insertItem cr db.unlinked (db.newItem b) }
        else db.counted).Threaded := by
      split_ifs
      · exact h.cache b
      · exact h.counted
    refine ⟨hthreaded, ?_, fun x hx => absurd hx (hfailed x), fun x hx => absurd hx (hfailed x)⟩
    split_ifs <;> exact List.Subset.refl _
  · have hattached := attach_ok hattach
    have h1 := hattached.threaded h.counted (lt_succ_self _) hcache
    obtain ⟨h2, hindex⟩ := pushNext_threaded h1 hnext
    refine ⟨h2, List.Subset.trans hattached.subset hindex, fun _ _ => ?_, fun _ _ => hattached.parent⟩
    obtain ⟨y, hy, hid⟩ := hattached.known
    exact ⟨y, hindex hy, hid⟩

theorem pushBlock_added (hpush : db.pushBlock b = (db', r)) :
    (∀ y ∈ db'.index, y ∈ db.index ∨ b.blockNum ≤ y.num ∧ (db.head = none ∨
      0 < b.blockNum ∧ (b.previous = .zero ∨ ∃ p ∈ db.index, p.id cr = b.previous))) ∧
    ∀ x, r = .ok x → db.head = some x ∨ x = db.newItem b ∨ b.blockNum < x.num := by
  rcases pushBlock_cases hpush with ⟨e, -, rfl, rfl⟩ | ⟨db1, r', hattach, hnext, hr⟩
  · refine ⟨fun y hy => .inl ?_, fun x hx => by cases hx⟩
    split_ifs at hy <;> exact hy
  · have hattached := attach_ok hattach
    have hparent : db.head = none ∨
        0 < b.blockNum ∧ (b.previous = .zero ∨ ∃ p ∈ db.index, p.id cr = b.previous) := by
      rcases hattached.parent with hnone | hparent
      · exact .inl hnone
      · rcases hattached.head with ⟨hnone, -⟩ | ⟨-, -, hpos, -⟩
        · exact .inl hnone
        · exact .inr ⟨hpos, hparent⟩
    obtain ⟨hindex, hhead⟩ := pushNext_numbers (k := b.blockNum) hattached.head_isSome (fun id hid => by
      rw [mem_singleton.1 hid]
      exact ⟨le_rfl, mod_lt _ (by decide)⟩) hnext
    refine ⟨fun y hy => ?_, fun x hx => ?_⟩
    · rcases hindex y hy with hy | hy
      · rcases hattached.mem_index hy with hy | rfl
        · exact .inl hy
        · exact .inr ⟨le_rfl, hparent⟩
      · exact .inr ⟨hy.le, hparent⟩
    · obtain ⟨-, htop⟩ := hr x hx
      rcases hhead with heq | ⟨y, heq, hnum⟩
      · rcases hattached.head_eq with hold | hnew
        · exact .inl ((heq.trans hold).symm.trans htop)
        · exact .inr (.inl (some.inj (htop.symm.trans (heq.trans hnew))))
      · cases htop.symm.trans heq
        exact .inr (.inr hnum)

theorem pushBlock_head_lt (hhead : db.head = some t)
    (hpush : db.pushBlock b = (db', .ok x)) : x = t ∨ t.num < x.num := by
  rcases pushBlock_cases hpush with ⟨e, -, hr, -⟩ | ⟨db1, r', hattach, hnext, hr⟩
  · cases hr
  · obtain ⟨-, htop⟩ := hr x rfl
    rcases (attach_ok hattach).head_lt hhead with hold | ⟨hnew, hnum⟩
    · obtain ⟨y, hy, hcases⟩ := pushNext_head_lt hnext hold
      cases htop.symm.trans hy
      exact hcases
    · obtain ⟨y, hy, rfl | hnum'⟩ := pushNext_head_lt hnext hnew
      · cases htop.symm.trans hy
        exact .inr hnum
      · cases htop.symm.trans hy
        exact .inr (hnum.trans hnum')

theorem pushBlock_head_isSome (hhead : db.head = none)
    (hpush : db.pushBlock b = (db', r)) : db'.head.isSome := by
  rcases pushBlock_cases hpush with ⟨e, hattach, -, -⟩ | ⟨db1, r', hattach, hnext, -⟩
  · exact absurd hhead (attach_error hattach).1
  · obtain ⟨t, ht⟩ := isSome_iff_exists.1 (attach_ok hattach).head_isSome
    obtain ⟨y, hy, -⟩ := pushNext_head_lt hnext ht
    exact isSome_iff_exists.2 ⟨y, hy⟩

def Covers (db : ForkDatabase cr) (blocks : List SignedBlock) : Prop :=
  ∃ low, 0 < low ∧ (∀ x ∈ db.index, low ≤ x.num) ∧ ∀ c ∈ blocks, low ≤ c.blockNum →
    ∃ x ∈ db.index, x.id cr = cr.blockId c.toSignedBlockHeader

section Covers

variable {blocks blocks' : List SignedBlock} {b : SignedBlock}

section

variable (h : db.Covers blocks)
include h

theorem Covers.of_subset (hsub : blocks' ⊆ blocks) (hindex : db'.index = db.index) : db'.Covers blocks' := by
  obtain ⟨low, hpos, hlow, hkept⟩ := h
  refine ⟨low, hpos, ?_, ?_⟩
  · rw [hindex]
    exact hlow
  · rw [hindex]
    exact fun c hc => hkept c (hsub hc)

theorem Covers.cons
    (hb : ∃ x ∈ db.index, x.id cr = cr.blockId b.toSignedBlockHeader) : db.Covers (b :: blocks) := by
  obtain ⟨low, hpos, hlow, hkept⟩ := h
  refine ⟨low, hpos, hlow, fun c hc hnum => ?_⟩
  rcases mem_cons.1 hc with rfl | hc
  · exact hb
  · exact hkept c hc hnum

theorem Covers.setMaxSize (size : Nat) : (db.setMaxSize size).Covers blocks := by
  obtain ⟨low, hpos, hlow, hkept⟩ := h
  cases hhead : db.head with
  | none =>
    refine ⟨low, hpos, ?_, ?_⟩ <;> rw [ForkDatabase.setMaxSize, hhead]
    · exact hlow
    · exact hkept
  | some t =>
    refine ⟨max low (t.num - size), lt_max_of_lt_left hpos, fun x hx => ?_, fun c hc hnum => ?_⟩
    · obtain ⟨hx, hnum⟩ := (mem_setMaxSize_index hhead).1 hx
      exact max_le (hlow x hx) hnum
    · obtain ⟨x, hx, hid⟩ := hkept c hc ((le_max_left _ _).trans hnum)
      have hxnum : x.num = c.blockNum := congrArg num hid
      exact ⟨x, (mem_setMaxSize_index hhead).2 ⟨hx, hxnum ▸ (le_max_right _ _).trans hnum⟩, hid⟩

theorem Covers.remove {id : BlockId}
    (hid : ∀ c ∈ blocks, cr.blockId c.toSignedBlockHeader ≠ id) : (db.remove id).Covers blocks := by
  obtain ⟨low, hpos, hlow, hkept⟩ := h
  refine ⟨low, hpos, fun x hx => hlow x (mem_of_mem_filter hx), fun c hc hnum => ?_⟩
  obtain ⟨x, hx, hxc⟩ := hkept c hc hnum
  refine ⟨x, mem_filter.2 ⟨hx, decide_eq_true ?_⟩, hxc⟩
  rw [hxc]
  exact hid c hc

theorem Covers.pushBlock {r : Result ForkItem} (hpush : db.pushBlock b = (db', r))
    (hindex : db.index ⊆ db'.index) (hempty : db.head = none → db.index = [] ∧ b.previous = .zero)
    (hroot : b.previous = .zero → db.head = none ∨ ∃ x ∈ db.index, x.num = 1)
    (hblocks : db.head = none → blocks = []) : db'.Covers blocks := by
  obtain ⟨low, hpos, hlow, hkept⟩ := h
  obtain ⟨hadded, -⟩ := pushBlock_added hpush
  have hone (hzero : b.previous = .zero) : b.blockNum = 1 := by
    change (b.previous.num + 1) % 2 ^ 32 = 1
    rw [hzero]
    rfl
  cases hhead : db.head with
  | none =>
    obtain ⟨hnil, hzero⟩ := hempty hhead
    refine ⟨1, one_pos, fun x hx => ?_, ?_⟩
    · rcases hadded x hx with hx | ⟨hnum, -⟩
      · rw [hnil] at hx
        cases hx
      · exact hone hzero ▸ hnum
    · rw [hblocks hhead]
      nofun
  | some t =>
    have hnone : db.head ≠ none := by rw [hhead]; exact some_ne_none t
    refine ⟨low, hpos, fun x hx => ?_, fun c hc hnum => ?_⟩
    · rcases hadded x hx with hx | ⟨hnum, habsent | ⟨hb, hzero | ⟨p, hp, hid⟩⟩⟩
      · exact hlow x hx
      · exact absurd habsent hnone
      · rcases hroot hzero with habsent | ⟨y, hy, hynum⟩
        · exact absurd habsent hnone
        · have hle := hlow y hy
          have hb' := hone hzero
          omega
      · have hle := hlow p hp
        have hpnum : p.num = b.previous.num := congrArg num hid
        have hmod : b.blockNum = (b.previous.num + 1) % 2 ^ 32 := rfl
        have hp' : p.num < 2 ^ 32 := mod_lt _ (by decide)
        omega
    · obtain ⟨x, hx, hid⟩ := hkept c hc hnum
      exact ⟨x, hindex hx, hid⟩

end

end Covers

/-! ## Branches -/

variable {Q : ForkItem → Prop} {x y : ForkItem}

theorem Branch.falling (h : db.Branch xs) (hdb : db.Sane Q) : xs.Pairwise fun a b => b.num < a.num := by
  have hchain : xs.IsChain fun a b => b.num < a.num := by
    refine List.IsChain.imp (fun a b hprev => ?_) h
    have hup := num_of_prev hprev (hdb.links a b hprev)
    omega
  exact hchain.pairwise

def PartAt : List ForkItem → List ForkItem → Prop
  | x :: x' :: xs, y :: y' :: ys => x.data.previous ≠ y.data.previous ∧ PartAt (x' :: xs) (y' :: ys)
  | _, _ => True

theorem walkBoth_partAt {fuel : Nat} (h : db.walkBoth fuel x y = .ok (xs, ys)) :
    PartAt xs ys ∧ xs.head? = some x ∧ ys.head? = some y ∧ xs.length = ys.length := by
  induction fuel generalizing x y xs ys with
  | zero => cases h
  | succ fuel ih =>
    unfold walkBoth at h
    split_ifs at h with hsame
    · cases h
      exact ⟨trivial, rfl, rfl, rfl⟩
    · simp only [bind_ok_iff] at h
      obtain ⟨p, -, q, -, ⟨l, m⟩, hr, h⟩ := h
      cases h
      obtain ⟨hpart, hl, hm, hlen⟩ := ih hr
      obtain ⟨l, rfl⟩ := head?_eq_some_iff.1 hl
      obtain ⟨m, rfl⟩ := head?_eq_some_iff.1 hm
      exact ⟨⟨hsame, hpart⟩, rfl, rfl, congrArg succ hlen⟩

theorem PartAt.ids_ne (hdb : db.Sane Q) (hpart : PartAt (x :: xs) (y :: ys)) (hxs : db.Branch (x :: xs))
    (hys : db.Branch (y :: ys)) (hlen : xs.length = ys.length) (hnum : x.num = y.num) :
    ∀ z ∈ x :: xs, ∀ w ∈ ys, z.id cr ≠ w.id cr := by
  induction ys generalizing x y xs with
  | nil => nofun
  | cons y' ys ih =>
    obtain ⟨x', xs, rfl⟩ := exists_cons_of_length_pos (zero_lt_of_lt (lt_of_lt_of_eq
      (zero_lt_succ ys.length) hlen.symm))
    obtain ⟨hprevx, hrestx⟩ := isChain_cons_cons.1 hxs
    obtain ⟨hprevy, hresty⟩ := isChain_cons_cons.1 hys
    have hupx := num_of_prev hprevx (hdb.links x x' hprevx)
    have hupy := num_of_prev hprevy (hdb.links y y' hprevy)
    have hbelow := (pairwise_cons.1 (Branch.falling hrestx hdb)).1
    have hbelow' := (pairwise_cons.1 (Branch.falling hresty hdb)).1
    intro z hz w hw hid
    have hnums : z.num = w.num := congrArg num hid
    have hwy : w.num ≤ y'.num := by
      rcases mem_cons.1 hw with rfl | hw
      · exact le_rfl
      · exact (hbelow' w hw).le
    rcases mem_cons.1 hz with rfl | hz
    · omega
    · rcases mem_cons.1 hw with rfl | hw
      · -- An item of the first branch with the number of `y'` is `x'`.
        rcases mem_cons.1 hz with rfl | hz
        · refine hpart.1 ?_
          rw [← db.linked x z hprevx, ← db.linked y w hprevy, hid]
        · have hlt := hbelow z hz
          omega
      · exact ih hpart.2 hrestx hresty (succ.inj hlen) (by omega) z hz w hw hid

theorem fetchBranchFrom_apart {first second : BlockId} (hdb : db.Sane Q)
    (h : db.fetchBranchFrom first second = .ok (xs, ys)) (hle : second.num ≤ first.num) :
    ∀ z ∈ xs, ∀ w ∈ ys.tail, z.id cr ≠ w.id cr := by
  have hbranches := fetchBranchFrom_ok h
  obtain ⟨x, hx, h⟩ := of_bind h
  obtain ⟨y, hy, h⟩ := of_bind h
  obtain ⟨⟨xs1, x1⟩, hxs, h⟩ := of_bind h
  obtain ⟨⟨ys1, y1⟩, hys, h⟩ := of_bind h
  obtain ⟨⟨xs2, ys2⟩, hboth, h⟩ := of_bind h
  cases h
  obtain ⟨-, rfl⟩ := getItem_ok hx
  obtain ⟨-, rfl⟩ := getItem_ok hy
  rw [ForkItem.id_num, ForkItem.id_num] at hle
  obtain ⟨hbx, -, -, -, hminx⟩ := walkDown_ok hxs
  obtain ⟨-, hheady, -, hleny, hminy⟩ := walkDown_ok hys
  dsimp only at hminy hminx hbranches
  -- The second branch starts at the number where the walk down the first one ends.
  obtain rfl : ys1 = [] := eq_nil_of_length_eq_zero (by omega)
  obtain rfl : y1 = y := some.inj hheady
  obtain ⟨hpart, hx2, hy2, hlen⟩ := walkBoth_partAt hboth
  obtain ⟨xs2, rfl⟩ := head?_eq_some_iff.1 hx2
  obtain ⟨ys2, rfl⟩ := head?_eq_some_iff.1 hy2
  have hfalling := Branch.falling hbx hdb
  have hfalling' := Branch.falling hbranches.branch2 hdb
  intro z hz w hw hid
  rcases mem_append.1 hz with hz | hz
  · have hnums : z.num = w.num := congrArg num hid
    have hzx : x1.num < z.num :=
      (pairwise_append.1 hfalling).2.2 z hz x1 (mem_singleton_self x1)
    have hwy : w.num < y1.num := (pairwise_cons.1 hfalling').1 w hw
    omega
  · exact hpart.ids_ne hdb hbranches.branch1.right_of_append hbranches.branch2 (succ.inj hlen)
      (show x1.num = y1.num by omega) z hz w hw hid

theorem Branch.mem_index (h : db.Branch (x :: xs)) (hdb : db.Threaded) (hx : x ∈ db.index)
    (hheld : ∀ y ∈ xs, db.Holds y) (hhead : ∀ y ∈ xs, db.head ≠ some y) : ∀ y ∈ x :: xs, y ∈ db.index := by
  induction xs generalizing x with
  | nil =>
    intro y hy
    rw [mem_singleton.1 hy]
    exact hx
  | cons p xs ih =>
    obtain ⟨hprev, hrest⟩ := isChain_cons_cons.1 h
    have hp : p ∈ db.index := by
      have hcases := hheld p (.head _)
      unfold Holds at hcases
      rcases mem_append.1 hcases with hmem | hmem
      · rcases mem_append.1 hmem with hmem | hmem
        · exact hmem
        · exact absurd hmem (hdb.links x p hprev).2
      · exact absurd (mem_toList.1 hmem) (hhead p (.head _))
    intro y hy
    rcases mem_cons.1 hy with rfl | hy
    · exact hx
    · exact ih hrest hp (fun z hz => hheld z (.tail _ hz))
        (fun z hz => hhead z (.tail _ hz)) y hy

theorem BuildsOn.lt_num {id : BlockId} (h : BuildsOn cr id xs) (hlow : id.num < 2 ^ 32)
    (hpos : ∀ x ∈ xs, 0 < x.num) : ∀ x ∈ xs, id.num < x.num := by
  induction xs generalizing id with
  | nil => nofun
  | cons y xs ih =>
    have hy : id.num < y.num := by
      have hnum : y.num = (id.num + 1) % 2 ^ 32 := by rw [← h.1]; rfl
      have hpos := hpos y (.head _)
      omega
    intro x hx
    rcases mem_cons.1 hx with rfl | hx
    · exact hy
    · have hlow' : (y.id cr).num < 2 ^ 32 := mod_lt _ (by decide)
      have hlt := ih h.2 hlow' (fun z hz => hpos z (.tail _ hz)) x hx
      exact hy.trans hlt

section Lineage

variable {B : SignedBlock → Prop} {blocks : List SignedBlock} {pinned : List ForkItem} {num : Nat}
  {z h : ForkItem}

theorem walkMainBranchToNum_mem {fuel : Nat} (hB : IdsTell cr B) (hblocks : ∀ b ∈ blocks, B b)
    (hheld : ∀ y, db.Holds y ∨ y ∈ pinned → B y.data) (hx : B x.data) (hpos : 0 < num) (hle : num ≤ x.num)
    (hline : Lineage cr blocks (x.id cr)) (hz : db.walkMainBranchToNum pinned num fuel x = some z) :
    z.data ∈ blocks := by
  induction fuel generalizing x blocks with
  | zero => cases hz
  | succ fuel ih =>
    cases blocks with
    | nil =>
      -- Every block has a number.
      have hzero : x.num = 0 := congrArg BlockId.num hline
      omega
    | cons c blocks =>
      obtain rfl : c = x.data := hB _ _ (hblocks c (.head _)) hx hline.1
      unfold walkMainBranchToNum at hz
      split_ifs at hz with hlt
      · obtain ⟨p, hp, hz⟩ := bind_eq_some_iff.1 hz
        obtain ⟨hprev, hmem⟩ := parent_eq_some_iff.1 hp
        have hup := num_of_prev hprev (by omega)
        refine .tail _ (ih (fun b hb => hblocks b (.tail _ hb))
          (hheld p (mem_append.1 hmem)) (by omega) ?_ hz)
        rw [db.linked x p hprev]
        exact hline.2
      · cases hz
        exact .head _

theorem exists_of_fetchBlockOnMainBranchByNumber (hz : db.fetchBlockOnMainBranchByNumber pinned num = some z) :
    ∃ y ∈ db.index, y.num = num := by
  unfold fetchBlockOnMainBranchByNumber at hz
  split at hz
  · cases hz
  · split_ifs at hz
    have hne : db.fetchBlockByNumber num ≠ [] := by
      intro hnil
      rw [hnil] at hz
      cases hz
    obtain ⟨y, hy⟩ := exists_mem_of_ne_nil _ hne
    obtain ⟨hmem, hnum⟩ := mem_filter.1 hy
    exact ⟨y, hmem, of_decide_eq_true hnum⟩

theorem fetchBlockOnMainBranchByNumber_mem (hB : IdsTell cr B) (hblocks : ∀ b ∈ blocks, B b)
    (hheld : ∀ y, db.Holds y ∨ y ∈ pinned → B y.data) (hpos : 0 < num) (hhead : db.head = some h)
    (hline : Lineage cr blocks (h.id cr)) (hknown : (∃ y ∈ db.index, y.num = num) → num ≤ h.num →
      ∃ c ∈ blocks, c.blockNum = num ∧ ∃ y ∈ db.index, y.id cr = cr.blockId c.toSignedBlockHeader)
    (hz : db.fetchBlockOnMainBranchByNumber pinned num = some z) : z.data ∈ blocks := by
  unfold fetchBlockOnMainBranchByNumber at hz
  rw [hhead] at hz
  dsimp only at hz
  split_ifs at hz with hhigh
  split at hz
  · cases hz
  · next w hw =>
    cases hz
    have hz' : z ∈ db.fetchBlockByNumber num := by rw [hw]; exact mem_singleton_self z
    obtain ⟨hmem, hnum⟩ := mem_filter.1 hz'
    obtain ⟨c, hc, hcnum, y, hy, hid⟩ := hknown ⟨z, hmem, of_decide_eq_true hnum⟩ (Nat.le_of_not_lt hhigh)
    have hy' : y ∈ db.fetchBlockByNumber num := by
      have hynum : y.num = num := (congrArg BlockId.num hid).trans hcnum
      exact mem_filter.2 ⟨hy, decide_eq_true hynum⟩
    have hyc : y.data = c := by
      refine hB _ _ (hheld y (.inl ?_)) (hblocks c hc) hid
      simp [Holds, hy]
    rw [hw] at hy'
    rw [← mem_singleton.1 hy', hyc]
    exact hc
  · have hh : B h.data := hheld h (.inl (by simp [Holds, hhead]))
    exact walkMainBranchToNum_mem hB hblocks hheld hh hpos (Nat.le_of_not_lt hhigh) hline hz

end Lineage

end ForkDatabase

end Xgt
