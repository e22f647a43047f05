import XgtChain.Chain.OperationRuns

/-!
# The comment tree

A reply names its parent by author and permlink.
-/

namespace Xgt

open Base ObjectIndex List

/-! ## The tree -/

def CommentObject.parent? (c : CommentObject) (t : ObjectIndex CommentObject) : Option (Nat × CommentObject) :=
  if c.parentAuthor = "" then none
  else t.find? fun x => x.author = c.parentAuthor && cStr x.permlink = cStr c.parentPermlink

open CommentObject

namespace CommentTree

variable {t t' : ObjectIndex CommentObject} {c : CommentObject} {r : Nat × CommentObject} {i : Nat}
  {ids : List Nat} {p : Nat × CommentObject}

def ancestors (t : ObjectIndex CommentObject) : Nat → CommentObject → List Nat
  | 0, _ => []
  | fuel + 1, c =>
    match c.parent? t with
    | none => []
    | some p => p.1 :: ancestors t fuel p.2

def above (t : ObjectIndex CommentObject) (c : CommentObject) : List Nat := ancestors t t.rows.length c

def descendants (t : ObjectIndex CommentObject) (i : Nat) : Nat := t.rows.countP fun r => i ∈ above t r.2

inductive Climbs (t : ObjectIndex CommentObject) : CommentObject → List Nat → Prop where
  | root {c : CommentObject} (h : c.parentAuthor = "") : Climbs t c []
  | reply {c : CommentObject} {p : Nat × CommentObject} {ids : List Nat} (h : c.parent? t = some p)
      (hp : Climbs t p.2 ids) : Climbs t c (p.1 :: ids)

theorem parent?_root (h : c.parentAuthor = "") : c.parent? t = none := if_pos h

theorem Climbs.unique {ids' : List Nat} (h : Climbs t c ids) (h' : Climbs t c ids') : ids = ids' := by
  induction h generalizing ids' with
  | root hroot =>
    cases h' with
    | root => rfl
    | reply hp => rw [parent?_root hroot] at hp; cases hp
  | reply hp _ ih =>
    cases h' with
    | root hroot => rw [parent?_root hroot] at hp; cases hp
    | reply hp' hrest' =>
      cases hp.symm.trans hp'
      rw [ih hrest']

theorem Climbs.ancestors_eq {fuel : Nat} (h : Climbs t c ids) (hfuel : ids.length ≤ fuel) :
    ancestors t fuel c = ids := by
  induction h generalizing fuel with
  | root hroot =>
    cases fuel with
    | zero => rfl
    | succ fuel => rw [ancestors, parent?_root hroot]
  | reply hp _ ih =>
    cases fuel with
    | zero => cases hfuel
    | succ fuel =>
      rw [ancestors, hp, ← ih (Nat.le_of_succ_le_succ hfuel)]

inductive Linked (t : ObjectIndex CommentObject) (r : Nat × CommentObject) : Prop where
  | root (hroot : r.2.parentAuthor = "") (hdepth : r.2.depth = 0) (hid : r.2.rootComment = r.1)
  | reply {p : Nat × CommentObject} (hp : r.2.parent? t = some p) (hlt : p.1 < r.1)
      (hdepth : r.2.depth = p.2.depth + 1) (hmax : r.2.depth < 2 ^ 16)
      (hroot : r.2.rootComment = p.2.rootComment)

structure Forest (t : ObjectIndex CommentObject) : Prop where
  unique : t.Unique
  linked : ∀ r ∈ t.rows, Linked t r

theorem parent?_mem (h : c.parent? t = some p) : p ∈ t.rows := by
  unfold parent? at h
  split_ifs at h
  exact (of_find? h).1

section

variable (h : Forest t) (hr : r ∈ t.rows)
include h hr

theorem Forest.climbs :
    ∃ ids, Climbs t r.2 ids ∧ (r.1 :: ids).Pairwise (· > ·) ∧ ids.length = r.2.depth ∧
      r.2.rootComment = (r.1 :: ids).getLast (cons_ne_nil _ _) ∧ ∀ j ∈ ids, ∃ a, (j, a) ∈ t.rows := by
  -- the parent of a comment has a smaller id
  induction hn : r.1 using Nat.strong_induction_on generalizing r with
  | _ n ih =>
    subst hn
    cases h.linked r hr with
    | root hroot hdepth hid => exact ⟨[], .root hroot, pairwise_singleton _ _, hdepth.symm, hid, by simp⟩
    | @reply p hp hlt hdepth hmax hroot =>
      obtain ⟨ids, hclimbs, hfalls, hlength, hlast, hmem⟩ := ih p.1 hlt (parent?_mem hp) rfl
      refine ⟨p.1 :: ids, .reply hp hclimbs, ?_, by rw [length_cons, hlength, hdepth], ?_, ?_⟩
      · refine pairwise_cons.2 ⟨fun j hj => ?_, hfalls⟩
        rcases mem_cons.1 hj with rfl | hj
        · exact hlt
        · exact ((pairwise_cons.1 hfalls).1 j hj).trans hlt
      · rw [hroot, hlast, getLast_cons_cons]
      · intro j hj
        rcases mem_cons.1 hj with rfl | hj
        · exact ⟨p.2, parent?_mem hp⟩
        · exact hmem j hj

theorem Forest.length_lt (hclimbs : Climbs t r.2 ids) : ids.length < t.rows.length := by
  obtain ⟨ids', hclimbs', hfalls, -, -, hmem⟩ := h.climbs hr
  rw [hclimbs.unique hclimbs']
  have hnodup : (r.1 :: ids').Nodup := hfalls.imp fun hgt => Nat.ne_of_gt hgt
  have hsub : r.1 :: ids' ⊆ t.rows.map Prod.fst := by
    intro j hj
    rcases mem_cons.1 hj with rfl | hj
    · exact mem_map.2 ⟨r, hr, rfl⟩
    · obtain ⟨a, ha⟩ := hmem j hj
      exact mem_map.2 ⟨_, ha, rfl⟩
  have hle := (subperm_of_subset hnodup hsub).length_le
  rwa [length_cons, length_map, Nat.succ_le_iff] at hle

theorem Forest.climbs_above : Climbs t r.2 (above t r.2) := by
  obtain ⟨ids, hclimbs, -⟩ := h.climbs hr
  rwa [above, hclimbs.ancestors_eq (h.length_lt hr hclimbs).le]

theorem Forest.above_eq (hclimbs : Climbs t r.2 ids) :
    above t r.2 = ids := (h.climbs_above hr).unique hclimbs

theorem Forest.mem_above (hi : i ∈ above t r.2) : i < r.1 ∧ ∃ a, (i, a) ∈ t.rows := by
  obtain ⟨ids, hclimbs, hfalls, -, -, hmem⟩ := h.climbs hr
  rw [h.above_eq hr hclimbs] at hi
  exact ⟨(pairwise_cons.1 hfalls).1 i hi, hmem i hi⟩

end

/-- Each reply is one below its parent, and its root is the top of its thread. -/
def Threaded (t : ObjectIndex CommentObject) : Prop :=
  ∀ r ∈ t.rows, r.2.parentAuthor ≠ "" → ∃ p ids, r.2.parent? t = some p ∧ r.2.depth = p.2.depth + 1 ∧
    r.2.depth < 2 ^ 16 ∧ Climbs t p.2 ids ∧
    r.2.rootComment = (p.1 :: ids).getLast (cons_ne_nil _ _)

theorem Forest.threaded (h : Forest t) : Threaded t := by
  intro r hr hreply
  cases h.linked r hr with
  | root hroot => exact absurd hroot hreply
  | @reply p hp hlt hdepth hmax hroot =>
    obtain ⟨ids, hclimbs, -, -, hlast, -⟩ := h.climbs (parent?_mem hp)
    exact ⟨p, ids, hp, hdepth, hmax, hclimbs, hroot.trans hlast⟩

theorem parent?_eq_some_iff (h : t.Unique) :
    c.parent? t = some p ↔ c.parentAuthor ≠ "" ∧ p ∈ t.rows ∧ p.2.author = c.parentAuthor ∧
      cStr p.2.permlink = cStr c.parentPermlink := by
  unfold parent?
  split_ifs with hroot
  · simp [hroot]
  · rw [h.find?_iff]
    · simp [hroot]
    · intro a b ha hb
      simp only [Bool.and_eq_true, decide_eq_true_eq] at ha hb
      simp [Keyed.clash, ha.1, ha.2, hb.1, hb.2]

structure SameLinks (a b : CommentObject) : Prop where
  author : a.author = b.author := by rfl
  permlink : a.permlink = b.permlink := by rfl
  parentAuthor : a.parentAuthor = b.parentAuthor := by rfl
  parentPermlink : a.parentPermlink = b.parentPermlink := by rfl
  depth : a.depth = b.depth := by rfl
  rootComment : a.rootComment = b.rootComment := by rfl

theorem SameLinks.trans {a b c : CommentObject} (h : SameLinks a b) (h' : SameLinks b c) : SameLinks a c :=
  ⟨h.author.trans h'.author, h.permlink.trans h'.permlink, h.parentAuthor.trans h'.parentAuthor,
    h.parentPermlink.trans h'.parentPermlink, h.depth.trans h'.depth, h.rootComment.trans h'.rootComment⟩

section MapRows

variable {g : Nat → CommentObject → CommentObject} (hg : ∀ i c, SameLinks (g i c) c)

include hg

variable {c' : CommentObject}

theorem parent?_mapRows (hc : SameLinks c' c) :
    c'.parent? (t.mapRows g) = (c.parent? t).map fun p => (p.1, g p.1 p.2) := by
  unfold parent?
  rw [hc.parentAuthor, hc.parentPermlink]
  split_ifs
  · rfl
  · exact find?_mapRows fun i a => by rw [(hg i a).author, (hg i a).permlink]

theorem Climbs.mapRows (h : Climbs t c ids) (hc : SameLinks c' c) : Climbs (t.mapRows g) c' ids := by
  induction h generalizing c' with
  | root hroot => exact .root (hc.parentAuthor.trans hroot)
  | @reply c p ids hp _ ih =>
    have hparent : c'.parent? (t.mapRows g) = some (p.1, g p.1 p.2) := by
      rw [parent?_mapRows hg hc, hp]
      rfl
    exact .reply (p := (p.1, g p.1 p.2)) hparent (ih (hg p.1 p.2))

theorem Forest.mapRows (h : Forest t) : Forest (t.mapRows g) := by
  constructor
  · intro r hr r' hr' hclash
    obtain ⟨a, ha, hra⟩ := mem_mapRows.1 hr
    obtain ⟨a', ha', hra'⟩ := mem_mapRows.1 hr'
    have hsame : Keyed.clash a a' = true := by
      simpa only [Keyed.clash, ← hra, ← hra', (hg _ _).author, (hg _ _).permlink] using hclash
    obtain ⟨hid, rfl⟩ := Prod.mk.inj (h.unique _ ha _ ha' hsame)
    exact Prod.ext hid (by rw [← hra, ← hra', hid])
  · intro r hr
    obtain ⟨a, ha, hra⟩ := mem_mapRows.1 hr
    have hsame : SameLinks r.2 a := hra ▸ hg r.1 a
    cases h.linked _ ha with
    | root hroot hdepth hid =>
      exact .root (hsame.parentAuthor.trans hroot) (hsame.depth.trans hdepth) (hsame.rootComment.trans hid)
    | @reply p hp hlt hdepth hmax hroot =>
      refine .reply (p := (p.1, g p.1 p.2)) ?_ hlt ?_ (hsame.depth.trans_lt hmax) ?_
      · rw [parent?_mapRows hg hsame, hp]
        rfl
      · rw [hsame.depth, (hg p.1 p.2).depth, hdepth]
      · rw [hsame.rootComment, (hg p.1 p.2).rootComment, hroot]

theorem Forest.above_mapRows (h : Forest t) {j : Nat} (hr : (j, c) ∈ t.rows) :
    above (t.mapRows g) (g j c) = above t c :=
  (h.mapRows hg).above_eq (mem_mapRows_of_mem hr) ((h.climbs_above hr).mapRows hg (hg j c))

theorem Forest.descendants_mapRows (h : Forest t) : descendants (t.mapRows g) i = descendants t i := by
  unfold descendants
  change (t.rows.map _).countP _ = _
  rw [countP_map]
  refine countP_congr fun r hr => ?_
  simp [h.above_mapRows hg (j := r.1) (c := r.2) hr]

end MapRows

section Append

variable {new : CommentObject}

theorem parent?_append {p : Nat × CommentObject} (h : c.parent? t = some p) :
    c.parent? (t.append new) = some p := by
  unfold parent? at h ⊢
  split_ifs at h ⊢
  unfold ObjectIndex.find? at h
  simp [ObjectIndex.find?, ObjectIndex.append, find?_append, h]

theorem Climbs.append (h : Climbs t c ids) : Climbs (t.append new) c ids := by
  induction h with
  | root hroot => exact .root hroot
  | reply hp _ ih => exact .reply (parent?_append hp) ih

theorem Forest.append (h : Forest t) (hunique : (t.append new).Unique)
    (hnew : Linked (t.append new) (t.nextId, new)) : Forest (t.append new) := by
  refine ⟨hunique, fun r hr => ?_⟩
  rcases mem_append.1 hr with hr | hr
  · cases h.linked r hr with
    | root hroot hdepth hid => exact .root hroot hdepth hid
    | reply hp hlt hdepth hmax hroot => exact .reply (parent?_append hp) hlt hdepth hmax hroot
  · rwa [mem_singleton.1 hr]

variable (h : Forest t) (h' : Forest (t.append new))
include h h'

theorem Forest.above_append (hr : r ∈ t.rows) : above (t.append new) r.2 = above t r.2 :=
  h'.above_eq (mem_append_left _ hr) (h.climbs_above hr).append

theorem Forest.descendants_append :
    descendants (t.append new) i =
      descendants t i + if i ∈ above (t.append new) new then 1 else 0 := by
  unfold descendants
  change (t.rows ++ [(t.nextId, new)]).countP _ = _
  rw [countP_append]
  congr 1
  · refine countP_congr fun r hr => ?_
    rw [h.above_append h' hr]
  · by_cases hi : i ∈ above (t.append new) new <;> simp [hi]

theorem Forest.descendants_new : descendants (t.append new) t.nextId = 0 := by
  refine countP_eq_zero.2 fun r hr => ?_
  rw [decide_eq_true_eq]
  intro hi
  rcases mem_append.1 hr with hold | hnew
  · rw [h.above_append h' hold] at hi
    obtain ⟨hlt, -⟩ := h.mem_above hold hi
    exact absurd (t.fresh r hold) (Nat.not_lt.2 hlt.le)
  · have hlt := (h'.mem_above hr hi).1
    rw [mem_singleton.1 hnew] at hlt
    exact lt_irrefl _ hlt

end Append

section Remove

variable {k : Nat} {p : Nat × CommentObject}

def Unanswered (t : ObjectIndex CommentObject) (k : Nat) : Prop := ∀ r ∈ t.rows, k ∉ above t r.2

theorem unanswered_iff : Unanswered t k ↔ descendants t k = 0 := by
  simp [Unanswered, descendants, countP_eq_zero]

theorem Unique.remove (h : t.Unique) : (t.remove k).Unique :=
  fun r hr r' hr' => h r (mem_of_mem_filter hr) r' (mem_of_mem_filter hr')

theorem mem_remove : r ∈ (t.remove k).rows ↔ r ∈ t.rows ∧ r.1 ≠ k := by
  simp [ObjectIndex.remove]

theorem parent?_remove (h : t.Unique) (hp : c.parent? t = some p)
    (hk : p.1 ≠ k) : c.parent? (t.remove k) = some p := by
  rw [parent?_eq_some_iff h] at hp
  rw [parent?_eq_some_iff (Unique.remove h)]
  exact ⟨hp.1, mem_remove.2 ⟨hp.2.1, hk⟩, hp.2.2⟩

theorem Climbs.remove (h : Climbs t c ids) (hunique : t.Unique) (hk : k ∉ ids) :
    Climbs (t.remove k) c ids := by
  induction h with
  | root hroot => exact .root hroot
  | reply hp _ ih =>
    rw [mem_cons, not_or] at hk
    exact .reply (parent?_remove hunique hp (Ne.symm hk.1)) (ih hk.2)

variable (h : Forest t)
include h

theorem Forest.parent_mem_above (hr : r ∈ t.rows)
    (hp : r.2.parent? t = some p) : above t r.2 = p.1 :: above t p.2 :=
  h.above_eq hr (.reply hp (h.climbs_above (parent?_mem hp)))

theorem Forest.mem_above_of_parent (hr : r ∈ t.rows)
    (hi : i ∈ (r.2.parent? t).toList.map Prod.fst) : i ∈ above t r.2 := by
  obtain ⟨p, hp, rfl⟩ := mem_map.1 hi
  rw [h.parent_mem_above hr (Option.mem_toList.1 hp)]
  exact .head _

theorem Forest.above_of_mem (hr : r ∈ t.rows) (hi : i ∈ above t r.2) :
    ∃ p, r.2.parent? t = some p ∧ above t r.2 = p.1 :: above t p.2 := by
  cases h.linked r hr with
  | root hroot =>
    rw [h.above_eq hr (.root hroot)] at hi
    cases hi
  | @reply p hp => exact ⟨p, hp, h.parent_mem_above hr hp⟩

theorem Forest.unanswered (hk : ∀ r ∈ t.rows, ∀ p, r.2.parent? t = some p → p.1 ≠ k) :
    Unanswered t k := by
  intro r hr
  have hclimbs := h.climbs_above hr
  generalize above t r.2 = ids at hclimbs
  induction ids generalizing r with
  | nil => exact not_mem_nil
  | cons j ids ih =>
    cases hclimbs with
    | @reply _ p _ hp hrest =>
      rw [mem_cons, not_or]
      exact ⟨(hk r hr p hp).symm, ih p (parent?_mem hp) hrest⟩

variable (hk : Unanswered t k)
include hk

theorem Forest.remove : Forest (t.remove k) := by
  refine ⟨Unique.remove h.unique, fun r hr => ?_⟩
  have hold := (mem_remove.1 hr).1
  cases h.linked r hold with
  | root hroot hdepth hid => exact .root hroot hdepth hid
  | reply hp hlt hdepth hmax hroot =>
    refine .reply (parent?_remove h.unique hp fun heq => ?_) hlt hdepth hmax hroot
    refine hk r hold ?_
    rw [h.parent_mem_above hold hp, heq]
    exact .head _

theorem Forest.above_remove (hr : r ∈ (t.remove k).rows) : above (t.remove k) r.2 = above t r.2 := by
  have hold := (mem_remove.1 hr).1
  exact (h.remove hk).above_eq hr ((h.climbs_above hold).remove h.unique (hk r hold))

theorem Forest.descendants_remove (hrow : (k, c) ∈ t.rows) :
    descendants t i = descendants (t.remove k) i + if i ∈ above t c then 1 else 0 := by
  obtain ⟨before, after, hsplit, hbefore, hafter⟩ := rows_split hrow
  have hrows := rows_remove hsplit hbefore hafter
  have hcount : descendants (t.remove k) i = (before ++ after).countP fun r => i ∈ above t r.2 := by
    unfold descendants
    rw [hrows]
    refine countP_congr fun r hr => ?_
    rw [h.above_remove hk (hrows ▸ hr)]
  rw [hcount]
  unfold descendants
  rw [hsplit, countP_append, countP_cons, countP_append]
  simp only [decide_eq_true_eq]
  omega

end Remove

end CommentTree

end Xgt
