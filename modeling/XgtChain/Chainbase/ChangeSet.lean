import Mathlib.Logic.Function.Basic
import XgtChain.Chainbase.GenericIndex

/-!
# What an undo state says about a table

`Restores st now base`: the undo state `st` is the change set between the table `base` that a session
started from and the rows `now`.
-/

namespace Chainbase

open Base List Function FlatMap

variable {α : Type}

/-! ## Change sets -/

structure Entry (α : Type) where
  isNew : Bool
  old : Option α
  removed : Option α

namespace Entry

def onModify (e : Entry α) (v : α) : Entry α :=
  if e.isNew || e.old.isSome then e else { e with old := some v }

def onRemove (e : Entry α) (v : α) : Entry α :=
  if e.isNew then { e with isNew := false }
  else { e with removed := some (e.removed.getD (e.old.getD v)), old := none }

end Entry

inductive Change : Entry α → Option α → Option α → Prop where
  | nop (row : Option α) : Change ⟨false, none, none⟩ row row
  | new (v : α) : Change ⟨true, none, none⟩ none (some v)
  | upd (was v : α) : Change ⟨false, some was, none⟩ (some was) (some v)
  | del (was : α) : Change ⟨false, none, some was⟩ (some was) none

namespace Change

variable {e : Entry α} {base : Option α} {v : α}
variable {now : Option α}

theorem modify (h : Change e base (some v)) (w : α) : Change (e.onModify v) base (some w) := by
  cases h with
  | nop => exact .upd v w
  | new => exact .new w
  | upd was => exact .upd was w

theorem remove (h : Change e base (some v)) : Change (e.onRemove v) base none := by
  cases h with
  | nop => exact .del v
  | new => exact .nop none
  | upd was => exact .del was

theorem create (h : Change e none none) (v : α) : Change { e with isNew := true } none (some v) := by
  cases h
  exact .new v

section

variable (h : Change e base now)
include h

theorem of_nop (hnew : e.isNew = false)
    (hold : e.old = none) (hremoved : e.removed = none) : now = base := by
  cases h with
  | nop row => rfl
  | new v => cases hnew
  | upd was v => cases hold
  | del was => cases hremoved

theorem of_old (hold : e.old = some v) : base = some v ∧ ∃ w, now = some w := by
  cases h with
  | upd was w =>
    cases hold
    exact ⟨rfl, w, rfl⟩
  | _ => cases hold

theorem of_new (hnew : e.isNew = true) :
    base = none ∧ e.old = none ∧ e.removed = none ∧ ∃ w, now = some w := by
  cases h with
  | new w => exact ⟨rfl, rfl, rfl, w, rfl⟩
  | _ => cases hnew

theorem of_removed (hremoved : e.removed = some v) :
    base = some v ∧ e.isNew = false ∧ e.old = none ∧ now = none := by
  cases h with
  | del was =>
    cases hremoved
    exact ⟨rfl, rfl, rfl, rfl⟩
  | _ => cases hremoved

end

theorem of_some {w : α} (h : Change e (some v) (some w)) : v = w ∨ e.old = some v := by
  cases h with
  | nop => exact .inl rfl
  | upd => exact .inr rfl

theorem undone (h : Change e base now) :
    e.removed.or (if e.isNew = true then none else e.old.or now) = base := by
  cases h <;> rfl

theorem kept (h : Change e base now)
    (hrow : (if e.isNew = true then none else e.old.or now) = some v) : base = some v := by
  cases h with
  | nop => exact hrow
  | new => cases hrow
  | upd => exact hrow
  | del => cases hrow

theorem rewrite (h : Change e base (some v)) (hold : e.old.isSome) (w : α) : Change e base (some w) := by
  cases h with
  | nop | new => cases hold
  | upd was => exact .upd was w

end Change

namespace UndoState

variable (st : UndoState α) (id : Nat) (v : α) (i : Nat)

def entry : Entry α := ⟨decide (id ∈ st.newIds), st.oldValues.find? id, st.removedValues.find? id⟩

theorem entry_onModify :
    (st.onModify id v).entry i = if i = id then (st.entry id).onModify v else st.entry i := by
  unfold onModify Entry.onModify entry
  by_cases hnew : id ∈ st.newIds
  · by_cases hi : i = id <;> simp [hnew, hi]
  · cases hold : st.oldValues.find? id with
    | some w => by_cases hi : i = id <;> simp [hnew, hold, hi]
    | none => by_cases hi : i = id <;> simp [hnew, hold, hi, find?_emplace]

theorem entry_onCreate :
    (st.onCreate id).entry i = if i = id then { st.entry id with isNew := true } else st.entry i := by
  unfold onCreate entry
  by_cases hi : i = id <;> simp [hi]

theorem entry_onRemove :
    (st.onRemove id v).entry i = if i = id then (st.entry id).onRemove v else st.entry i := by
  unfold onRemove Entry.onRemove entry
  by_cases hnew : id ∈ st.newIds
  · by_cases hi : i = id <;> simp [hnew, hi]
  · cases hold : st.oldValues.find? id with
    | some w =>
      by_cases hi : i = id <;> simp [hnew, hi, find?_emplace, find?_erase]
    | none =>
      cases hrem : st.removedValues.find? id with
      | some w => by_cases hi : i = id <;> simp [hnew, hold, hrem, hi]
      | none => by_cases hi : i = id <;> simp [hnew, hold, hrem, hi, find?_emplace]

theorem onModify_frame :
    (st.onModify id v).oldNextId = st.oldNextId ∧ (st.onModify id v).revision = st.revision := by
  unfold onModify
  split_ifs <;> exact ⟨rfl, rfl⟩

theorem onRemove_frame :
    (st.onRemove id v).oldNextId = st.oldNextId ∧ (st.onRemove id v).revision = st.revision := by
  unfold onRemove
  split_ifs
  · exact ⟨rfl, rfl⟩
  · cases st.oldValues.find? id <;> exact ⟨rfl, rfl⟩
  · cases st.oldValues.find? id <;> exact ⟨rfl, rfl⟩

theorem squash_revision (prev : UndoState α) : (prev.squash st).revision = prev.revision := by
  have hfold {κ : Type} {f : UndoState α → κ → UndoState α} {l : List κ} {p : UndoState α}
      (hf : ∀ p k, (f p k).revision = p.revision) : (l.foldl f p).revision = p.revision := by
    induction l generalizing p with
    | nil => rfl
    | cons k l ih => exact ih.trans (hf p k)
  unfold squash
  rw [hfold, hfold, hfold]
  · exact fun p item => (p.onModify_frame item.1 item.2).2
  · exact fun p id => rfl
  · intro p item
    rw [squashRemoved_eq_onRemove]
    exact (p.onRemove_frame item.1 item.2).2

end UndoState

variable (t : Table α) (id : Nat)

def Table.find? : Option α := t.indices.find? id

theorem Table.find?_set (v : α) (n : Nat) :
    Table.find? ⟨t.indices.set id v, n⟩ = update t.find? id (some v) := by
  funext i
  rw [update_apply]
  exact FlatMap.find?_set t.indices id v i

theorem Table.find?_erase (id n : Nat) :
    Table.find? ⟨t.indices.erase id, n⟩ = update t.find? id none := by
  funext i
  rw [update_apply]
  exact FlatMap.find?_erase t.indices id i

theorem Table.ext_find? {t t' : Table α} (hrows : ∀ id, t.find? id = t'.find? id)
    (hnext : t.nextId = t'.nextId) : t = t' := by
  obtain ⟨rows, n⟩ := t
  obtain ⟨rows', n'⟩ := t'
  cases hnext
  cases FlatMap.ext_find? hrows
  rfl

structure Restores (st : UndoState α) (now : Nat → Option α) (base : Table α) : Prop where
  nextId : st.oldNextId = base.nextId
  change : ∀ id, Change (st.entry id) (base.find? id) (now id)
  fresh : ∀ id, (st.entry id).isNew = true → base.nextId ≤ id

namespace Restores

variable {st : UndoState α} {now : Nat → Option α} {base : Table α} {id} {v : α}

theorem start (base : Table α) (revision : Nat) :
    Restores ⟨.empty, .empty, .empty, base.nextId, revision⟩ base.find? base where
  nextId := rfl
  change id := .nop (base.find? id)
  fresh id hnew := by simp [UndoState.entry] at hnew

section

variable (h : Restores st now base)
include h

theorem update {st' : UndoState α} {e : Entry α} {row : Option α}
    (hentry : ∀ i, st'.entry i = if i = id then e else st.entry i)
    (hnext : st'.oldNextId = st.oldNextId) (hchange : Change e (base.find? id) row)
    (hfresh : e.isNew = true → base.nextId ≤ id) : Restores st' (update now id row) base where
  nextId := hnext.trans h.nextId
  change i := by
    rw [hentry i]
    by_cases hi : i = id
    · rw [hi, if_pos rfl, update_self]
      exact hchange
    · rw [if_neg hi, update_of_ne hi]
      exact h.change i
  fresh i hnew := by
    rw [hentry i] at hnew
    by_cases hi : i = id
    · rw [hi, if_pos rfl] at hnew
      exact hi ▸ hfresh hnew
    · rw [if_neg hi] at hnew
      exact h.fresh i hnew

theorem modify (hrow : now id = some v) (w : α) :
    Restores (st.onModify id v) (Function.update now id (some w)) base := by
  have hchange := h.change id
  rw [hrow] at hchange
  refine h.update (st.entry_onModify id v) (st.onModify_frame id v).1 (hchange.modify w) ?_
  intro hnew
  refine h.fresh id ?_
  unfold Entry.onModify at hnew
  split_ifs at hnew <;> exact hnew

theorem remove (hrow : now id = some v) : Restores (st.onRemove id v) (Function.update now id none) base := by
  have hchange := h.change id
  rw [hrow] at hchange
  refine h.update (st.entry_onRemove id v) (st.onRemove_frame id v).1 hchange.remove ?_
  intro hnew
  refine h.fresh id ?_
  unfold Entry.onRemove at hnew
  split_ifs at hnew
  exact hnew

theorem create (hid : base.nextId ≤ id) (hbase : base.find? id = none) (hrow : now id = none) (v : α) :
    Restores (st.onCreate id) (Function.update now id (some v)) base := by
  have hchange := h.change id
  rw [hrow, hbase] at hchange
  refine h.update (st.entry_onCreate id) rfl ?_ fun _ => hid
  rw [hbase]
  exact hchange.create v

theorem rewrite (hold : (st.entry id).old.isSome) (hrow : now id = some v)
    (w : α) : Restores st (Function.update now id (some w)) base := by
  have hchange := h.change id
  rw [hrow] at hchange
  refine h.update (e := st.entry id) (fun i => ?_) rfl (hchange.rewrite hold w) (h.fresh id)
  split_ifs with hi
  · rw [hi]
  · rfl

end

/-! ## Two change sets in a row -/

variable (ids : List Nat)

def advanced (mid now : Nat → Option α) (id : Nat) : Option α :=
  if id ∈ ids then now id else mid id

theorem advanced_nil (mid now : Nat → Option α) : advanced [] mid now = mid := by
  funext id
  exact if_neg not_mem_nil

theorem update_advanced (mid now : Nat → Option α) (id : Nat) :
    Function.update (advanced ids mid now) id (now id) = advanced (ids ++ [id]) mid now := by
  funext i
  by_cases hi : i = id
  · rw [hi, Function.update_self, advanced, if_pos (by simp)]
  · rw [Function.update_of_ne hi]
    exact if_congr (by simp [hi]) rfl rfl

theorem replay {κ : Type} (key : κ → Nat) {f : UndoState α → κ → UndoState α} {l : List κ}
    {ids : List Nat} {mid : Nat → Option α} (h : Restores st (advanced ids mid now) base)
    (hkeys : (l.map key).Nodup) (hids : ∀ k ∈ l, key k ∉ ids)
    (step : ∀ st rows k, k ∈ l → Restores st rows base → rows (key k) = mid (key k) →
      Restores (f st k) (Function.update rows (key k) (now (key k))) base) :
    Restores (l.foldl f st) (advanced (ids ++ l.map key) mid now) base := by
  induction l generalizing st ids with
  | nil => simpa using h
  | cons k l ih =>
    obtain ⟨hk, hl⟩ := nodup_cons.1 hkeys
    have hstep := step st _ k (.head _) h (if_neg (hids k (.head _)))
    rw [update_advanced] at hstep
    rw [map_cons, append_cons]
    refine ih hstep hl (fun k' hk' hmem => ?_) fun st rows k' hk' =>
      step st rows k' (.tail _ hk')
    rcases mem_append.1 hmem with hmem | hmem
    · exact hids k' (.tail _ hk') hmem
    · exact hk (mem_singleton.1 hmem ▸ mem_map_of_mem hk')

theorem squash {prev : UndoState α} {mid : Table α} (hprev : Restores prev mid.find? base)
    (h : Restores st now mid) (hle : base.nextId ≤ mid.nextId)
    (hbase : ∀ id, base.nextId ≤ id → base.find? id = none) : Restores (prev.squash st) now base := by
  have hold (item : Nat × α) (hitem : item ∈ st.oldValues.entries) :=
    (h.change item.1).of_old (find?_eq_some_iff.2 hitem)
  have hnew (id : Nat) (hid : id ∈ st.newIds.elems) := (h.change id).of_new (decide_eq_true hid)
  have hremoved (item : Nat × α) (hitem : item ∈ st.removedValues.entries) :=
    (h.change item.1).of_removed (find?_eq_some_iff.2 hitem)
  rw [← advanced_nil mid.find? now] at hprev
  have h1 := hprev.replay Prod.fst (f := fun p item => p.onModify item.1 item.2) st.oldValues.nodup_keys
    (by simp) fun p rows item hitem hp hrow => by
      obtain ⟨hmid, w, hw⟩ := hold item hitem
      rw [hw]
      exact hp.modify (hrow.trans hmid) w
  have h2 := h1.replay id (f := UndoState.onCreate) (l := st.newIds.elems)
    (by simpa using st.newIds.nodup_elems)
    (fun id hid => find?_eq_none_iff.1 (hnew id hid).2.1)
    fun p rows id hid hp hrow => by
      obtain ⟨hmid, -, -, w, hw⟩ := hnew id hid
      have hfresh := hle.trans (h.fresh id (decide_eq_true hid))
      rw [id_eq, hw]
      exact hp.create hfresh (hbase id hfresh) (hrow.trans hmid) w
  have h3 := h2.replay Prod.fst (f := fun p item => p.squashRemoved item.1 item.2) st.removedValues.nodup_keys
    (fun item hitem hmem => by
      obtain ⟨-, hnotNew, hnotOld, -⟩ := hremoved item hitem
      rcases mem_append.1 hmem with hmem | hmem
      · exact find?_eq_none_iff.1 hnotOld hmem
      · rw [map_id] at hmem
        exact of_decide_eq_false hnotNew hmem)
    fun p rows item hitem hp hrow => by
      obtain ⟨hmid, -, -, hw⟩ := hremoved item hitem
      rw [hw, UndoState.squashRemoved_eq_onRemove]
      exact hp.remove (hrow.trans hmid)
  -- An id that no loop handles is a nop.
  have hdone : advanced ([] ++ st.oldValues.entries.map Prod.fst ++ st.newIds.elems.map id ++
      st.removedValues.entries.map Prod.fst) mid.find? now = now := by
    funext id
    unfold advanced
    split_ifs with hmem
    · rfl
    · rw [mem_append, mem_append, not_or, not_or, map_id] at hmem
      obtain ⟨⟨hnotOld, hnotNew⟩, hnotRemoved⟩ := hmem
      exact ((h.change id).of_nop (decide_eq_false hnotNew) (find?_eq_none_iff.2 hnotOld)
        (find?_eq_none_iff.2 hnotRemoved)).symm
  rw [hdone] at h3
  exact h3

end Restores

end Chainbase
