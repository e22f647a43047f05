import Mathlib.Algebra.Ring.Nat
import Mathlib.Logic.Function.Basic
import Mathlib.Data.List.FinRange
import Mathlib.Data.Fintype.Basic
import XgtChain.Base.Ordered

/-!
# MIRA: column families and ordered indexes

A `multi_index_container` over RocksDB keeps one column family per ordered index.
-/

open Base (FlatMap)

namespace Mira

open Function

open List

structure Schema where
  Value : Type
  more : Nat
  Key : Fin (more + 1) → Type
  order : (i : Fin (more + 1)) → LinearOrder (Key i)
  key : (i : Fin (more + 1)) → Value → Key i

abbrev Schema.Index (S : Schema) : Type := Fin (S.more + 1)

instance Schema.instOfNat (S : Schema) : OfNat S.Index 0 := ⟨⟨0, Nat.succ_pos _⟩⟩

instance Schema.instLinearOrder (S : Schema) (i : S.Index) : LinearOrder (S.Key i) := S.order i

variable {S : Schema}

inductive Entry (S : Schema) where
  | object (v : S.Value)
  | id (k : S.Key 0)

def Schema.entry (S : Schema) (i : S.Index) (v : S.Value) : Entry S :=
  if i = 0 then .object v else .id (S.key 0 v)

@[simp] theorem entry_zero (v : S.Value) : S.entry 0 v = .object v := rfl

theorem entry_of_ne {i : S.Index} (h : i ≠ 0) (v : S.Value) : S.entry i v = .id (S.key 0 v) := if_neg h

inductive ColumnWrite (κ ν : Type) where
  | put (k : κ) (v : ν)
  | delete (k : κ)

def ColumnWrite.apply {κ ν : Type} [LinearOrder κ] (column : FlatMap κ ν) : ColumnWrite κ ν → FlatMap κ ν
  | .put k v => column.set k v
  | .delete k => column.erase k

abbrev Columns (S : Schema) : Type := (i : S.Index) → FlatMap (S.Key i) (Entry S)

abbrev Batch (S : Schema) : Type := List (Σ i : S.Index, ColumnWrite (S.Key i) (Entry S))

def Columns.write (columns : Columns S) (batch : Batch S) : Columns S :=
  batch.foldl (fun columns w => update columns w.1 (w.2.apply (columns w.1))) columns

theorem Columns.write_append (columns : Columns S) (b b' : Batch S) :
    columns.write (b ++ b') = (columns.write b).write b' := foldl_append

theorem Columns.write_map_mk (columns : Columns S) (i : S.Index)
    (writes : List (ColumnWrite (S.Key i) (Entry S))) :
    columns.write (writes.map (Sigma.mk i)) =
      update columns i (writes.foldl ColumnWrite.apply (columns i)) := by
  induction writes generalizing columns with
  | nil => exact (update_eq_self i columns).symm
  | cons w writes ih =>
    have hfirst := ih (update columns i (w.apply (columns i)))
    rw [update_self, update_idem] at hfirst
    exact hfirst

theorem Columns.write_flatMap (columns : Columns S) {l : List S.Index} (hl : l.Nodup)
    (writes : (i : S.Index) → List (ColumnWrite (S.Key i) (Entry S))) (j : S.Index) :
    columns.write (l.flatMap fun i => (writes i).map (Sigma.mk i)) j =
      if j ∈ l then (writes j).foldl ColumnWrite.apply (columns j) else columns j := by
  induction l generalizing columns with
  | nil => rfl
  | cons i l ih =>
    obtain ⟨hi, hl⟩ := nodup_cons.1 hl
    rw [flatMap_cons, write_append, write_map_mk, ih _ hl]
    by_cases hij : j = i
    · subst hij
      rw [if_neg hi, if_pos (.head _), update_self]
    · rw [update_of_ne hij]
      exact if_congr (by simp [hij]) rfl rfl

@[ext] structure Store (S : Schema) where
  columns : Columns S
  entryCount : Nat
  firstKey : (i : S.Index) → Option (S.Key i)
  firstKeyUpdate : (i : S.Index) → Option (S.Key i)
  deleteFirstKey : S.Index → Bool
  writeBuffer : Batch S
  bulkLoad : Bool
  batchCount : Nat

namespace Store

def empty (S : Schema) : Store S where
  columns _ := FlatMap.empty
  entryCount := 0
  firstKey _ := none
  firstKeyUpdate _ := none
  deleteFirstKey _ := false
  writeBuffer := []
  bulkLoad := false
  batchCount := 0

variable (s : Store S)

def draft (i : S.Index) (writes : List (ColumnWrite (S.Key i) (Entry S)))
    (update : Option (S.Key i)) (delete : Bool) : Store S :=
  { s with
    writeBuffer := s.writeBuffer ++ writes.map (Sigma.mk i)
    firstKeyUpdate := update.elim s.firstKeyUpdate fun k => Function.update s.firstKeyUpdate i (some k)
    deleteFirstKey := if delete then Function.update s.deleteFirstKey i true else s.deleteFirstKey }

def commitFirstKeyUpdate : Store S :=
  { s with
    firstKey := fun i => (s.firstKeyUpdate i).or (if s.deleteFirstKey i then none else s.firstKey i)
    firstKeyUpdate := fun _ => none
    -- the flag is cleared only where there is no update
    deleteFirstKey := fun i => (s.firstKeyUpdate i).isSome && s.deleteFirstKey i }

def resetFirstKeyUpdate : Store S :=
  { s with firstKeyUpdate := fun _ => none, deleteFirstKey := fun _ => false }

def publish (count : Nat) : Store S :=
  { ({ s with columns := s.columns.write s.writeBuffer, entryCount := count }).commitFirstKeyUpdate with
    writeBuffer := [] }

def discard : Store S := { s.resetFirstKeyUpdate with writeBuffer := [] }

end Store

def insertUpdate {κ : Type} [LinearOrder κ] (first : Option κ) (new : κ) : Option κ :=
  match first with
  | some f => if new < f then some new else none
  | none => some new

def eraseUpdate {κ : Type} [LinearOrder κ] (first : Option κ) (old : κ) (second : Option κ) : Option κ :=
  if first = some old then second else none

def eraseDeletes {κ : Type} [LinearOrder κ] (first : Option κ) (old : κ) (second : Option κ) : Bool :=
  first = some old && second.isNone

def modifyUpdate {κ : Type} [LinearOrder κ] (first : Option κ) (old new : κ) (second : Option κ) : Option κ :=
  match first with
  | none => none
  | some f =>
    if new < f then some new
    else if f < new ∧ old = f then
      match second with
      | some k => if k < new then some k else some new
      | none => some new
    else none

def chainM {m : Type → Type} [Monad m] {ι σ : Type} (step : ι → σ → m (σ × Bool)) : List ι → σ → m (σ × Bool)
  | [], s => pure (s, true)
  | i :: l, s => do
    let (s, status) ← step i s
    if status then chainM step l s else pure (s, false)

namespace Store

variable {s : Store S} {v : S.Value} {l : List S.Index} {i : S.Index}

def insertAt (v : S.Value) (i : S.Index) (s : Store S) : Store S × Bool :=
  let new := S.key i v
  if ((s.columns i).find? new).isSome then (s, false)
  else (s.draft i [.put new (S.entry i v)] (insertUpdate (s.firstKey i) new) false, true)

def eraseAt (v : S.Value) (i : S.Index) (second : Option (S.Key i)) (s : Store S) : Store S :=
  let old := S.key i v
  s.draft i [.delete old] (eraseUpdate (s.firstKey i) old second) (eraseDeletes (s.firstKey i) old second)

def Refuses (s : Store S) (v v' : S.Value) (i : S.Index) : Prop :=
  S.key i v' ≠ S.key i v ∧ (i = 0 ∨ ((s.columns i).find? (S.key i v')).isSome)

instance (s : Store S) (v v' : S.Value) (i : S.Index) : Decidable (s.Refuses v v' i) :=
  inferInstanceAs (Decidable (_ ∧ _))

def modifyAt (v v' : S.Value) (i : S.Index) (second : Option (S.Key i)) (s : Store S) : Store S × Bool :=
  let old := S.key i v
  let new := S.key i v'
  let update := modifyUpdate (s.firstKey i) old new second
  if s.Refuses v v' i then (s, false)
  else if i = 0 then (s.draft i [.put new (S.entry i v')] update false, true)
  else if new ≠ old then (s.draft i [.delete old, .put new (S.entry i v')] update false, true)
  else (s, true)

def insertRocksdb (v : S.Value) (s : Store S) : Store S × Bool :=
  chainM (m := Id) (insertAt v) (List.finRange _) s

def flushBulkLoad (s : Store S) : Store S :=
  { s with columns := s.columns.write s.writeBuffer, writeBuffer := [], batchCount := 0 }

def beginBulkLoad (s : Store S) : Store S := { s with bulkLoad := true }

def endBulkLoad (s : Store S) : Store S := { s.flushBulkLoad with bulkLoad := false }

def insert_ (s : Store S) (v : S.Value) : Store S × Bool :=
  let (s, status) := s.insertRocksdb v
  if s.bulkLoad then
    let s := ({ s with entryCount := s.entryCount + 1 }).commitFirstKeyUpdate
    (if 1000 < s.batchCount then s.flushBulkLoad else s, status)
  else if status then (s.publish (s.entryCount + 1), true)
  else (s.discard, false)

structure Ready (s : Store S) : Prop where
  update : s.firstKeyUpdate = fun _ => none
  delete : s.deleteFirstKey = fun _ => false
  buffer : s.writeBuffer = []
  bulk : s.bulkLoad = false
  batch : s.batchCount = 0

structure Drafted (s s' : Store S) : Prop where
  columns : s'.columns = s.columns
  entryCount : s'.entryCount = s.entryCount
  firstKey : s'.firstKey = s.firstKey
  bulk : s'.bulkLoad = s.bulkLoad
  batch : s'.batchCount = s.batchCount

theorem Drafted.refl (s : Store S) : Drafted s s := ⟨rfl, rfl, rfl, rfl, rfl⟩

theorem drafted_draft (s : Store S) (i : S.Index) (writes : List (ColumnWrite (S.Key i) (Entry S)))
    (update : Option (S.Key i)) (delete : Bool) : Drafted s (s.draft i writes update delete) :=
  ⟨rfl, rfl, rfl, rfl, rfl⟩

theorem Drafted.trans {s' s'' : Store S} (h : Drafted s s') (h' : Drafted s' s'') : Drafted s s'' :=
  ⟨h'.columns.trans h.columns, h'.entryCount.trans h.entryCount, h'.firstKey.trans h.firstKey,
    h'.bulk.trans h.bulk, h'.batch.trans h.batch⟩

section

variable (writes : (i : S.Index) → List (ColumnWrite (S.Key i) (Entry S)))
  (update : (i : S.Index) → Option (S.Key i)) (delete : S.Index → Bool)

theorem foldl_draft (s : Store S) (l : List S.Index) :
    l.foldl (fun s i => s.draft i (writes i) (update i) (delete i)) s =
      { s with
        writeBuffer := s.writeBuffer ++ l.flatMap fun i => (writes i).map (Sigma.mk i)
        firstKeyUpdate := fun j => if j ∈ l then (update j).or (s.firstKeyUpdate j) else s.firstKeyUpdate j
        deleteFirstKey := fun j => decide (j ∈ l) && delete j || s.deleteFirstKey j } := by
  induction l generalizing s with
  | nil => simp
  | cons i l ih =>
    rw [foldl_cons, ih]
    simp only [draft, flatMap_cons, append_assoc, Store.mk.injEq, true_and, and_true]
    constructor
    · funext j
      by_cases hij : j = i
      · subst hij
        cases hu : update j with
        | none => simp
        | some k => simp
      · cases update i with
        | none | some k => simp [hij]
    · funext j
      by_cases hij : j = i
      · subst hij
        cases hd : delete j <;> simp
      · cases delete i <;> simp [hij]

theorem Ready.publish_draft (h : s.Ready) (count : Nat) (hdelete : ∀ i, delete i = true → update i = none) :
    ((List.finRange _).foldl (fun s i => s.draft i (writes i) (update i) (delete i)) s).publish count =
      { s with
        columns := fun i => (writes i).foldl ColumnWrite.apply (s.columns i)
        entryCount := count
        firstKey := fun i => (update i).or (if delete i then none else s.firstKey i) } := by
  have hcleared (i : S.Index) : ((update i).isSome && delete i) = false := by
    cases hd : delete i with
    | false => exact Bool.and_false _
    | true => rw [hdelete i hd]; rfl
  rw [foldl_draft]
  cases s with
  | mk columns entryCount firstKey firstKeyUpdate deleteFirstKey writeBuffer bulkLoad batchCount =>
  obtain ⟨rfl, rfl, rfl, rfl, rfl⟩ := h
  simp only [publish, commitFirstKeyUpdate, nil_append, mem_finRange, if_true, decide_true,
    Bool.true_and, Bool.or_false, Option.or_none, hcleared, Store.mk.injEq, and_true]
  funext j
  rw [Columns.write_flatMap _ (nodup_finRange _), if_pos (mem_finRange j)]

theorem drafted_foldl (s : Store S) (l : List S.Index) :
    Drafted s (l.foldl (fun s i => s.draft i (writes i) (update i) (delete i)) s) := by
  rw [foldl_draft]
  exact ⟨rfl, rfl, rfl, rfl, rfl⟩

end

theorem Ready.discard_eq {s' : Store S} (h : s.Ready) (hd : Drafted s s') : s'.discard = s :=
  Store.ext hd.columns hd.entryCount hd.firstKey h.update.symm h.delete.symm h.buffer.symm hd.bulk hd.batch

def Free (columns : Columns S) (v : S.Value) : Prop := ∀ i, (columns i).find? (S.key i v) = none

instance (columns : Columns S) (v : S.Value) : Decidable (Free columns v) :=
  inferInstanceAs (Decidable (∀ i, (columns i).find? (S.key i v) = none))

def insertDraft (first : (i : S.Index) → Option (S.Key i)) (v : S.Value) (s : Store S)
    (i : S.Index) : Store S :=
  s.draft i [.put (S.key i v) (S.entry i v)] (insertUpdate (first i) (S.key i v)) false

theorem insertAt_of_free (h : (s.columns i).find? (S.key i v) = none) :
    s.insertAt v i = (insertDraft s.firstKey v s i, true) := by
  simp [insertAt, h, insertDraft]

theorem insertAt_of_taken (h : (s.columns i).find? (S.key i v) ≠ none) : s.insertAt v i = (s, false) := by
  simp [insertAt, Option.isSome_iff_ne_none, h]

theorem chainM_insertAt_of_free (h : ∀ i ∈ l, (s.columns i).find? (S.key i v) = none) :
    chainM (m := Id) (insertAt v) l s = (l.foldl (insertDraft s.firstKey v) s, true) := by
  induction l generalizing s with
  | nil => rfl
  | cons i l ih =>
    have hi := insertAt_of_free (h i (.head _))
    have hrest := ih (s := insertDraft s.firstKey v s i) fun j hj => h j (.tail _ hj)
    simp only [chainM, hi, foldl_cons]
    exact hrest

theorem chainM_insertAt_of_taken (h : ∃ i ∈ l, (s.columns i).find? (S.key i v) ≠ none) :
    ∃ s', Drafted s s' ∧ chainM (m := Id) (insertAt v) l s = (s', false) := by
  induction l generalizing s with
  | nil => simp at h
  | cons i l ih =>
    by_cases hi : (s.columns i).find? (S.key i v) = none
    · obtain ⟨j, hj, htaken⟩ := h
      have hj : j ∈ l := (mem_cons.1 hj).resolve_left fun hji => htaken (hji ▸ hi)
      obtain ⟨s', hd, hs'⟩ := ih (s := insertDraft s.firstKey v s i) ⟨j, hj, htaken⟩
      refine ⟨s', (drafted_draft ..).trans hd, ?_⟩
      simp only [chainM, insertAt_of_free hi]
      exact hs'
    · refine ⟨s, .refl s, ?_⟩
      simp only [chainM, insertAt_of_taken hi]
      rfl

theorem insert_of_free (h : s.Ready) (hfree : Free s.columns v) :
    s.insert_ v = ({ s with
      columns := fun i => (s.columns i).set (S.key i v) (S.entry i v)
      entryCount := s.entryCount + 1
      firstKey := fun i => (insertUpdate (s.firstKey i) (S.key i v)).or (s.firstKey i) }, true) := by
  have hchain := chainM_insertAt_of_free (s := s) (v := v) (l := List.finRange _) fun i _ => hfree i
  have hd : Drafted s ((List.finRange _).foldl (insertDraft s.firstKey v) s) := drafted_foldl ..
  have hpublish := h.publish_draft (fun i => [.put (S.key i v) (S.entry i v)])
    (fun i => insertUpdate (s.firstKey i) (S.key i v)) (fun _ => false) (s.entryCount + 1) (by simp)
  have hbulk := hd.bulk.trans h.bulk
  simp only [insert_, insertRocksdb, hchain, hbulk, hd.entryCount, Bool.false_eq_true, if_false, if_true]
  exact congrArg (·, true) hpublish

theorem insert_of_taken (h : s.Ready) (htaken : ¬Free s.columns v) : s.insert_ v = (s, false) := by
  obtain ⟨i, hi⟩ := not_forall.1 htaken
  obtain ⟨s', hd, hchain⟩ := chainM_insertAt_of_taken ⟨i, mem_finRange i, hi⟩
  simp only [insert_, insertRocksdb, hchain, hd.bulk, h.bulk, Bool.false_eq_true, if_false]
  exact congrArg (·, false) (h.discard_eq hd)

end Store

end Mira
