import XgtChain.Mira.Contents

/-!
# MIRA: bulk load

In a bulk load `insert_` looks for taken keys in the columns only, and counts refused objects.
-/

open Base (FlatMap)

namespace Mira

open List

namespace Store

variable {S : Schema}
variable {s b : Store S} {objs : List S.Value}

def insertAll (s : Store S) (objs : List S.Value) : Store S := objs.foldl (fun s v => (s.insert_ v).1) s

def bulkLoadAll (s : Store S) (objs : List S.Value) : Store S := (s.beginBulkLoad.insertAll objs).endBulkLoad

def AllFree : Store S → List S.Value → Prop
  | _, [] => True
  | s, v :: objs => Free s.columns v ∧ AllFree (s.insert_ v).1 objs

theorem Ready.insert (h : s.Ready) (v : S.Value) : (s.insert_ v).1.Ready := by
  by_cases hfree : Free s.columns v
  · rw [insert_of_free h hfree]
    exact ⟨h.update, h.delete, h.buffer, h.bulk, h.batch⟩
  · rwa [insert_of_taken h hfree]

theorem entryCount_insertAll_le (h : s.Ready) (objs : List S.Value) :
    (s.insertAll objs).entryCount ≤ s.entryCount + objs.length := by
  induction objs generalizing s with
  | nil => exact le_refl _
  | cons v objs ih =>
    have hrest := ih (h.insert v)
    have hcount : (s.insert_ v).1.entryCount ≤ s.entryCount + 1 := by
      by_cases hfree : Free s.columns v
      · rw [insert_of_free h hfree]
      · rw [insert_of_taken h hfree]
        exact Nat.le_succ _
    exact hrest.trans (by simp only [length_cons]; omega)

theorem entryCount_insertAll_lt (h : s.Ready) (hrefused : ¬s.AllFree objs) :
    (s.insertAll objs).entryCount < s.entryCount + objs.length := by
  induction objs generalizing s with
  | nil => exact absurd trivial hrefused
  | cons v objs ih =>
    show ((s.insert_ v).1.insertAll objs).entryCount < s.entryCount + (objs.length + 1)
    by_cases hfree : Free s.columns v
    · have hrest := ih (h.insert v) fun hall => hrefused ⟨hfree, hall⟩
      have hcount : (s.insert_ v).1.entryCount = s.entryCount + 1 := by rw [insert_of_free h hfree]
      omega
    · have hle := entryCount_insertAll_le h objs
      rw [insert_of_taken h hfree]
      exact Nat.lt_succ_of_le hle

theorem entryCount_insert_bulk (hbulk : b.bulkLoad = true) (hbatch : b.batchCount = 0) (v : S.Value) :
    (b.insert_ v).1.bulkLoad = true ∧ (b.insert_ v).1.batchCount = 0 ∧
      (b.insert_ v).1.entryCount = b.entryCount + 1 := by
  obtain ⟨b', hd, status, hchain⟩ : ∃ b', Drafted b b' ∧ ∃ status, b.insertRocksdb v = (b', status) := by
    by_cases hfree : Free b.columns v
    · exact ⟨_, drafted_foldl .., _, chainM_insertAt_of_free fun i _ => hfree i⟩
    · obtain ⟨i, hi⟩ := not_forall.1 hfree
      obtain ⟨b', hd, hchain⟩ := chainM_insertAt_of_taken ⟨i, mem_finRange i, hi⟩
      exact ⟨b', hd, _, hchain⟩
  simp [insert_, hchain, hd.bulk, hbulk, commitFirstKeyUpdate, hd.batch, hbatch, hd.entryCount]

theorem entryCount_insertAll_bulk (hbulk : b.bulkLoad = true) (hbatch : b.batchCount = 0)
    (objs : List S.Value) : (b.insertAll objs).entryCount = b.entryCount + objs.length := by
  induction objs generalizing b with
  | nil => rfl
  | cons v objs ih =>
    obtain ⟨hbulk', hbatch', hcount⟩ := entryCount_insert_bulk hbulk hbatch v
    have hrest := ih hbulk' hbatch'
    rw [hcount] at hrest
    simp only [length_cons]
    exact hrest.trans (by omega)

structure Loading (s b : Store S) : Prop where
  columns : b.columns.write b.writeBuffer = s.columns
  free : ∀ v, Free s.columns v → Free b.columns v
  entryCount : b.entryCount = s.entryCount
  firstKey : b.firstKey = s.firstKey
  update : b.firstKeyUpdate = fun _ => none
  delete : b.deleteFirstKey = fun _ => false
  bulk : b.bulkLoad = true
  batch : b.batchCount = 0

theorem Loading.begin (h : s.Ready) : Loading s s.beginBulkLoad where
  columns := congrArg s.columns.write h.buffer
  free _ hfree := hfree
  entryCount := rfl
  firstKey := rfl
  update := h.update
  delete := h.delete
  bulk := rfl
  batch := h.batch

theorem Loading.insert {v : S.Value} (h : s.Ready) (hb : Loading s b) (hfree : Free s.columns v) :
    Loading (s.insert_ v).1 (b.insert_ v).1 := by
  have hchain : b.insertRocksdb v = ((finRange _).foldl (insertDraft b.firstKey v) b, true) :=
    chainM_insertAt_of_free fun i _ => hb.free v hfree i
  have hdrafts : (finRange _).foldl (insertDraft b.firstKey v) b = { b with
      writeBuffer := b.writeBuffer ++ (finRange _).flatMap fun i =>
        [ColumnWrite.put (S.key i v) (S.entry i v)].map (Sigma.mk i)
      firstKeyUpdate := fun i => insertUpdate (b.firstKey i) (S.key i v)
      deleteFirstKey := fun _ => false } := by
    refine (foldl_draft (fun i => [.put (S.key i v) (S.entry i v)]) _ (fun _ => false) b _).trans ?_
    simp [hb.update, hb.delete]
  have hnew : (b.insert_ v).1 = { b with
      entryCount := b.entryCount + 1
      firstKey := fun i => (insertUpdate (b.firstKey i) (S.key i v)).or (b.firstKey i)
      writeBuffer := b.writeBuffer ++ (finRange _).flatMap fun i =>
        [ColumnWrite.put (S.key i v) (S.entry i v)].map (Sigma.mk i) } := by
    simp [insert_, hchain, hdrafts, hb.bulk, hb.batch, commitFirstKeyUpdate, hb.update, hb.delete]
  rw [hnew, insert_of_free h hfree]
  refine ⟨?_, fun w hw => hb.free w fun i => ?_, congrArg (· + 1) hb.entryCount, ?_, hb.update, hb.delete,
    hb.bulk, hb.batch⟩
  · funext i
    rw [Columns.write_append, hb.columns, Columns.write_flatMap _ (nodup_finRange _),
      if_pos (mem_finRange i)]
    rfl
  · -- a key that is free afterwards was free before
    have hwi := hw i
    dsimp only at hwi
    rw [FlatMap.find?_set] at hwi
    split_ifs at hwi
    exact hwi
  · dsimp only
    rw [hb.firstKey]

theorem Loading.insertAll (h : s.Ready) (hb : Loading s b)
    (hall : s.AllFree objs) : Loading (s.insertAll objs) (b.insertAll objs) := by
  induction objs generalizing s b with
  | nil => exact hb
  | cons v objs ih => exact ih (h.insert v) (hb.insert h hall.1) hall.2

/-- The same columns, count and first keys. -/
structure SameContents (s s' : Store S) : Prop where
  columns : s.columns = s'.columns
  entryCount : s.entryCount = s'.entryCount
  firstKey : s.firstKey = s'.firstKey

theorem sameContents_iff_allFree (h : s.Ready) (objs : List S.Value) :
    SameContents (s.bulkLoadAll objs) (s.insertAll objs) ↔ s.AllFree objs := by
  constructor
  · intro hsame
    by_contra hrefused
    have hbulk := entryCount_insertAll_bulk (b := s.beginBulkLoad) rfl h.batch objs
    have hlt := entryCount_insertAll_lt h hrefused
    have hcount : (s.beginBulkLoad.insertAll objs).entryCount = (s.insertAll objs).entryCount :=
      hsame.entryCount
    rw [hbulk] at hcount
    exact absurd hcount hlt.ne'
  · intro hall
    have hb := (Loading.begin h).insertAll h hall
    exact ⟨hb.columns, hb.entryCount, hb.firstKey⟩

theorem Holds.allFree_iff {objs0 : List S.Value} (h : s.Holds objs0) (objs : List S.Value) :
    s.AllFree objs ↔ ∀ i, ((objs0 ++ objs).map (S.key i)).Nodup := by
  induction objs generalizing s objs0 with
  | nil => exact iff_of_true trivial fun i => by simpa using h.tables.distinct i
  | cons v objs ih =>
    have hperm : (v :: objs0 ++ objs).Perm (objs0 ++ v :: objs) := perm_middle.symm
    constructor
    · rintro ⟨hfree, hall⟩ i
      exact (hperm.map _).nodup_iff.1 ((ih (h.insert hfree)).1 hall i)
    · intro hnodup
      have hcons (i : S.Index) := (hperm.map (S.key i)).nodup_iff.2 (hnodup i)
      have hfree : Free s.columns v := h.tables.free_iff.2 fun o ho i hkey =>
        (nodup_cons.1 (hcons i)).1 (mem_map.2 ⟨o, mem_append_left _ ho, hkey⟩)
      exact ⟨hfree, (ih (h.insert hfree)).2 hcons⟩

theorem bulkLoad_eq_iff {s : Store S} {objs0 : List S.Value} (h : s.Holds objs0) (objs : List S.Value) :
    SameContents (s.bulkLoadAll objs) (s.insertAll objs) ↔ ∀ i, ((objs0 ++ objs).map (S.key i)).Nodup :=
  (sameContents_iff_allFree h.ready objs).trans (h.allFree_iff objs)

def pairs : Schema where
  Value := Nat × Nat
  more := 1
  Key _ := Nat
  order _ := inferInstance
  key i v := if i = 0 then v.1 else v.2

theorem bulkLoad_eq_three :
    SameContents ((Store.empty pairs).bulkLoadAll [(1, 10), (2, 20), (3, 5)])
      ((Store.empty pairs).insertAll [(1, 10), (2, 20), (3, 5)]) :=
  (bulkLoad_eq_iff Holds.empty _).2 (by decide)

theorem bulkLoad_counts_refused :
    let s := (Store.empty pairs).insertAll [(1, 10)]
    (s.insertAll [(2, 10)]).entryCount = 1 ∧ (s.bulkLoadAll [(2, 10)]).entryCount = 2 ∧
      ((s.bulkLoadAll [(2, 10)]).columns 0).size = 2 ∧ ((s.bulkLoadAll [(2, 10)]).columns 1).size = 1 := by
  decide

end Store

end Mira
