import XgtChain.Mira.Store

/-!
# MIRA: what a container holds

The abstract container is a list of objects, no two of which have a key in common in any index.
-/

open Base (FlatMap)

namespace Mira

open List

variable {S : Schema}

/-! ## Columns -/

structure Tables (columns : Columns S) (objs : List S.Value) : Prop where
  distinct : ∀ i, (objs.map (S.key i)).Nodup
  find_iff : ∀ i k e, (columns i).find? k = some e ↔ ∃ v ∈ objs, S.key i v = k ∧ S.entry i v = e

namespace Tables

variable {columns : Columns S} {objs : List S.Value} {v v' : S.Value}

theorem empty : Tables (S := S) (fun _ => FlatMap.empty) [] := ⟨fun _ => nodup_nil, by simp⟩

section

variable (h : Tables columns objs)
include h

theorem perm {objs' : List S.Value} (hp : objs.Perm objs') : Tables columns objs' where
  distinct i := (hp.map (S.key i)).nodup_iff.1 (h.distinct i)
  find_iff i k e := by rw [h.find_iff]; exact ⟨fun ⟨v, hv, he⟩ => ⟨v, hp.mem_iff.1 hv, he⟩,
    fun ⟨v, hv, he⟩ => ⟨v, hp.mem_iff.2 hv, he⟩⟩

theorem find_key (hv : v ∈ objs) (i : S.Index) :
    (columns i).find? (S.key i v) = some (S.entry i v) := (h.find_iff i _ _).2 ⟨v, hv, rfl, rfl⟩

theorem eq_of_key_eq (hv : v ∈ objs) (hv' : v' ∈ objs) {i : S.Index}
    (hkey : S.key i v = S.key i v') : v = v' := inj_on_of_nodup_map (h.distinct i) hv hv' hkey

variable (i : S.Index) (k : S.Key i)

theorem isSome_find?_iff : ((columns i).find? k).isSome ↔ ∃ v ∈ objs, S.key i v = k := by
  rw [Option.isSome_iff_exists]
  constructor
  · rintro ⟨e, he⟩
    obtain ⟨v, hv, hk, -⟩ := (h.find_iff i k e).1 he
    exact ⟨v, hv, hk⟩
  · rintro ⟨v, hv, rfl⟩
    exact ⟨_, h.find_key hv i⟩

theorem find?_eq_none_iff : (columns i).find? k = none ↔ ∀ v ∈ objs, S.key i v ≠ k := by
  rw [← Option.not_isSome_iff_eq_none, h.isSome_find?_iff]
  simp

theorem free_iff : Store.Free columns v ↔ ∀ o ∈ objs, ∀ i, S.key i o ≠ S.key i v := by
  simp only [Store.Free, h.find?_eq_none_iff]
  exact ⟨fun hfree o ho i => hfree i o ho, fun hfree i o ho => hfree o ho i⟩

theorem find_object_iff {k : S.Key 0} :
    (columns 0).find? k = some (.object v) ↔ v ∈ objs ∧ S.key 0 v = k := by
  rw [h.find_iff]
  constructor
  · rintro ⟨w, hw, hk, he⟩
    obtain rfl : w = v := by simpa using he
    exact ⟨hw, hk⟩
  · rintro ⟨hv, hk⟩
    exact ⟨v, hv, hk, rfl⟩

theorem perm_entries : (columns i).entries.Perm (objs.map fun v => (S.key i v, S.entry i v)) := by
  have hnodup : (columns i).entries.Nodup := (columns i).sorted.imp fun hlt heq => (heq ▸ hlt).false
  have hnodup' : (objs.map fun v => (S.key i v, S.entry i v)).Nodup := by
    refine List.Nodup.of_map Prod.fst ?_
    simpa [Function.comp_def] using h.distinct i
  refine (perm_ext_iff_of_nodup hnodup hnodup').2 fun ⟨k, e⟩ => ?_
  rw [← FlatMap.find?_eq_some_iff, h.find_iff]
  simp

theorem insert (hfree : Store.Free columns v) :
    Tables (fun i => (columns i).set (S.key i v) (S.entry i v)) (v :: objs) where
  distinct i := by
    refine nodup_cons.2 ⟨fun hmem => ?_, h.distinct i⟩
    obtain ⟨o, ho, hkey⟩ := mem_map.1 hmem
    exact h.free_iff.1 hfree o ho i hkey
  find_iff i k e := by
    have hne : ∀ o ∈ objs, S.key i o ≠ S.key i v := fun o ho => h.free_iff.1 hfree o ho i
    rw [FlatMap.find?_set, exists_mem_cons_iff]
    split_ifs with hk
    · subst hk
      constructor
      · intro he
        exact .inl ⟨rfl, Option.some_inj.1 he⟩
      · rintro (⟨-, he⟩ | ⟨o, ho, hkey, -⟩)
        · rw [he]
        · exact absurd hkey (hne o ho)
    · rw [h.find_iff]
      exact ⟨.inr, fun hor => hor.resolve_left fun hv => hk hv.1.symm⟩

end

theorem erase (h : Tables columns (v :: objs)) :
    Tables (fun i => (columns i).erase (S.key i v)) objs where
  distinct i := (nodup_cons.1 (h.distinct i)).2
  find_iff i k e := by
    have hv : S.key i v ∉ objs.map (S.key i) := (nodup_cons.1 (h.distinct i)).1
    rw [FlatMap.find?_erase]
    split_ifs with hk
    · refine iff_of_false (by simp) ?_
      rintro ⟨o, ho, hkey, -⟩
      exact hv (hk ▸ hkey ▸ mem_map_of_mem ho)
    · rw [h.find_iff, exists_mem_cons_iff]
      exact ⟨fun hor => hor.resolve_left fun hv => hk hv.1.symm, .inr⟩

def Modifies (columns : Columns S) (v v' : S.Value) : Prop :=
  S.key 0 v' = S.key 0 v ∧ ∀ i, S.key i v' ≠ S.key i v → (columns i).find? (S.key i v') = none

theorem free_of_modifies (hm : Modifies columns v v') :
    Store.Free (fun i => (columns i).erase (S.key i v)) v' := fun i => by
  rw [FlatMap.find?_erase]
  split_ifs with hkey
  · rfl
  · exact hm.2 i hkey

theorem modify (h : Tables columns (v :: objs)) (hm : Modifies columns v v') :
    Tables (fun i => ((columns i).erase (S.key i v)).set (S.key i v') (S.entry i v')) (v' :: objs) :=
  h.erase.insert (free_of_modifies hm)

end Tables

def modifyWrites (v v' : S.Value) (i : S.Index) : List (ColumnWrite (S.Key i) (Entry S)) :=
  if i = 0 then [.put (S.key i v') (S.entry i v')]
  else if S.key i v' ≠ S.key i v then [.delete (S.key i v), .put (S.key i v') (S.entry i v')]
  else []

theorem modifyWrites_apply {columns : Columns S} {objs : List S.Value} {v v' : S.Value}
    (h : Tables columns (v :: objs)) (hid : S.key 0 v' = S.key 0 v) (i : S.Index) :
    (modifyWrites v v' i).foldl ColumnWrite.apply (columns i) =
      ((columns i).erase (S.key i v)).set (S.key i v') (S.entry i v') := by
  have hstored := h.find_key (.head _) i
  unfold modifyWrites
  split_ifs with hi hkey
  · subst hi
    refine FlatMap.ext_find? fun k => ?_
    simp only [foldl_cons, foldl_nil, ColumnWrite.apply, FlatMap.find?_set, FlatMap.find?_erase, hid]
    split_ifs <;> rfl
  · rfl
  · -- neither the key nor the id changes, so the entry stays
    have hkey : S.key i v' = S.key i v := not_not.1 hkey
    have hentry : S.entry i v' = S.entry i v := by rw [entry_of_ne hi, entry_of_ne hi, hid]
    refine FlatMap.ext_find? fun k => ?_
    simp only [foldl_nil, FlatMap.find?_set, FlatMap.find?_erase, hkey, hentry]
    split_ifs with hk
    · rw [hk, hstored]
    · rfl

section First

variable {κ ν : Type} [LinearOrder κ] (column : FlatMap κ ν)

theorem insert_first (new : κ) (e : ν) :
    (insertUpdate column.least new).or column.least = (column.set new e).least := by
  rw [FlatMap.least_set]
  cases column.least with
  | none => rfl
  | some f =>
    unfold insertUpdate
    dsimp only
    split_ifs with hlt
    · simp [min_eq_left hlt.le]
    · simp [min_eq_right (not_lt.1 hlt)]

theorem erase_first {old : κ} (hold : (column.find? old).isSome) :
    (eraseUpdate column.least old column.second).or
      (if eraseDeletes column.least old column.second then none else column.least) =
        (column.erase old).least := by
  cases hleast : column.least with
  | none => simp [FlatMap.least_eq_none_iff.1 hleast] at hold
  | some f =>
    by_cases hf : f = old
    · subst hf
      rw [FlatMap.least_erase_least hleast]
      cases column.second <;> simp [eraseUpdate, eraseDeletes]
    · rw [FlatMap.least_erase_of_ne hleast (Ne.symm hf)]
      simp [eraseUpdate, eraseDeletes, hf]

theorem modify_first {old : κ} (hold : (column.find? old).isSome) (new : κ) (e : ν) :
    (modifyUpdate column.least old new column.second).or column.least =
      ((column.erase old).set new e).least := by
  rw [FlatMap.least_set]
  cases hleast : column.least with
  | none => simp [FlatMap.least_eq_none_iff.1 hleast] at hold
  | some f =>
    by_cases hf : old = f
    · subst hf
      rw [FlatMap.least_erase_least hleast]
      cases hsecond : column.second with
      | none =>
        rcases lt_trichotomy new old with hlt | rfl | hgt
        · simp [modifyUpdate, hlt]
        · simp [modifyUpdate]
        · simp [modifyUpdate, hgt, not_lt.2 hgt.le]
      | some k =>
        have hk := FlatMap.lt_of_second hleast hsecond
        rcases lt_trichotomy new old with hlt | rfl | hgt
        · simp [modifyUpdate, hlt, min_eq_left (hlt.trans hk).le]
        · simp [modifyUpdate, min_eq_left hk.le]
        · rcases lt_or_ge k new with hknew | hknew
          · simp [modifyUpdate, hgt, not_lt.2 hgt.le, hknew, min_eq_right hknew.le]
          · simp [modifyUpdate, hgt, not_lt.2 hgt.le, not_lt.2 hknew, min_eq_left hknew]
    · rw [FlatMap.least_erase_of_ne hleast hf]
      rcases lt_or_ge new f with hlt | hge
      · simp [modifyUpdate, hlt, min_eq_left hlt.le]
      · simp [modifyUpdate, not_lt.2 hge, hf, min_eq_right hge]

end First

namespace Store

/-- The store has exactly these objects. -/
structure Holds (s : Store S) (objs : List S.Value) : Prop where
  ready : s.Ready
  tables : Tables s.columns objs
  count : s.entryCount = objs.length
  first : ∀ i, s.firstKey i = (s.columns i).least

namespace Holds

variable {s : Store S} {objs : List S.Value} {v v' : S.Value} (s0 : Store S)

theorem empty : (Store.empty S).Holds [] :=
  ⟨⟨rfl, rfl, rfl, rfl, rfl⟩, .empty, rfl, fun _ => rfl⟩

theorem perm {objs' : List S.Value} (h : s.Holds objs) (hp : objs.Perm objs') : s.Holds objs' :=
  ⟨h.ready, h.tables.perm hp, h.count.trans hp.length_eq, h.first⟩

theorem of_columns (h : s.Ready) {columns : Columns S} {count : Nat} {first : (i : S.Index) → Option (S.Key i)}
    (tables : Tables columns objs) (hcount : count = objs.length) (hfirst : ∀ i, first i = (columns i).least) :
    ({ s with columns := columns, entryCount := count, firstKey := first } : Store S).Holds objs :=
  ⟨⟨h.update, h.delete, h.buffer, h.bulk, h.batch⟩, tables, hcount, hfirst⟩

theorem insert (h : s.Holds objs) (hfree : Free s.columns v) : (s.insert_ v).1.Holds (v :: objs) := by
  rw [insert_of_free h.ready hfree]
  refine of_columns h.ready (h.tables.insert hfree) (congrArg (· + 1) h.count) fun i => ?_
  rw [h.first, insert_first]

def eraseDraft (v : S.Value) (s : Store S) (i : S.Index) : Store S :=
  s.draft i [.delete (S.key i v)] (eraseUpdate (s0.firstKey i) (S.key i v) (s0.columns i).second)
    (eraseDeletes (s0.firstKey i) (S.key i v) (s0.columns i).second)

theorem erase (h : s.Holds (v :: objs)) :
    (((List.finRange _).foldl (eraseDraft s v) s).publish (s.entryCount - 1)).Holds objs := by
  have hpublish := h.ready.publish_draft (fun i => [.delete (S.key i v)])
    (fun i => eraseUpdate (s.firstKey i) (S.key i v) (s.columns i).second)
    (fun i => eraseDeletes (s.firstKey i) (S.key i v) (s.columns i).second) (s.entryCount - 1) fun i hi => by
      unfold eraseDeletes at hi
      rw [Bool.and_eq_true, Option.isNone_iff_eq_none] at hi
      rw [eraseUpdate, hi.2, ite_self]
  refine (congrArg (Holds · objs) hpublish).mpr
    (of_columns h.ready h.tables.erase (by simp [h.count]) fun i => ?_)
  have hold := (h.tables.isSome_find?_iff i _).2 ⟨v, .head _, rfl⟩
  rw [h.first, erase_first _ hold]
  rfl

def modifyDraft (v v' : S.Value) (s : Store S) (i : S.Index) : Store S :=
  s.draft i (modifyWrites v v' i)
    (if i = 0 ∨ S.key i v' ≠ S.key i v then
      modifyUpdate (s0.firstKey i) (S.key i v) (S.key i v') (s0.columns i).second else none) false

theorem modify (h : s.Holds (v :: objs)) (hm : Tables.Modifies s.columns v v') :
    (((List.finRange _).foldl (modifyDraft s v v') s).publish s.entryCount).Holds (v' :: objs) := by
  have hpublish := h.ready.publish_draft (modifyWrites v v')
    (fun i => if i = 0 ∨ S.key i v' ≠ S.key i v then
      modifyUpdate (s.firstKey i) (S.key i v) (S.key i v') (s.columns i).second else none)
    (fun _ => false) s.entryCount (by simp)
  have htables := h.tables.modify hm
  have hcolumns := fun i => modifyWrites_apply h.tables hm.1 i
  have hold (i : S.Index) : ((s.columns i).find? (S.key i v)).isSome :=
    (h.tables.isSome_find?_iff i _).2 ⟨v, .head _, rfl⟩
  refine (congrArg (Holds · (v' :: objs)) hpublish).mpr
    (of_columns h.ready (by simpa only [hcolumns] using htables) h.count fun i => ?_)
  simp only [Bool.false_eq_true, if_false]
  rw [hcolumns, h.first, ← modify_first _ (hold i)]
  split_ifs with hi
  · rfl
  · -- the key stays, and so does the first key
    obtain ⟨-, hkey⟩ := not_or.1 hi
    rw [not_not.1 hkey]
    unfold modifyUpdate
    cases hleast : (s.columns i).least with
    | none => rfl
    | some f =>
      have hle := (FlatMap.least_eq_some_iff.1 hleast).2 _ (hold i)
      have hne : ¬(f < S.key i v ∧ S.key i v = f) := fun hlt => hlt.1.ne hlt.2.symm
      simp [not_lt.2 hle, hne]

end Holds

end Store

end Mira
