import Mathlib.Order.Basic
import Mathlib.Order.Lattice
import Mathlib.Data.List.Basic
import Mathlib.Data.List.Nodup
import Mathlib.Data.List.Pairwise

/-!
# Sorted vectors as sets and maps

`FlatSet` and `FlatMap` are sets and maps kept as sorted vectors without repeated keys.
-/

namespace Base

open List Option

structure FlatSet (α : Type) [LinearOrder α] where
  elems : List α
  sorted : elems.Pairwise (· < ·)

namespace FlatSet

variable {α : Type} [LinearOrder α]
variable {a : α} {s : FlatSet α} {b : α} {l : List α}

instance : DecidableEq (FlatSet α) := fun s t =>
  decidable_of_iff (s.elems = t.elems) ⟨fun h => by cases s; cases t; simp_all, fun h => h ▸ rfl⟩

def empty : FlatSet α := ⟨[], .nil⟩

instance : Inhabited (FlatSet α) := ⟨empty⟩

instance : Membership α (FlatSet α) := ⟨fun s a => a ∈ s.elems⟩

instance (a : α) (s : FlatSet α) : Decidable (a ∈ s) := inferInstanceAs (Decidable (a ∈ s.elems))

theorem mem_def : a ∈ s ↔ a ∈ s.elems := Iff.rfl

@[simp] theorem not_mem_empty (a : α) : a ∉ (empty : FlatSet α) := by simp [mem_def, empty]

def insertElem (a : α) : List α → List α
  | [] => [a]
  | b :: l => if a < b then a :: b :: l else if a = b then b :: l else b :: insertElem a l

theorem mem_insertElem : b ∈ insertElem a l ↔ b = a ∨ b ∈ l := by
  induction l with
  | nil => simp [insertElem]
  | cons c l ih =>
    rw [insertElem]
    split_ifs with hlt heq
    · simp
    · subst heq
      simp
    · simp only [mem_cons, ih]
      tauto

theorem pairwise_insertElem (h : l.Pairwise (· < ·)) : (insertElem a l).Pairwise (· < ·) := by
  induction l with
  | nil => simp [insertElem]
  | cons b l ih =>
    obtain ⟨hb, hl⟩ := pairwise_cons.1 h
    rw [insertElem]
    split_ifs with hlt heq
    · refine pairwise_cons.2 ⟨fun c hc => ?_, h⟩
      rcases mem_cons.1 hc with rfl | hc
      · exact hlt
      · exact hlt.trans (hb c hc)
    · exact h
    · refine pairwise_cons.2 ⟨fun c hc => ?_, ih hl⟩
      rcases mem_insertElem.1 hc with rfl | hc
      · exact lt_of_le_of_ne (not_lt.1 hlt) (Ne.symm heq)
      · exact hb c hc

def insert (s : FlatSet α) (a : α) : FlatSet α :=
  ⟨insertElem a s.elems, pairwise_insertElem s.sorted⟩

@[simp] theorem mem_insert : b ∈ s.insert a ↔ b = a ∨ b ∈ s :=
  mem_insertElem

def insertAll (s : FlatSet α) (l : List α) : FlatSet α := l.foldl insert s

@[simp] theorem mem_insertAll : a ∈ s.insertAll l ↔ a ∈ s ∨ a ∈ l := by
  unfold insertAll
  induction l generalizing s with
  | nil => simp
  | cons b l ih =>
    rw [foldl_cons, ih, mem_insert, mem_cons]
    tauto

def erase (s : FlatSet α) (a : α) : FlatSet α where
  elems := s.elems.filter (· ≠ a)
  sorted := s.sorted.sublist filter_sublist

theorem nodup_elems (s : FlatSet α) : s.elems.Nodup := s.sorted.imp fun h => ne_of_lt h

@[simp] theorem mem_erase : b ∈ s.erase a ↔ b ∈ s ∧ b ≠ a := by
  simp [mem_def, erase]

end FlatSet

structure FlatMap (κ ν : Type) [LinearOrder κ] where
  entries : List (κ × ν)
  sorted : entries.Pairwise (fun a b => a.1 < b.1)

namespace FlatMap

variable {κ ν : Type} [LinearOrder κ]
variable {k : κ} {v : ν} {e : κ × ν} {l : List (κ × ν)} {m : FlatMap κ ν}

instance [DecidableEq ν] : DecidableEq (FlatMap κ ν) := fun s t =>
  decidable_of_iff (s.entries = t.entries)
    ⟨fun h => by cases s; cases t; simp_all, fun h => h ▸ rfl⟩

def empty : FlatMap κ ν := ⟨[], .nil⟩

instance : Inhabited (FlatMap κ ν) := ⟨empty⟩

def size (m : FlatMap κ ν) : Nat := m.entries.length

def find? (m : FlatMap κ ν) (k : κ) : Option ν := (m.entries.find? (·.1 = k)).map (·.2)

def setEntry (k : κ) (v : ν) : List (κ × ν) → List (κ × ν)
  | [] => [(k, v)]
  | e :: l =>
    if k < e.1 then (k, v) :: e :: l else if k = e.1 then (k, v) :: l else e :: setEntry k v l

theorem mem_setEntry (h : e ∈ setEntry k v l) : e = (k, v) ∨ e ∈ l := by
  induction l with
  | nil => exact .inl (by simpa [setEntry] using h)
  | cons a l ih =>
    rw [setEntry] at h
    split_ifs at h with hlt heq
    · exact mem_cons.1 h
    · exact (mem_cons.1 h).imp_right (.tail _)
    · rcases mem_cons.1 h with rfl | h
      · exact .inr (.head _)
      · exact (ih h).imp_right (.tail _)

theorem pairwise_setEntry (h : l.Pairwise (fun a b => a.1 < b.1)) :
    (setEntry k v l).Pairwise (fun a b => a.1 < b.1) := by
  induction l with
  | nil => simp [setEntry]
  | cons b l ih =>
    obtain ⟨hb, hl⟩ := pairwise_cons.1 h
    rw [setEntry]
    split_ifs with hlt heq
    · refine pairwise_cons.2 ⟨fun c hc => ?_, h⟩
      rcases mem_cons.1 hc with rfl | hc
      · exact hlt
      · exact hlt.trans (hb c hc)
    · exact pairwise_cons.2 ⟨fun c hc => heq ▸ hb c hc, hl⟩
    · refine pairwise_cons.2 ⟨fun c hc => ?_, ih hl⟩
      rcases mem_setEntry hc with rfl | hc
      · exact lt_of_le_of_ne (not_lt.1 hlt) (Ne.symm heq)
      · exact hb c hc

def set (m : FlatMap κ ν) (k : κ) (v : ν) : FlatMap κ ν :=
  ⟨setEntry k v m.entries, pairwise_setEntry m.sorted⟩

def erase (m : FlatMap κ ν) (k : κ) : FlatMap κ ν where
  entries := m.entries.filter fun e => e.1 ≠ k
  sorted := m.sorted.sublist filter_sublist

def emplace (m : FlatMap κ ν) (k : κ) (v : ν) : FlatMap κ ν :=
  if (m.find? k).isSome then m else m.set k v

/-! ### Lookup -/

theorem nodup_keys (m : FlatMap κ ν) : (m.entries.map Prod.fst).Nodup :=
  pairwise_map.2 (m.sorted.imp fun h => ne_of_lt h)

theorem find?_eq_some_iff : m.find? k = some v ↔ (k, v) ∈ m.entries := by
  constructor
  · intro h
    obtain ⟨e, he, hv⟩ := map_eq_some_iff.1 h
    have hk : e.1 = k := by simpa using find?_some he
    rw [← hk, ← hv]
    exact mem_of_find?_eq_some he
  · intro h
    have hone : ∀ e ∈ m.entries, e.1 = k → e = (k, v) := fun e he hk =>
      inj_on_of_nodup_map m.nodup_keys he h hk
    have hfound : (m.entries.find? fun e => e.1 = k).isSome :=
      find?_isSome.2 ⟨_, h, decide_eq_true rfl⟩
    obtain ⟨e, he⟩ := isSome_iff_exists.1 hfound
    have hk : e.1 = k := by simpa using find?_some he
    rw [find?, he, hone e (mem_of_find?_eq_some he) hk]
    rfl

theorem find?_eq_none_iff : m.find? k = none ↔ k ∉ m.entries.map Prod.fst := by
  rw [eq_none_iff_forall_ne_some]
  simp [find?_eq_some_iff]

@[simp] theorem find?_empty (k : κ) : (empty : FlatMap κ ν).find? k = none := rfl

theorem ext_find? {m' : FlatMap κ ν} (h : ∀ k, m.find? k = m'.find? k) : m = m' := by
  have hmem : ∀ e, e ∈ m.entries ↔ e ∈ m'.entries := fun e => by
    rw [← find?_eq_some_iff (m := m), ← find?_eq_some_iff (m := m'), h]
  have hnodup (m : FlatMap κ ν) : m.entries.Nodup := m.sorted.imp fun hlt heq => (heq ▸ hlt).false
  have hperm : m.entries.Perm m'.entries := (perm_ext_iff_of_nodup (hnodup m) (hnodup m')).2 hmem
  have heq : m.entries = m'.entries := hperm.eq_of_pairwise
    (fun a b _ _ hab hba => absurd hab hba.asymm) m.sorted m'.sorted
  cases m
  cases m'
  cases heq
  rfl

theorem find?_setEntry_self (k : κ) (v : ν) (l : List (κ × ν)) : (k, v) ∈ setEntry k v l := by
  induction l with
  | nil => exact mem_singleton_self _
  | cons e l ih =>
    rw [setEntry]
    split_ifs
    · exact .head _
    · exact .head _
    · exact .tail _ ih

theorem mem_setEntry_of_ne (h : e ∈ l) (hne : e.1 ≠ k) : e ∈ setEntry k v l := by
  induction l with
  | nil => cases h
  | cons a l ih =>
    rw [setEntry]
    split_ifs with hlt heq
    · exact .tail _ h
    · rcases mem_cons.1 h with rfl | h
      · exact absurd heq.symm hne
      · exact .tail _ h
    · rcases mem_cons.1 h with rfl | h
      · exact .head _
      · exact .tail _ (ih h)

theorem find?_set (m : FlatMap κ ν) (k : κ) (v : ν) (k' : κ) :
    (m.set k v).find? k' = if k' = k then some v else m.find? k' := by
  split_ifs with hk
  · rw [hk]
    exact find?_eq_some_iff.2 (find?_setEntry_self k v m.entries)
  · refine ext fun w => ?_
    rw [find?_eq_some_iff, find?_eq_some_iff]
    constructor
    · intro h
      exact (mem_setEntry h).resolve_left fun heq => hk (congrArg Prod.fst heq)
    · intro h
      exact mem_setEntry_of_ne h hk

theorem find?_erase (m : FlatMap κ ν) (k k' : κ) :
    (m.erase k).find? k' = if k' = k then none else m.find? k' := by
  refine ext fun w => ?_
  rw [find?_eq_some_iff]
  split_ifs with hk <;> simp [erase, hk, find?_eq_some_iff]

theorem find?_emplace (m : FlatMap κ ν) (k : κ) (v : ν) (k' : κ) :
    (m.emplace k v).find? k' = if k' = k then some ((m.find? k).getD v) else m.find? k' := by
  unfold emplace
  cases hk : m.find? k with
  | none =>
    rw [if_neg (by simp), find?_set]
    rfl
  | some w =>
    rw [isSome_some, if_pos rfl]
    split_ifs with heq
    · rw [heq, hk]
      rfl
    · rfl

theorem find?_foldl_set (m m' : FlatMap κ ν) (k : κ) :
    (m'.entries.foldl (fun m e => m.set e.1 e.2) m).find? k = (m'.find? k).or (m.find? k) := by
  obtain ⟨l, hl⟩ := m'
  -- The entry of a key is the only one, so the entries after it leave it as it is.
  induction l generalizing m with
  | nil => rfl
  | cons e l ih =>
    obtain ⟨he, hl'⟩ := pairwise_cons.1 hl
    rw [foldl_cons, ih _ hl', find?_set]
    by_cases hk : e.1 = k
    · have habsent : (⟨l, hl'⟩ : FlatMap κ ν).find? k = none :=
        find?_eq_none_iff.2 fun hmem => by
          obtain ⟨e', he', hk'⟩ := mem_map.1 hmem
          exact (he e' he').ne (hk.trans hk'.symm)
      have hfound : (⟨e :: l, hl⟩ : FlatMap κ ν).find? k = some e.2 :=
        find?_eq_some_iff.2 (hk ▸ mem_cons_self)
      rw [habsent, hfound, if_pos hk.symm]
      rfl
    · have hrest : (⟨e :: l, hl⟩ : FlatMap κ ν).find? k = (⟨l, hl'⟩ : FlatMap κ ν).find? k := by
        unfold find?
        rw [find?_cons_of_neg (by simpa using hk)]
      rw [hrest, if_neg (Ne.symm hk)]

theorem find?_foldl_erase (m : FlatMap κ ν) (l : List κ) (k : κ) :
    (l.foldl erase m).find? k = if k ∈ l then none else m.find? k := by
  induction l generalizing m with
  | nil => rfl
  | cons a l ih =>
    rw [foldl_cons, ih, find?_erase]
    by_cases hl : k ∈ l
    · rw [if_pos hl, if_pos (.tail _ hl)]
    · rw [if_neg hl]
      exact if_congr (by simp [hl]) rfl rfl

def keys (m : FlatMap κ ν) : FlatSet κ :=
  ⟨m.entries.map (·.1), by simpa [pairwise_map] using m.sorted⟩

theorem mem_keys : k ∈ m.keys ↔ ∃ v, (k, v) ∈ m.entries := by
  simp [FlatSet.mem_def, keys]

theorem mem_keys_set {k' : κ} (h : k' ∈ (m.set k v).keys) : k' = k ∨ k' ∈ m.keys := by
  obtain ⟨v', hv'⟩ := mem_keys.1 h
  rcases mem_setEntry hv' with heq | hmem
  · exact .inl (congrArg Prod.fst heq)
  · exact .inr (mem_keys.2 ⟨v', hmem⟩)

theorem mem_keys_set_iff {k' : κ} : k' ∈ (m.set k v).keys ↔ k' = k ∨ k' ∈ m.keys := by
  refine ⟨mem_keys_set, fun h => ?_⟩
  by_cases hk : k' = k
  · rw [hk]
    exact mem_keys.2 ⟨v, find?_setEntry_self k v m.entries⟩
  · obtain ⟨v', hv'⟩ := mem_keys.1 (h.resolve_left hk)
    exact mem_keys.2 ⟨v', mem_setEntry_of_ne hv' hk⟩

def ofList (l : List (κ × ν)) : FlatMap κ ν := l.foldl (fun m e => m.set e.1 e.2) empty

theorem mem_foldl_set
    (h : e ∈ (l.foldl (fun m e => m.set e.1 e.2) m).entries) : e ∈ l ∨ e ∈ m.entries := by
  induction l generalizing m with
  | nil => exact .inr h
  | cons a l ih =>
    rcases ih h with hl | hm
    · exact .inl (.tail _ hl)
    · rcases mem_setEntry hm with rfl | hm
      · exact .inl (.head _)
      · exact .inr hm

theorem mem_entries_ofList (h : e ∈ (ofList l).entries) : e ∈ l :=
  (mem_foldl_set h).resolve_right (by simp [empty])

theorem mem_keys_foldl_set :
    k ∈ (l.foldl (fun m e => m.set e.1 e.2) m).keys ↔ k ∈ m.keys ∨ k ∈ l.map Prod.fst := by
  induction l generalizing m with
  | nil => simp
  | cons e l ih =>
    rw [foldl_cons, ih, mem_keys_set_iff, map_cons, mem_cons]
    tauto

theorem mem_keys_ofList : k ∈ (ofList l).keys ↔ k ∈ l.map Prod.fst :=
  mem_keys_foldl_set.trans (or_iff_right_of_imp fun h => absurd (mem_keys.1 h) (by simp [empty]))

end FlatMap

end Base
