import XgtChain.Base.Flat

/-!
# Sorted maps read in key order

The reads of a sorted map that go by the order of its keys, as a cursor over it does them.
-/

namespace Base

open List Option

namespace FlatMap

variable {κ ν : Type} [LinearOrder κ]
variable {m : FlatMap κ ν} {k : κ} {e : κ × ν}

def least (m : FlatMap κ ν) : Option κ := m.entries.head?.map (·.1)

def seek (m : FlatMap κ ν) (k : κ) : Option (κ × ν) := m.entries.find? (k ≤ ·.1)

def after (m : FlatMap κ ν) (k : κ) : Option (κ × ν) := m.entries.find? (k < ·.1)

def before (m : FlatMap κ ν) (k : κ) : Option (κ × ν) := m.entries.reverse.find? (·.1 < k)

def second (m : FlatMap κ ν) : Option κ := m.least.bind fun f => (m.after f).map (·.1)

def last (m : FlatMap κ ν) : Option (κ × ν) := m.entries.getLast?

def rest (m : FlatMap κ ν) (k : κ) : List (κ × ν) := m.entries.dropWhile (·.1 < k)

def between (m : FlatMap κ ν) (k stop : κ) : List (κ × ν) := (m.rest k).takeWhile (·.1 < stop)

theorem find?_isSome_iff : (m.find? k).isSome ↔ ∃ v, (k, v) ∈ m.entries := by
  simp only [isSome_iff_exists, find?_eq_some_iff]

theorem find?_sorted_eq_some_iff {p : κ × ν → Bool} {l : List (κ × ν)}
    (hsorted : l.Pairwise fun a b => a.1 < b.1) :
    l.find? p = some e ↔ e ∈ l ∧ p e ∧ ∀ e' ∈ l, p e' → e.1 ≤ e'.1 := by
  induction l with
  | nil => simp
  | cons a l ih =>
    obtain ⟨ha, hl⟩ := pairwise_cons.1 hsorted
    by_cases hp : p a
    · rw [find?_cons_of_pos hp, some_inj]
      constructor
      · rintro rfl
        refine ⟨.head _, hp, fun e' he' _ => ?_⟩
        rcases mem_cons.1 he' with rfl | he'
        · exact le_refl _
        · exact (ha e' he').le
      · rintro ⟨hmem, -, hle⟩
        rcases mem_cons.1 hmem with rfl | hmem
        · rfl
        · exact absurd (ha e hmem) (not_lt.2 (hle a (.head _) hp))
    · -- the head fails the test, so it is not the entry, and it bounds nothing
      rw [find?_cons_of_neg hp, ih hl]
      constructor
      · rintro ⟨hmem, he, hle⟩
        refine ⟨.tail _ hmem, he, fun e' he' hp' => ?_⟩
        rcases mem_cons.1 he' with rfl | he'
        · exact absurd hp' hp
        · exact hle e' he' hp'
      · rintro ⟨hmem, he, hle⟩
        rcases mem_cons.1 hmem with rfl | hmem
        · exact absurd he hp
        · exact ⟨hmem, he, fun e' he' => hle e' (.tail _ he')⟩

theorem after_eq_some_iff :
    m.after k = some e ↔ e ∈ m.entries ∧ k < e.1 ∧ ∀ e' ∈ m.entries, k < e'.1 → e.1 ≤ e'.1 := by
  simpa [after] using find?_sorted_eq_some_iff (p := fun e => decide (k < e.1)) (e := e) m.sorted

theorem seek_eq_some_iff :
    m.seek k = some e ↔ e ∈ m.entries ∧ k ≤ e.1 ∧ ∀ e' ∈ m.entries, k ≤ e'.1 → e.1 ≤ e'.1 := by
  simpa [seek] using find?_sorted_eq_some_iff (p := fun e => decide (k ≤ e.1)) (e := e) m.sorted

section Cursor

variable {l l' : List (κ × ν)} {k : κ} {e : κ × ν}

section

variable (hsorted : l.Pairwise fun a b => a.1 < b.1)
include hsorted

theorem eq_of_sorted (hsorted' : l'.Pairwise fun a b => a.1 < b.1)
    (h : ∀ e, e ∈ l ↔ e ∈ l') : l = l' := by
  have hnodup {l : List (κ × ν)} (hl : l.Pairwise fun a b => a.1 < b.1) : l.Nodup :=
    hl.imp fun hlt heq => (heq ▸ hlt).false
  have hperm : l.Perm l' := (perm_ext_iff_of_nodup (hnodup hsorted) (hnodup hsorted')).2 h
  exact hperm.eq_of_pairwise (fun a b _ _ hab hba => absurd hab hba.asymm) hsorted hsorted'

theorem mem_dropWhile_sorted : e ∈ l.dropWhile (·.1 < k) ↔ e ∈ l ∧ k ≤ e.1 := by
  induction l with
  | nil => simp
  | cons a l ih =>
    obtain ⟨ha, hl⟩ := pairwise_cons.1 hsorted
    by_cases hlt : a.1 < k
    · rw [dropWhile_cons_of_pos (by simpa using hlt), ih hl, mem_cons]
      refine and_congr_left fun hle => (or_iff_right ?_).symm
      rintro rfl
      exact absurd hlt (not_lt.2 hle)
    · rw [dropWhile_cons_of_neg (by simpa using hlt)]
      refine (and_iff_left_of_imp fun he => ?_).symm
      rcases mem_cons.1 he with rfl | he
      · exact not_lt.1 hlt
      · exact (not_lt.1 hlt).trans (ha e he).le

theorem mem_takeWhile_sorted : e ∈ l.takeWhile (·.1 < k) ↔ e ∈ l ∧ e.1 < k := by
  induction l with
  | nil => simp
  | cons a l ih =>
    obtain ⟨ha, hl⟩ := pairwise_cons.1 hsorted
    by_cases hlt : a.1 < k
    · rw [takeWhile_cons_of_pos (by simpa using hlt), mem_cons, mem_cons, ih hl, or_and_right]
      refine or_congr_left (and_iff_left_of_imp ?_).symm
      rintro rfl
      exact hlt
    · rw [takeWhile_cons_of_neg (by simpa using hlt)]
      refine iff_of_false not_mem_nil fun ⟨he, hek⟩ => ?_
      rcases mem_cons.1 he with rfl | he
      · exact hlt hek
      · exact hlt ((ha e he).trans hek)

end

variable {m : FlatMap κ ν} {stop : κ}

theorem pairwise_rest : (m.rest k).Pairwise fun a b => a.1 < b.1 :=
  m.sorted.sublist (dropWhile_sublist _)

theorem mem_rest : e ∈ m.rest k ↔ e ∈ m.entries ∧ k ≤ e.1 := mem_dropWhile_sorted m.sorted

theorem mem_between : e ∈ m.between k stop ↔ e ∈ m.entries ∧ k ≤ e.1 ∧ e.1 < stop := by
  rw [between, mem_takeWhile_sorted pairwise_rest, mem_rest, and_assoc]

end Cursor

variable {m : FlatMap κ ν} {v : ν} {k k' : κ}

theorem seek_of_find? (h : m.find? k = some v) : m.seek k = some (k, v) :=
  seek_eq_some_iff.2 ⟨find?_eq_some_iff.1 h, le_refl k, fun _ _ hle => hle⟩

theorem any_seek_eq_false (h : m.find? k = none) : (m.seek k).any (·.1 = k) = false := by
  refine (any_eq_false _ _).2 fun e he => decide_eq_false fun heq => ?_
  subst heq
  rw [find?_eq_some_iff.2 (seek_eq_some_iff.1 he).1] at h
  cases h

theorem least_eq_some_iff :
    m.least = some k ↔ (m.find? k).isSome ∧ ∀ k', (m.find? k').isSome → k ≤ k' := by
  simp only [find?_isSome_iff]
  obtain ⟨l, hl⟩ := m
  cases l with
  | nil => simp [least]
  | cons a l =>
    obtain ⟨ha, -⟩ := pairwise_cons.1 hl
    simp only [least, head?_cons, map_some, some_inj]
    constructor
    · rintro rfl
      refine ⟨⟨a.2, .head _⟩, fun k' ⟨v, hv⟩ => ?_⟩
      rcases mem_cons.1 hv with heq | hv
      · exact (congrArg Prod.fst heq).ge
      · exact (ha _ hv).le
    · rintro ⟨⟨v, hv⟩, hle⟩
      rcases mem_cons.1 hv with heq | hv
      · exact (congrArg Prod.fst heq).symm
      · exact absurd (ha _ hv) (not_lt.2 (hle a.1 ⟨a.2, .head _⟩))

theorem least_eq_none_iff : m.least = none ↔ ∀ k, m.find? k = none := by
  obtain ⟨l, hl⟩ := m
  cases l with
  | nil => simp [least, find?]
  | cons a l =>
    refine iff_of_false (by simp [least]) fun h => ?_
    have hfound := find?_eq_some_iff (m := ⟨a :: l, hl⟩).2 (mem_cons_self : (a.1, a.2) ∈ a :: l)
    rw [h] at hfound
    cases hfound

theorem isSome_find?_set : ((m.set k v).find? k').isSome ↔ k' = k ∨ (m.find? k').isSome := by
  rw [find?_set]
  split_ifs with hk <;> simp [hk]

theorem isSome_find?_erase : ((m.erase k).find? k').isSome ↔ k' ≠ k ∧ (m.find? k').isSome := by
  rw [find?_erase]
  split_ifs with hk <;> simp [hk]

theorem least_set (m : FlatMap κ ν) (k : κ) (v : ν) :
    (m.set k v).least = some (m.least.elim k (min k)) := by
  rw [least_eq_some_iff]
  cases hleast : m.least with
  | none =>
    have hnone := least_eq_none_iff.1 hleast
    refine ⟨isSome_find?_set.2 (.inl rfl), fun k' hk' => ?_⟩
    rcases isSome_find?_set.1 hk' with rfl | hk'
    · exact le_refl _
    · simp [hnone] at hk'
  | some f =>
    obtain ⟨hf, hle⟩ := least_eq_some_iff.1 hleast
    refine ⟨isSome_find?_set.2 ?_, fun k' hk' => ?_⟩
    · rcases le_total k f with hmin | hmin
      · exact .inl (min_eq_left hmin)
      · exact .inr (by rwa [elim_some, min_eq_right hmin])
    · rcases isSome_find?_set.1 hk' with rfl | hk'
      · exact min_le_left _ _
      · exact (min_le_right k f).trans (hle k' hk')

theorem least_erase_of_ne {f k : κ} (hleast : m.least = some f) (hne : k ≠ f) :
    (m.erase k).least = some f := by
  obtain ⟨hf, hle⟩ := least_eq_some_iff.1 hleast
  exact least_eq_some_iff.2 ⟨isSome_find?_erase.2 ⟨hne.symm, hf⟩,
    fun k' hk' => hle k' (isSome_find?_erase.1 hk').2⟩

theorem least_erase_least {f : κ} (hleast : m.least = some f) : (m.erase f).least = m.second := by
  rw [second, hleast, bind_some]
  obtain ⟨-, hle⟩ := least_eq_some_iff.1 hleast
  have hlt {k : κ} (hk : ((m.erase f).find? k).isSome) : f < k :=
    have hk := isSome_find?_erase.1 hk
    lt_of_le_of_ne (hle k hk.2) hk.1.symm
  cases hafter : m.after f with
  | none =>
    refine least_eq_none_iff.2 fun k => not_isSome_iff_eq_none.1 fun hk => ?_
    obtain ⟨v, hv⟩ := find?_isSome_iff.1 (isSome_find?_erase.1 hk).2
    have hfails := find?_eq_none.1 hafter _ hv
    exact absurd (hlt hk) (by simpa using hfails)
  | some e =>
    obtain ⟨hmem, hfe, hmin⟩ := after_eq_some_iff.1 hafter
    refine least_eq_some_iff.2 ⟨isSome_find?_erase.2 ⟨hfe.ne', find?_isSome_iff.2 ⟨e.2, hmem⟩⟩,
      fun k hk => ?_⟩
    obtain ⟨v, hv⟩ := find?_isSome_iff.1 (isSome_find?_erase.1 hk).2
    exact hmin _ hv (hlt hk)

theorem lt_of_second {f k : κ} (hleast : m.least = some f) (h : m.second = some k) : f < k := by
  rw [second, hleast, bind_some] at h
  obtain ⟨e, he, rfl⟩ := map_eq_some_iff.1 h
  exact (after_eq_some_iff.1 he).2.1

end FlatMap

end Base
