import Mathlib.Data.List.Basic

/-!
# Binary hash trees

A list is reduced by joining its elements in pairs, round by round, until one is left; an odd last element
goes up as it is (`pairUp`, `reduce`).
-/

namespace Base

open List

variable {α β δ : Type} (join : α → α → α) (l : List α)

def pairUp (join : α → α → α) : List α → List α
  | [] => []
  | [a] => [a]
  | a :: b :: l => join a b :: pairUp join l

theorem length_pairUp : (pairUp join l).length = (l.length + 1) / 2 := by
  fun_induction pairUp join l with
  | case1 => simp
  | case2 a => simp
  | case3 a b l ih =>
    rw [length_cons, ih, length_cons, length_cons]
    omega

def reduce (join : α → α → α) : List α → Option α
  | [] => none
  | [a] => some a
  | a :: b :: l => reduce join (join a b :: pairUp join l)
termination_by l => l.length
decreasing_by
  simp only [length_cons, length_pairUp]
  omega

theorem reduce_pairUp : reduce join (pairUp join l) = reduce join l := by
  rcases l with _ | ⟨a, _ | ⟨b, l⟩⟩
  · rfl
  · rfl
  · rw [pairUp, reduce.eq_3]

def pairAt : Option α → Option α → Option α
  | some a, some b => some (join a b)
  | a, _ => a

theorem getElem?_pairUp (m : Nat) : (pairUp join l)[m]? = pairAt join l[2 * m]? l[2 * m + 1]? := by
  induction m generalizing l with
  | zero => rcases l with _ | ⟨a, _ | ⟨b, l⟩⟩ <;> rfl
  | succ m ih =>
    rcases l with _ | ⟨a, _ | ⟨b, l⟩⟩
    · rfl
    · rfl
    · rw [pairUp, getElem?_cons_succ, ih]
      rfl

section Map

variable {join} {join' : β → β → β} {f : α → β} (hf : ∀ a b, f (join a b) = join' (f a) (f b))
include hf

theorem map_pairUp (l : List α) : (pairUp join l).map f = pairUp join' (l.map f) := by
  fun_induction pairUp join l with
  | case1 => rfl
  | case2 a => rfl
  | case3 a b l ih => rw [map_cons, hf, ih, map_cons, map_cons, pairUp]

theorem reduce_map (l : List α) : reduce join' (l.map f) = (reduce join l).map f := by
  fun_induction reduce join l with
  | case1 => rw [map_nil, reduce, Option.map_none]
  | case2 a => rw [map_singleton, reduce, Option.map_some]
  | case3 a b l ih =>
    rw [map_cons, hf, map_pairUp hf] at ih
    rw [map_cons, map_cons, reduce.eq_3, ih]

end Map

theorem reduce_eq_none_iff {join : α → α → α} {l : List α} : reduce join l = none ↔ l = [] := by
  fun_induction reduce join l with
  | case1 => simp
  | case2 a => simp
  | case3 a b l ih => simpa using ih

inductive HashTree (δ : Type) where
  | leaf (d : δ)
  | node (l r : HashTree δ)

namespace HashTree

def leaves : HashTree δ → List δ
  | leaf d => [d]
  | node l r => l.leaves ++ r.leaves

theorem leaves_reduce (l : List (HashTree δ)) (t : HashTree δ) (h : reduce node l = some t) :
    t.leaves = l.flatMap leaves := by
  have hround (l : List (HashTree δ)) : (pairUp node l).flatMap leaves = l.flatMap leaves := by
    fun_induction pairUp node l with
    | case1 => rfl
    | case2 a => rfl
    | case3 a b l ih => simp only [flatMap_cons, ih, leaves, append_assoc]
  fun_induction reduce node l with
  | case1 => cases h
  | case2 a =>
    cases h
    simp
  | case3 a b l ih =>
    rw [ih h]
    exact hround (a :: b :: l)

def ofList (l : List δ) : Option (HashTree δ) := reduce node (l.map leaf)

theorem leaves_ofList {l : List δ} {t : HashTree δ} (h : ofList l = some t) : t.leaves = l := by
  rw [leaves_reduce _ t h, flatMap_map]
  exact flatMap_singleton' l

section Hash

variable (hash : δ → δ → δ)

def root : HashTree δ → δ
  | leaf d => d
  | node l r => hash l.root r.root

def pairs : HashTree δ → List (δ × δ)
  | leaf _ => []
  | node l r => (l.root hash, r.root hash) :: (l.pairs ++ r.pairs)

theorem reduce_hash (l : List δ) : reduce hash l = (ofList l).map (root hash) := by
  have hroot : l = (l.map leaf).map (root hash) := by
    rw [map_map]
    exact (map_id' l).symm
  conv_lhs => rw [hroot]
  exact reduce_map (fun _ _ => rfl) _

structure CollisionFree (t t' : HashTree δ) : Prop where
  pairs : ∀ p ∈ t.pairs hash, ∀ q ∈ t'.pairs hash, hash p.1 p.2 = hash q.1 q.2 → p = q
  leaves : ∀ d ∈ t.leaves, ∀ q ∈ t'.pairs hash, d ≠ hash q.1 q.2
  leaves' : ∀ p ∈ t.pairs hash, ∀ d ∈ t'.leaves, hash p.1 p.2 ≠ d

variable {hash} {t t' : HashTree δ}

theorem eq_of_root_eq (h : CollisionFree hash t t') (hroot : t.root hash = t'.root hash) : t = t' := by
  induction t generalizing t' with
  | leaf d =>
    cases t' with
    | leaf d' => exact congrArg leaf hroot
    | node l' r' => exact absurd hroot (h.leaves d (.head _) _ (.head _))
  | node l r ihl ihr =>
    cases t' with
    | leaf d' => exact absurd hroot (h.leaves' _ (.head _) d' (.head _))
    | node l' r' =>
      obtain ⟨hl, hr⟩ := Prod.mk.inj (h.pairs _ (.head _) _ (.head _) hroot)
      have hleft : CollisionFree hash l l' := by
        refine ⟨fun p hp q hq => h.pairs p ?_ q ?_, fun d hd q hq => h.leaves d ?_ q ?_,
          fun p hp d hd => h.leaves' p ?_ d ?_⟩
        all_goals simp only [HashTree.pairs, HashTree.leaves, mem_cons, mem_append, *, true_or, or_true]
      have hright : CollisionFree hash r r' := by
        refine ⟨fun p hp q hq => h.pairs p ?_ q ?_, fun d hd q hq => h.leaves d ?_ q ?_,
          fun p hp d hd => h.leaves' p ?_ d ?_⟩
        all_goals simp only [HashTree.pairs, HashTree.leaves, mem_cons, mem_append, *, or_true]
      rw [ihl hleft hl, ihr hright hr]

theorem eq_of_reduce_eq {l l' : List δ} (h : ∀ t ∈ ofList l, ∀ t' ∈ ofList l', CollisionFree hash t t')
    (hroot : reduce hash l = reduce hash l') : l = l' := by
  rw [reduce_hash, reduce_hash] at hroot
  cases ht : ofList l with
  | none =>
    rw [ht, Option.map_none, eq_comm, Option.map_eq_none_iff] at hroot
    have hl : l = [] := by simpa using reduce_eq_none_iff.1 ht
    have hl' : l' = [] := by simpa using reduce_eq_none_iff.1 hroot
    rw [hl, hl']
  | some t =>
    rw [ht, Option.map_some, eq_comm, Option.map_eq_some_iff] at hroot
    obtain ⟨t', ht', heq⟩ := hroot
    have hsame : t = t' := eq_of_root_eq (h t ht t' ht') heq.symm
    rw [← leaves_ofList ht, ← leaves_ofList ht', hsame]

end Hash

end HashTree

end Base
