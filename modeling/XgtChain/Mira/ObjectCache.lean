import XgtChain.Mira.Contents

/-!
# MIRA: the object cache

`multi_index_cache_manager` keeps objects as shared pointers.
-/

open Base (FlatMap)

namespace Mira

open Option

open List

variable {S : Schema}

structure Cache (S : Schema) where
  caches : (i : S.Index) → FlatMap (S.Key i) Nat
  heap : List S.Value
  lru : List Nat

namespace Cache

def empty (S : Schema) : Cache S := ⟨fun _ => FlatMap.empty, [], []⟩

variable (c : Cache S) (held : List Nat) (v : S.Value) (p : Nat)

def touch : Cache S := { c with lru := p :: c.lru.erase p }

def get (i : S.Index) (k : S.Key i) : Option (Nat × Cache S) :=
  ((c.caches i).find? k).map fun p => (p, c.touch p)

def cache : Option (Nat × Cache S) :=
  -- assert( r.second == true )
  if ∀ i, (c.caches i).find? (S.key i v) = none then
    let p := c.heap.length
    some (p, ⟨fun i => (c.caches i).set (S.key i v) p, c.heap ++ [v], p :: c.lru⟩)
  else none

def update (id : S.Key 0) (v' : S.Value) (modified : List S.Index) : Option (Cache S) := do
  -- `_cache[ key( k ) ]` makes a null pointer where the object is not cached
  let p ← (c.caches 0).find? id
  let v ← c.heap[p]?
  -- assert( n == 1 ), then assert( r.second == true )
  if ∀ i ∈ modified, ((c.caches i).find? (S.key i v)).isSome ∧
      ((c.caches i).erase (S.key i v)).find? (S.key i v') = none then
    let caches i :=
      if i ∈ modified then ((c.caches i).erase (S.key i v)).set (S.key i v') p else c.caches i
    some ((⟨caches, c.heap.set p v', c.lru⟩ : Cache S).touch p)
  else none

def invalidate : Option (Cache S) := do
  -- assert( n == 1 ), assert( it != _cache.end() )
  if ∀ i, ((c.caches i).find? (S.key i v)).isSome then
    let p ← (c.caches (Fin.last _)).find? (S.key (Fin.last _) v)
    some ⟨fun i => (c.caches i).erase (S.key i v), c.heap, c.lru.erase p⟩
  else none

def useCount : Nat :=
  ((List.finRange _).map fun i => (c.caches i).entries.countP (·.2 = p)).sum + held.count p

def trimLast : Option (Cache S) := do
  let p ← c.lru.getLast?
  if c.useCount held p ≤ S.more + 1 then
    c.invalidate (← c.heap[p]?)
  else
    some (c.touch p)

def adjustLoop (held : List Nat) (cap : Nat) : Nat → Cache S → Option (Cache S)
  | 0, c => some c
  | attempts + 1, c => do
    let c ← c.trimLast held
    if cap < c.lru.length then adjustLoop held cap attempts c else some c

def adjustCapacity (cap : Nat) : Option (Cache S) :=
  if cap < c.lru.length then adjustLoop held cap (c.lru.length - cap) c else some c

structure Coherent (c : Cache S) (objs : List S.Value) : Prop where
  nodup : c.lru.Nodup
  current : ∀ p ∈ c.lru, ∃ v ∈ objs, c.heap[p]? = some v
  find_iff : ∀ i k p, (c.caches i).find? k = some p ↔ p ∈ c.lru ∧ ∃ v, c.heap[p]? = some v ∧ S.key i v = k

def Has : Prop := ∃ p ∈ c.lru, c.heap[p]? = some v

def Extends (c c' : Cache S) : Prop := ∀ v, c.Has v → c'.Has v

theorem Extends.refl : Extends c c := fun _ h => h

theorem Extends.trans {c c' c'' : Cache S} (h : Extends c c') (h' : Extends c' c'') : Extends c c'' :=
  fun v hv => h' v (h v hv)

namespace Coherent

variable {c} {objs : List S.Value} {v} {v' : S.Value}
variable {p} {columns : Columns S} {objs' : List S.Value}

theorem empty (objs : List S.Value) : (Cache.empty S).Coherent objs :=
  ⟨nodup_nil, by simp [Cache.empty], by simp [Cache.empty]⟩

section

variable (h : c.Coherent objs)
include h

theorem of_find? {i : S.Index} {k : S.Key i} (hp : (c.caches i).find? k = some p) :
    ∃ v ∈ objs, c.heap[p]? = some v ∧ S.key i v = k := by
  obtain ⟨hmem, v, hv, hkey⟩ := (h.find_iff i k p).1 hp
  obtain ⟨w, hw, hheap⟩ := h.current p hmem
  obtain rfl : w = v := some_inj.1 (hheap.symm.trans hv)
  exact ⟨w, hw, hv, hkey⟩

theorem find?_of_has (hv : c.Has v) :
    ∃ p ∈ c.lru, c.heap[p]? = some v ∧ ∀ i, (c.caches i).find? (S.key i v) = some p := by
  obtain ⟨p, hp, hheap⟩ := hv
  exact ⟨p, hp, hheap, fun i => (h.find_iff i _ p).2 ⟨hp, v, hheap, rfl⟩⟩

theorem mem_of_has (hv : c.Has v) : v ∈ objs := by
  obtain ⟨p, hp, hheap⟩ := hv
  obtain ⟨w, hw, hheap'⟩ := h.current p hp
  exact some_inj.1 (hheap'.symm.trans hheap) ▸ hw

theorem isSome_find?_iff (ht : Tables columns objs) (hv : v ∈ objs)
    (i : S.Index) : ((c.caches i).find? (S.key i v)).isSome ↔ c.Has v := by
  constructor
  · intro hfound
    obtain ⟨p, hp⟩ := isSome_iff_exists.1 hfound
    obtain ⟨w, hw, hheap, hkey⟩ := h.of_find? hp
    obtain rfl := ht.eq_of_key_eq hw hv hkey
    exact ⟨p, ((h.find_iff i _ p).1 hp).1, hheap⟩
  · intro hhas
    obtain ⟨p, -, -, hmaps⟩ := h.find?_of_has hhas
    rw [hmaps i]
    rfl

theorem find?_eq_none_of_not_has (ht : Tables columns objs)
    (hv : v ∈ objs) (hnot : ¬c.Has v) (i : S.Index) : (c.caches i).find? (S.key i v) = none :=
  not_isSome_iff_eq_none.1 fun hfound => hnot ((h.isSome_find?_iff ht hv i).1 hfound)

theorem perm (hp : objs.Perm objs') : c.Coherent objs' :=
  ⟨h.nodup, fun p hmem => (h.current p hmem).imp fun _ hv => ⟨hp.mem_iff.1 hv.1, hv.2⟩, h.find_iff⟩

theorem mono (hsub : objs ⊆ objs') : c.Coherent objs' :=
  ⟨h.nodup, fun p hmem => (h.current p hmem).imp fun _ hv => ⟨hsub hv.1, hv.2⟩, h.find_iff⟩

end

theorem mem_touch {q : Nat} (hp : p ∈ c.lru) : q ∈ (c.touch p).lru ↔ q ∈ c.lru := by
  by_cases hq : q = p
  · simp [touch, hq, hp]
  · simp [touch, hq, mem_erase_of_ne hq]

theorem touch (h : c.Coherent objs) (hp : p ∈ c.lru) : (c.touch p).Coherent objs where
  nodup := nodup_cons.2 ⟨fun hmem => (h.nodup.mem_erase_iff.1 hmem).1 rfl, h.nodup.erase p⟩
  current q hq := h.current q ((mem_touch hp).1 hq)
  find_iff i k q := by rw [mem_touch hp]; exact h.find_iff i k q

theorem extends_touch (hp : p ∈ c.lru) : Extends c (c.touch p) :=
  fun _ ⟨q, hq, hheap⟩ => ⟨q, (mem_touch hp).2 hq, hheap⟩

theorem lt_length (h : c.Coherent objs) (hp : p ∈ c.lru) : p < c.heap.length := by
  obtain ⟨v, -, hv⟩ := h.current p hp
  exact (List.getElem?_eq_some_iff.1 hv).1

theorem cache (h : c.Coherent objs) (ht : Tables columns objs) (hv : v ∈ objs) (hnot : ¬c.Has v) :
    ∃ c', c.cache v = some (c.heap.length, c') ∧ c'.Coherent objs ∧ Extends c c' ∧
      c.heap.length ∈ c'.lru ∧ c'.heap[c.heap.length]? = some v := by
  have hnone := h.find?_eq_none_of_not_has ht hv hnot
  have hold {p : Nat} (hp : p ∈ c.lru) : (c.heap ++ [v])[p]? = c.heap[p]? :=
    getElem?_append_left (h.lt_length hp)
  have hnew : (c.heap ++ [v])[c.heap.length]? = some v := getElem?_concat_length
  have hfresh : c.heap.length ∉ c.lru := fun hmem => (h.lt_length hmem).false
  refine ⟨_, if_pos hnone, ⟨nodup_cons.2 ⟨hfresh, h.nodup⟩, ?_, ?_⟩, ?_, .head _, hnew⟩
  · intro p hp
    rcases mem_cons.1 hp with rfl | hp
    · exact ⟨v, hv, hnew⟩
    · exact (h.current p hp).imp fun w hw => ⟨hw.1, (hold hp).trans hw.2⟩
  · intro i k p
    rw [FlatMap.find?_set]
    constructor
    · intro hp
      split_ifs at hp with hk
      · cases hp
        exact ⟨.head _, v, hnew, hk.symm⟩
      · obtain ⟨hmem, w, hw, hkey⟩ := (h.find_iff i k p).1 hp
        exact ⟨.tail _ hmem, w, (hold hmem).trans hw, hkey⟩
    · rintro ⟨hmem, w, hw, rfl⟩
      rcases mem_cons.1 hmem with rfl | hmem
      · rw [if_pos (by rw [some_inj.1 (hw.symm.trans hnew)])]
      · -- another cached object has another key
        have hfind := (h.find_iff i (S.key i w) p).2 ⟨hmem, w, (hold hmem).symm.trans hw, rfl⟩
        rw [if_neg, hfind]
        intro hkey
        rw [hkey, hnone i] at hfind
        cases hfind
  · rintro w ⟨p, hp, hheap⟩
    exact ⟨p, .tail _ hp, (hold hp).trans hheap⟩

/-! ### Replacing and taking out -/

theorem update {modified : List S.Index} (h : c.Coherent (v :: objs))
    (ht : Tables columns (v :: objs)) (hm : Tables.Modifies columns v v') (hhas : c.Has v)
    (hmodified : ∀ i, S.key i v' ≠ S.key i v ↔ i ∈ modified) :
    ∃ c', c.update (S.key 0 v') v' modified = some c' ∧ c'.Coherent (v' :: objs) := by
  obtain ⟨p, hp, hheap, hmaps⟩ := h.find?_of_has hhas
  have honly {i : S.Index} {q : Nat} (hq : q ∈ c.lru) {w : S.Value} (hw : c.heap[q]? = some w)
      (hkey : S.key i w = S.key i v) : q = p := by
    have hfind := (h.find_iff i (S.key i v) q).2 ⟨hq, w, hw, hkey⟩
    exact some_inj.1 (hfind.symm.trans (hmaps i))
  have hheap' (q : Nat) : (c.heap.set p v')[q]? = if q = p then some v' else c.heap[q]? := by
    rw [getElem?_set, if_pos (h.lt_length hp)]
    exact if_congr eq_comm rfl rfl
  have hnew {i : S.Index} (hi : i ∈ modified) : (c.caches i).find? (S.key i v') = none := by
    refine eq_none_iff_forall_ne_some.2 fun q hq => ?_
    obtain ⟨w, hw, -, hkey⟩ := h.of_find? hq
    exact (ht.find?_eq_none_iff i _).1 (hm.2 i ((hmodified i).2 hi)) w hw hkey
  have hasserts : ∀ i ∈ modified, ((c.caches i).find? (S.key i v)).isSome ∧
      ((c.caches i).erase (S.key i v)).find? (S.key i v') = none := fun i hi => by
    rw [hmaps i, FlatMap.find?_erase, if_neg ((hmodified i).2 hi)]
    exact ⟨rfl, hnew hi⟩
  refine ⟨_, ?_, touch (c := ⟨fun i => if i ∈ modified then ((c.caches i).erase (S.key i v)).set (S.key i v') p
    else c.caches i, c.heap.set p v', c.lru⟩) ⟨h.nodup, fun q hq => ?_, fun i k q => ?_⟩ hp⟩
  · simp only [Cache.update, hm.1, hmaps 0, hheap, bind_eq_bind, bind_some]
    exact if_pos hasserts
  · rw [hheap']
    split_ifs with hqp
    · exact ⟨v', .head _, rfl⟩
    · obtain ⟨w, hw, hheapq⟩ := h.current q hq
      rcases mem_cons.1 hw with rfl | hw
      · exact absurd (honly (i := 0) hq hheapq rfl) hqp
      · exact ⟨w, .tail _ hw, hheapq⟩
  · -- the pointer of the object is found by its new key, the others as before
    rw [hheap']
    dsimp only
    have hp' : (c.caches i).find? k = some p ↔ S.key i v = k := by
      rw [h.find_iff]
      exact ⟨fun ⟨_, w, hw, hkey⟩ => some_inj.1 (hw.symm.trans hheap) ▸ hkey, fun hkey => ⟨hp, v, hheap, hkey⟩⟩
    by_cases hi : i ∈ modified
    · rw [if_pos hi, FlatMap.find?_set, FlatMap.find?_erase]
      by_cases hqp : q = p
      · subst hqp
        rw [if_pos rfl]
        split_ifs with hk hk'
        · simp [hp, hk]
        · simp [Ne.symm hk]
        · simp [hp', Ne.symm hk, Ne.symm hk']
      · rw [if_neg hqp, ← h.find_iff]
        split_ifs with hk hk'
        · rw [hk, hnew hi]
          simp [Ne.symm hqp]
        · rw [hk', hmaps i]
          simp [Ne.symm hqp]
        · rfl
    · rw [if_neg hi]
      have hkey : S.key i v' = S.key i v := not_not.1 (mt (hmodified i).1 hi)
      by_cases hqp : q = p
      · subst hqp
        simp [hp', hp, hkey]
      · rw [if_neg hqp, h.find_iff]

theorem invalidate (h : c.Coherent objs) (hhas : c.Has v) :
    ∃ c', c.invalidate v = some c' ∧ c'.Coherent objs ∧ ¬c'.Has v := by
  obtain ⟨p, hp, hheap, hmaps⟩ := h.find?_of_has hhas
  have hfound : ∀ i, ((c.caches i).find? (S.key i v)).isSome := fun i => by rw [hmaps i]; rfl
  refine ⟨⟨fun i => (c.caches i).erase (S.key i v), c.heap, c.lru.erase p⟩, ?_, ⟨h.nodup.erase p, ?_, ?_⟩, ?_⟩
  · rw [Cache.invalidate, if_pos hfound, hmaps]
    rfl
  · exact fun q hq => h.current q (mem_of_mem_erase hq)
  · intro i k q
    dsimp only
    rw [FlatMap.find?_erase, h.nodup.mem_erase_iff]
    by_cases hk : k = S.key i v
    · rw [if_pos hk]
      refine iff_of_false (by simp) ?_
      rintro ⟨⟨hne, hq⟩, w, hw, hkey⟩
      have hqfind := (h.find_iff i k q).2 ⟨hq, w, hw, hkey⟩
      rw [hk, hmaps i] at hqfind
      exact hne (some_inj.1 hqfind).symm
    · rw [if_neg hk, h.find_iff]
      refine ⟨fun ⟨hq, w, hw, hkey⟩ => ⟨⟨?_, hq⟩, w, hw, hkey⟩, fun ⟨⟨_, hq⟩, hw⟩ => ⟨hq, hw⟩⟩
      rintro rfl
      exact hk (hkey.symm.trans (congrArg (S.key i) (some_inj.1 (hw.symm.trans hheap))))
  · rintro ⟨q, hq, hheap'⟩
    obtain ⟨hne, hq⟩ := h.nodup.mem_erase_iff.1 hq
    have hqfind := (h.find_iff 0 _ q).2 ⟨hq, v, hheap', rfl⟩
    rw [hmaps 0] at hqfind
    exact hne (some_inj.1 hqfind).symm

theorem of_not_has (h : c.Coherent (v :: objs)) (hnot : ¬c.Has v) : c.Coherent objs := by
  refine ⟨h.nodup, fun p hp => ?_, h.find_iff⟩
  obtain ⟨w, hw, hheap⟩ := h.current p hp
  rcases mem_cons.1 hw with rfl | hw
  · exact absurd ⟨p, hp, hheap⟩ hnot
  · exact ⟨w, hw, hheap⟩

variable (h : c.Coherent objs)
include h

theorem trimLast (held : List Nat) (hne : c.lru ≠ []) :
    ∃ c', c.trimLast held = some c' ∧ c'.Coherent objs := by
  have hlast := getLast?_eq_some_getLast hne
  have hmem := getLast_mem hne
  obtain ⟨v, hv, hheap⟩ := h.current _ hmem
  unfold Cache.trimLast
  rw [hlast, bind_eq_bind, bind_some]
  split_ifs
  · rw [hheap]
    obtain ⟨c', hc', hcoherent, -⟩ := h.invalidate ⟨_, hmem, hheap⟩
    exact ⟨c', hc', hcoherent⟩
  · exact ⟨_, rfl, h.touch hmem⟩

theorem adjustLoop (held : List Nat) {cap : Nat} (hcap : cap < c.lru.length) (attempts : Nat) :
    ∃ c', Cache.adjustLoop held cap attempts c = some c' ∧ c'.Coherent objs := by
  induction attempts generalizing c with
  | zero => exact ⟨c, rfl, h⟩
  | succ attempts ih =>
    obtain ⟨c', hc', hcoherent⟩ := h.trimLast held (ne_nil_of_length_pos (Nat.zero_lt_of_lt hcap))
    simp only [Cache.adjustLoop, hc', bind_eq_bind, bind_some]
    split_ifs with hmore
    · exact ih hcoherent hmore
    · exact ⟨c', rfl, hcoherent⟩

theorem adjustCapacity (held : List Nat) (cap : Nat) :
    ∃ c', c.adjustCapacity held cap = some c' ∧ c'.Coherent objs := by
  unfold Cache.adjustCapacity
  split_ifs with hcap
  · exact h.adjustLoop held hcap _
  · exact ⟨c, rfl, h⟩

end Coherent

end Cache

end Mira
