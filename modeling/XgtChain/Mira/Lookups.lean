import XgtChain.Base.Run
import XgtChain.Mira.Indices
import XgtChain.Mira.BulkLoad

/-!
# MIRA: lookups through the cache

A session is a container with the iterators that its users have.
-/

open Base (FlatMap Run)

namespace Mira

open Store

open Option

open List

variable {S : Schema} {i : S.Index} {c c' : Container S} {objs : List S.Value} {v v' : S.Value}

namespace Container

def lookup (c : Container S) (i : S.Index) (k : S.Key i) : Option S.Value :=
  let (it, c) := c.find i k
  if it.valid then (it.deref c).map (·.1) else none

def direct (c : Container S) (i : S.Index) (k : S.Key i) : Option S.Value :=
  ((c.store.columns i).find? k).bind (c.load i)

def Stores (c : Container S) (v : S.Value) : Prop := (c.store.columns 0).find? (S.key 0 v) = some (.object v)

/-- A lookup through the cache answers as the store does. -/
def Transparent (c : Container S) : Prop :=
  ∀ i k, c.lookup i k = c.direct i k ∧ ∀ v, c.lookup i k = some v → S.key i v = k ∧ c.Stores v

def lowerBound (c : Container S) (i : S.Index) (k : S.Key i) : Iter S i × Container S :=
  match c.cache.get i k with
  | some (p, cache) => (⟨none, some p⟩, { c with cache := cache })
  | none => (⟨some (c.seek i k), none⟩, c)

def upperBound (c : Container S) (i : S.Index) (k : S.Key i) : Iter S i :=
  let cursor := c.seek i k
  ⟨some { cursor with entry := cursor.entry.bind fun e =>
    if k < e.1 then some e else cursor.column.after e.1 }, none⟩

theorem Sound.stores_iff (h : c.Sound objs) : c.Stores v ↔ v ∈ objs :=
  h.holds.tables.find_object_iff.trans (and_iff_left rfl)

theorem Sound.transparent (h : c.Sound objs) : c.Transparent := by
  intro i k
  by_cases hk : ∃ v ∈ objs, S.key i v = k
  · obtain ⟨v, hv, rfl⟩ := hk
    obtain ⟨it, it', c1, c2, hfind, hvalid, hderef, -⟩ := h.find_deref hv i
    have hlookup : c.lookup i (S.key i v) = some v := by simp [lookup, hfind, hvalid, hderef]
    have hdirect : c.direct i (S.key i v) = some v := by
      rw [direct, h.holds.tables.find_key hv i]
      exact load_entry h.holds.tables hv
    refine ⟨hlookup.trans hdirect.symm, fun w hw => ?_⟩
    obtain rfl := some_inj.1 (hlookup.symm.trans hw)
    exact ⟨rfl, h.stores_iff.2 hv⟩
  · push Not at hk
    obtain ⟨it, hfind, hinvalid⟩ := find_of_not_mem h.coherent h.holds.tables hk
    have hlookup : c.lookup i k = none := by simp [lookup, hfind, hinvalid]
    have hdirect : c.direct i k = none := by
      rw [direct, (h.holds.tables.find?_eq_none_iff i k).2 hk]
      rfl
    exact ⟨hlookup.trans hdirect.symm, fun w hw => by rw [hlookup] at hw; cases hw⟩

end Container

structure Session (S : Schema) where
  container : Container S
  iters : List (Σ i : S.Index, Iter S i)

def Session.empty (S : Schema) : Session S := ⟨Container.empty S, []⟩

inductive CacheEvent (S : Schema) where
  | emplace (v : S.Value)
  | find (i : S.Index) (k : S.Key i)
  | begin (i : S.Index)
  | lowerBound (i : S.Index) (k : S.Key i)
  | upperBound (i : S.Index) (k : S.Key i)
  | copy (a : Nat)
  | drop (a : Nat)
  | deref (a : Nat)
  | next (a : Nat)
  | prev (a : Nat)
  | modify (a : Nat) (mod : S.Value → S.Value)
  | erase (a : Nat)
  | adjustCapacity (cap : Nat)

namespace Session

variable (s : Session S)

def held : List Nat := s.iters.filterMap (·.2.cacheValue)

def add (i : S.Index) (it : Iter S i) (c : Container S) : Session S := ⟨c, s.iters ++ [⟨i, it⟩]⟩

def step : CacheEvent S → Option (Session S)
  | .emplace v => do
    let (it, _, c) ← s.container.emplace v
    some (s.add 0 it c)
  | .find i k =>
    let (it, c) := s.container.find i k
    some (s.add i it c)
  | .begin i => do
    let (it, c) ← s.container.begin i
    some (s.add i it c)
  | .lowerBound i k =>
    let (it, c) := s.container.lowerBound i k
    some (s.add i it c)
  | .upperBound i k => some (s.add i (s.container.upperBound i k) s.container)
  | .copy a => do
    let it ← s.iters[a]?
    some (s.add it.1 (it.2.copy s.container) s.container)
  | .drop a => some { s with iters := s.iters.eraseIdx a }
  | .deref a => do
    let it ← s.iters[a]?
    let (_, it', c) ← it.2.deref s.container
    some ⟨c, s.iters.set a ⟨it.1, it'⟩⟩
  | .next a => do
    let it ← s.iters[a]?
    let it' ← it.2.next s.container
    some { s with iters := s.iters.set a ⟨it.1, it'⟩ }
  | .prev a => do
    let it ← s.iters[a]?
    let it' ← it.2.prev s.container
    some { s with iters := s.iters.set a ⟨it.1, it'⟩ }
  | .modify a mod => do
    let it ← s.iters[a]?
    let (c, _) ← (it.2.copy s.container).modify mod s.container
    some { s with container := c }
  | .erase a => do
    let it ← s.iters[a]?
    let (it', c) ← (it.2.copy s.container).erase s.container
    some (s.add it.1 it' c)
  | .adjustCapacity cap => do
    let cache ← s.container.cache.adjustCapacity s.held cap
    some { s with container := { s.container with cache := cache } }

def position (a : Nat) : Option S.Value := do
  let it ← s.iters[a]?
  ((it.2.copy s.container).deref s.container).map (·.1)

def Permits : CacheEvent S → Prop
  | .modify a _ | .erase a => ∀ v, s.position a = some v → s.container.Stores v
  | _ => True

/-- One permitted event. -/
def Step (e : CacheEvent S) (s' : Session S) : Prop := s.Permits e ∧ s.step e = some s'

/-- What a cursor loads is still stored. -/
def LoadsCurrent : CacheEvent S → Prop
  | .deref a => ∀ it : Iter S 0, s.iters[a]? = some ⟨0, it⟩ → it.cacheValue = none →
      ∀ e, it.cursor.bind (·.entry) = some e → (s.container.cache.caches 0).find? e.1 = none →
        (s.container.store.columns 0).find? e.1 = some e.2
  | _ => True

end Session

structure Cursor.Keyed (cursor : Cursor S i) : Prop where
  entries : ∀ e ∈ cursor.column.entries, ∃ v, e = (S.key i v, S.entry i v)
  entry : ∀ e, cursor.entry = some e → e ∈ cursor.column.entries

def Iter.Keyed (it : Iter S i) : Prop := ∀ cursor, it.cursor = some cursor → cursor.Keyed

open Iter

variable {held : Option Nat}

theorem Iter.keyed_none : Keyed (i := i) ⟨none, held⟩ := fun _ h => by cases h

theorem Cursor.Keyed.iter {cursor : Cursor S i} (h : cursor.Keyed) :
    Iter.Keyed ⟨some cursor, held⟩ := fun _ hcursor => by cases hcursor; exact h

section

variable (ht : Tables c.store.columns objs)
include ht

theorem Tables.keyed {entry : Option (S.Key i × Entry S)}
    (hentry : ∀ e, entry = some e → e ∈ (c.store.columns i).entries) :
    Cursor.Keyed ⟨c.store.columns i, entry⟩ where
  entries e he := by
    obtain ⟨v, -, hkey, hstored⟩ := (ht.find_iff i e.1 e.2).1 (FlatMap.find?_eq_some_iff.2 he)
    exact ⟨v, by rw [hkey, hstored]⟩
  entry := hentry

theorem Tables.keyed_newCursor : (c.newCursor i).Keyed :=
  ht.keyed fun _ h => by cases h

theorem Tables.keyed_seek (k : S.Key i) : (c.seek i k).Keyed :=
  ht.keyed fun _ h => mem_of_find?_eq_some h

end

namespace Cursor.Keyed

variable {cursor cursor' : Cursor S i}

theorem next (h : cursor.Keyed) (hnext : cursor.next = some cursor') : cursor'.Keyed := by
  obtain ⟨e, -, rfl⟩ := map_eq_some_iff.1 hnext
  exact ⟨h.entries, fun _ he => mem_of_find?_eq_some he⟩

theorem prev (h : cursor.Keyed) (hprev : cursor.prev = some cursor') : cursor'.Keyed := by
  obtain ⟨e, -, rfl⟩ := map_eq_some_iff.1 hprev
  exact ⟨h.entries, fun _ he => mem_reverse.1 (mem_of_find?_eq_some he)⟩

end Cursor.Keyed

/-- What steps of a cursor and new cursors have, the cursor of an iterator that moves has. -/
theorem Iter.move_cursor {P : Cursor S i → Prop} {it it' : Iter S i} {step : Cursor S i → Option (Cursor S i)}
    (hstep : ∀ {cursor cursor' : Cursor S i}, P cursor → step cursor = some cursor' → P cursor')
    (h : ∀ cursor, it.cursor = some cursor → P cursor) (hseek : ∀ k, P (c.seek i k)) (hnew : P (c.newCursor i))
    (hmove : it.move c step = some it') (cursor : Cursor S i)
      (hcursor : it'.cursor = some cursor) : P cursor := by
  obtain ⟨old, held⟩ := it
  -- a cursor that is there moves; an iterator with a pointer alone gets a new one
  cases old with
  | some old =>
    have hmoved : (step old).bind (fun cursor' => some ⟨some cursor', none⟩) = some it' := by
      cases held <;> exact hmove
    obtain ⟨cursor', hcursor', hsome⟩ := bind_eq_some_iff.1 hmoved
    cases hsome
    cases hcursor
    exact hstep (h old rfl) hcursor'
  | none =>
    cases held with
    | none => cases hmove
    | some p =>
      simp only [move, bind_eq_bind, bind_eq_some_iff] at hmove
      obtain ⟨v, -, hmove⟩ := hmove
      split_ifs at hmove
      · obtain ⟨cursor', hcursor', hsome⟩ := bind_eq_some_iff.1 hmove
        cases hsome
        cases hcursor
        exact hstep (hseek _) hcursor'
      · cases hmove
        cases hcursor
        exact hnew

namespace Iter.Keyed

variable {it it' : Iter S i}

theorem copy (it : Iter S i) (ht : Tables c.store.columns objs) : (it.copy c).Keyed := by
  intro cursor hcursor
  obtain ⟨old, -, rfl⟩ := map_eq_some_iff.1 hcursor
  cases old.entry with
  | none => exact ht.keyed_newCursor
  | some e => exact ht.keyed_seek e.1

variable (h : it.Keyed) (ht : Tables c.store.columns objs)
include h ht

theorem next (hnext : it.next c = some it') : it'.Keyed := by
  refine Iter.move_cursor (fun hk hstep => hk.next hstep) ?_ ht.keyed_seek ht.keyed_newCursor hnext
  split_ifs
  · exact h
  · exact ht.keyed_newCursor.iter

theorem prev (hprev : it.prev c = some it') : it'.Keyed := by
  unfold Iter.prev at hprev
  split_ifs at hprev
  · exact Iter.move_cursor (fun hk hstep => hk.prev hstep) h ht.keyed_seek ht.keyed_newCursor hprev
  · cases hprev
    exact (ht.keyed fun _ he => mem_of_getLast? he).iter

end Iter.Keyed

/-! ## Reads -/

variable {it it' : Iter S i}

theorem Iter.deref_cases (h : it.deref c = some (v, it', c')) :
    (∃ p, it.cacheValue = some p ∧ c.cache.heap[p]? = some v ∧ it' = it ∧ c' = c) ∨
    it.cacheValue = none ∧ ∃ e p, it.cursor.bind (·.entry) = some e ∧ it' = { it with cacheValue := some p } ∧
      ((c.cache.caches i).find? e.1 = some p ∧ c.cache.heap[p]? = some v ∧
          c' = { c with cache := c.cache.touch p } ∨
        (c.cache.caches i).find? e.1 = none ∧ c.load i e.2 = some v ∧
          ∃ cache', c.cache.cache v = some (p, cache') ∧ c' = { c with cache := cache' }) := by
  unfold deref at h
  cases hheld : it.cacheValue with
  | some p =>
    simp only [hheld, bind_eq_bind, bind_eq_some_iff] at h
    obtain ⟨w, hw, heq⟩ := h
    cases heq
    exact .inl ⟨p, rfl, hw, rfl, rfl⟩
  | none =>
    simp only [hheld, bind_eq_bind] at h
    obtain ⟨e, he, h⟩ := bind_eq_some_iff.1 h
    cases hfind : (c.cache.caches i).find? e.1 with
    | some p =>
      simp only [Cache.get, hfind, map_some] at h
      obtain ⟨w, hw, heq⟩ := bind_eq_some_iff.1 h
      cases heq
      exact .inr ⟨rfl, e, p, he, rfl, .inl ⟨hfind, hw, rfl⟩⟩
    | none =>
      simp only [Cache.get, hfind, map_none] at h
      obtain ⟨w, hw, h⟩ := bind_eq_some_iff.1 h
      obtain ⟨⟨p, cache'⟩, hcache, heq⟩ := bind_eq_some_iff.1 h
      cases heq
      exact .inr ⟨rfl, e, p, he, rfl, .inr ⟨hfind, hw, cache', hcache, rfl⟩⟩

theorem Iter.Keyed.deref (h : it.Keyed) (hderef : it.deref c = some (v, it', c')) : it'.Keyed := by
  rcases deref_cases hderef with ⟨p, -, -, rfl, -⟩ | ⟨-, e, p, -, rfl, -⟩
  · exact h
  · exact h

namespace Container.Sound

theorem cache_stored (h : c.Sound objs) (hv : v ∈ objs) {p : Nat} {cache' : Cache S}
    (hcache : c.cache.cache v = some (p, cache')) : Sound { c with cache := cache' } objs := by
  have hnot : ¬c.cache.Has v := fun hhas => by
    obtain ⟨q, -, -, hmaps⟩ := h.coherent.find?_of_has hhas
    unfold Cache.cache at hcache
    split_ifs at hcache with hnone
    cases (hnone 0).symm.trans (hmaps 0)
  obtain ⟨cache'', hcache'', hcoherent, -⟩ := h.coherent.cache h.holds.tables hv hnot
  rw [hcache''] at hcache
  cases hcache
  exact ⟨h.holds, hcoherent⟩

variable {it it' : Iter S i} {status : Bool} {k : S.Key i}

section

variable (h : c.Sound objs)
include h

theorem deref (hderef : it.deref c = some (v, it', c'))
    (hload : ∀ e, it.cacheValue = none → it.cursor.bind (·.entry) = some e →
      (c.cache.caches i).find? e.1 = none →
      c.load i e.2 = some v → v ∈ objs) : c'.Sound objs := by
  rcases deref_cases hderef with ⟨p, -, -, -, rfl⟩ | ⟨hheld, e, p, he, -, hcases⟩
  · exact h
  · rcases hcases with ⟨hfind, -, rfl⟩ | ⟨hfind, hv, cache', hcache, rfl⟩
    · exact h.of_reads (get_of_find? h.coherent hfind).2
    · exact h.cache_stored (hload e hheld he hfind hv) hcache

theorem load_secondary (hi : i ≠ 0) {e : Entry S} (hload : c.load i e = some v) : v ∈ objs := by
  rw [load, if_neg hi] at hload
  obtain ⟨id, -, hload⟩ := bind_eq_some_iff.1 hload
  obtain ⟨stored, hstored, hobject⟩ := bind_eq_some_iff.1 hload
  obtain rfl : stored = .object v := by
    cases stored with
    | object w => exact congrArg _ (some_inj.1 hobject)
    | id k => cases hobject
  exact (h.holds.tables.find_object_iff.1 hstored).1

theorem deref_copy (hderef : (it.copy c).deref c = some (v, it', c')) : c'.Sound objs := by
  refine h.deref hderef fun e _ he _ hload => ?_
  obtain ⟨cursor, hcursor, hentry⟩ := bind_eq_some_iff.1 he
  have hkeyed := Keyed.copy it h.holds.tables cursor hcursor
  have hcolumn : cursor.column = c.store.columns i := by
    obtain ⟨old, -, rfl⟩ := map_eq_some_iff.1 hcursor
    cases old.entry <;> rfl
  have hmem := hkeyed.entry e hentry
  rw [hcolumn] at hmem
  obtain ⟨w, hw, -, hstored⟩ := (h.holds.tables.find_iff i e.1 e.2).1 (FlatMap.find?_eq_some_iff.2 hmem)
  rw [← hstored, load_entry h.holds.tables hw] at hload
  cases hload
  exact hw

theorem of_modify_ {mod : S.Value → S.Value} (hv : v ∈ objs)
    (hmodify : c.modify_ v mod = some (c', status)) : ∃ objs', c'.Sound objs' := by
  by_cases hm : Tables.Modifies c.store.columns v (mod v)
  · have h' := h.perm (h.holds.tables.perm_others hv)
    obtain ⟨c1, heq, hholds, hc1, -⟩ := h'.modify_eq hm
    rw [heq] at hmodify
    obtain ⟨cache', hupdate, hc'⟩ := map_eq_some_iff.1 hmodify
    cases hc'
    -- the update finds the object in the cache, so it was cached
    obtain ⟨p, hp, -⟩ := bind_eq_some_iff.1 hupdate
    rw [hm.1] at hp
    have hhas := (hc1.isSome_find?_iff h'.holds.tables (.head _) 0).1 (by rw [hp]; rfl)
    obtain ⟨cache'', hupdate', hcoherent⟩ := hc1.update h'.holds.tables hm hhas (mem_modifiedIndices hm.1)
    rw [hupdate'] at hupdate
    cases hupdate
    exact ⟨_, hholds, hcoherent⟩
  · obtain ⟨c'', heq, hsound⟩ := h.modify_refused hm
    rw [heq] at hmodify
    cases hmodify
    exact ⟨objs, hsound⟩

theorem of_erase_ (hv : v ∈ objs) (herase : c.erase_ v = some c') : ∃ objs', c'.Sound objs' := by
  have h' := h.perm (h.holds.tables.perm_others hv)
  obtain ⟨c1, heq, hholds, hc1, -⟩ := h'.erase_eq
  rw [heq] at herase
  obtain ⟨cache', hinv, rfl⟩ := map_eq_some_iff.1 herase
  have hhas : c1.cache.Has v := by
    unfold Cache.invalidate at hinv
    split_ifs at hinv with hfound
    exact (hc1.isSome_find?_iff h'.holds.tables (.head _) 0).1 (hfound 0)
  obtain ⟨cache'', hinv', hcoherent, hnot⟩ := hc1.invalidate hhas
  rw [hinv'] at hinv
  cases hinv
  exact ⟨_, hholds, hcoherent.of_not_has hnot⟩

theorem get {p : Nat} {cache' : Cache S}
    (hget : c.cache.get i k = some (p, cache')) : Sound { c with cache := cache' } objs := by
  obtain ⟨q, hq, heq⟩ := map_eq_some_iff.1 hget
  cases heq
  exact h.of_reads (get_of_find? h.coherent hq).2

theorem find (k : S.Key i) : (c.find i k).2.Sound objs ∧ (c.find i k).1.Keyed := by
  unfold Container.find
  cases hget : c.cache.get i k with
  | some found => exact ⟨h.get hget, Iter.keyed_none⟩
  | none =>
    refine ⟨h, Cursor.Keyed.iter ?_⟩
    split_ifs
    · exact h.holds.tables.keyed_seek k
    · exact h.holds.tables.keyed_newCursor

theorem lowerBound (k : S.Key i) : (c.lowerBound i k).2.Sound objs ∧ (c.lowerBound i k).1.Keyed := by
  unfold Container.lowerBound
  cases hget : c.cache.get i k with
  | some found => exact ⟨h.get hget, Iter.keyed_none⟩
  | none => exact ⟨h, (h.holds.tables.keyed_seek k).iter⟩

theorem upperBound (k : S.Key i) : (c.upperBound i k).Keyed := by
  refine Cursor.Keyed.iter (h.holds.tables.keyed fun e he => ?_)
  obtain ⟨e', he', he⟩ := bind_eq_some_iff.1 he
  split_ifs at he
  · cases he
    exact mem_of_find?_eq_some he'
  · exact mem_of_find?_eq_some he

theorem makeIterator (hmake : c.makeIterator i k = some (it, c')) : c'.Sound objs ∧ it.Keyed := by
  unfold Container.makeIterator at hmake
  cases hget : c.cache.get i k with
  | some found =>
    rw [hget] at hmake
    cases hmake
    exact ⟨h.get hget, Iter.keyed_none⟩
  | none =>
    rw [hget] at hmake
    dsimp only at hmake
    split_ifs at hmake
    cases hmake
    exact ⟨h, (h.holds.tables.keyed_seek k).iter⟩

theorem of_begin (hbegin : c.begin i = some (it, c')) : c'.Sound objs ∧ it.Keyed := by
  unfold Container.begin at hbegin
  cases hfirst : c.store.firstKey i with
  | some k =>
    rw [hfirst] at hbegin
    exact h.makeIterator hbegin
  | none =>
    rw [hfirst] at hbegin
    cases hbegin
    exact ⟨h, (h.holds.tables.keyed fun _ he => mem_of_head? he).iter⟩

theorem of_emplace {it : Iter S 0}
    (hemplace : c.emplace v = some (it, status, c')) : (∃ objs', c'.Sound objs') ∧ it.Keyed := by
  by_cases hfree : Free c.store.columns v
  · obtain ⟨p, c'', heq, hsound⟩ := h.emplace hfree
    rw [heq] at hemplace
    cases hemplace
    exact ⟨⟨_, hsound⟩, keyed_none⟩
  · rw [h.emplace_refused hfree] at hemplace
    cases hemplace
    exact ⟨⟨objs, h⟩, keyed_none⟩

end

end Container.Sound

/-! ## Runs -/

namespace Session

variable {s s' : Session S} {a : Nat} {it : Iter S i}

structure Inv (s : Session S) : Prop where
  sound : ∃ objs, s.container.Sound objs
  keyed : ∀ it ∈ s.iters, it.2.Keyed

theorem Inv.empty : (Session.empty S).Inv := ⟨⟨[], .empty S⟩, by simp [Session.empty]⟩

theorem Inv.add (h : s.Inv) (hsound : ∃ objs, c.Sound objs) (hit : it.Keyed) : (s.add i it c).Inv := by
  refine ⟨hsound, fun it' hmem => ?_⟩
  rcases mem_append.1 hmem with hmem | hmem
  · exact h.keyed it' hmem
  · rw [mem_singleton.1 hmem]
    exact hit

theorem Inv.set (h : s.Inv) (hsound : ∃ objs, c.Sound objs) (hit : it.Keyed) :
    Inv ⟨c, s.iters.set a ⟨i, it⟩⟩ := by
  refine ⟨hsound, fun it' hmem => ?_⟩
  rcases mem_or_eq_of_mem_set hmem with hmem | rfl
  · exact h.keyed it' hmem
  · exact hit

theorem Inv.step {e : CacheEvent S} (h : s.Inv) (hstep : s.Step e s') (hread : ∀ a, e ≠ .deref a) : s'.Inv := by
  obtain ⟨objs, hsound⟩ := h.sound
  have ht := hsound.holds.tables
  obtain ⟨hpermits, hstep⟩ := hstep
  cases e with
  | emplace v =>
    obtain ⟨⟨it, status, c⟩, hemplace, hs'⟩ := bind_eq_some_iff.1 hstep
    cases hs'
    obtain ⟨hc, hit⟩ := hsound.of_emplace hemplace
    exact h.add hc hit
  | find i k =>
    cases hstep
    exact h.add ⟨objs, (hsound.find k).1⟩ (hsound.find k).2
  | begin i =>
    obtain ⟨⟨it, c⟩, hbegin, hs'⟩ := bind_eq_some_iff.1 hstep
    cases hs'
    obtain ⟨hc, hit⟩ := hsound.of_begin hbegin
    exact h.add ⟨objs, hc⟩ hit
  | lowerBound i k =>
    cases hstep
    exact h.add ⟨objs, (hsound.lowerBound k).1⟩ (hsound.lowerBound k).2
  | upperBound i k =>
    cases hstep
    exact h.add h.sound (hsound.upperBound k)
  | copy a =>
    obtain ⟨it, -, hs'⟩ := bind_eq_some_iff.1 hstep
    cases hs'
    exact h.add h.sound (.copy _ ht)
  | drop a =>
    cases hstep
    exact ⟨h.sound, fun it hmem => h.keyed it (mem_of_mem_eraseIdx hmem)⟩
  | deref a => exact absurd rfl (hread a)
  | next a =>
    obtain ⟨it, hit, hs'⟩ := bind_eq_some_iff.1 hstep
    obtain ⟨it', hnext, hs'⟩ := bind_eq_some_iff.1 hs'
    cases hs'
    exact h.set h.sound ((h.keyed it (mem_of_getElem? hit)).next ht hnext)
  | prev a =>
    obtain ⟨it, hit, hs'⟩ := bind_eq_some_iff.1 hstep
    obtain ⟨it', hprev, hs'⟩ := bind_eq_some_iff.1 hs'
    cases hs'
    exact h.set h.sound ((h.keyed it (mem_of_getElem? hit)).prev ht hprev)
  | modify a mod =>
    obtain ⟨it, hit, hs'⟩ := bind_eq_some_iff.1 hstep
    obtain ⟨⟨c, status⟩, hmodify, hs'⟩ := bind_eq_some_iff.1 hs'
    cases hs'
    obtain ⟨⟨v, it', c1⟩, hderef, hmodify⟩ := bind_eq_some_iff.1 hmodify
    have hposition : s.position a = some v := by simp [position, hit, hderef]
    have hc1 := hsound.deref_copy hderef
    exact ⟨hc1.of_modify_ (hsound.stores_iff.1 (hpermits v hposition)) hmodify, h.keyed⟩
  | erase a =>
    obtain ⟨it, hit, hs'⟩ := bind_eq_some_iff.1 hstep
    obtain ⟨⟨it', c⟩, herase, hs'⟩ := bind_eq_some_iff.1 hs'
    cases hs'
    obtain ⟨⟨v, it1, c1⟩, hderef, herase⟩ := bind_eq_some_iff.1 herase
    obtain ⟨it2, hnext, herase⟩ := bind_eq_some_iff.1 herase
    obtain ⟨c2, herase, heq⟩ := bind_eq_some_iff.1 herase
    cases heq
    have hposition : s.position a = some v := by simp [position, hit, hderef]
    have hc1 := hsound.deref_copy hderef
    have hit1 := (Keyed.copy it.2 ht).deref hderef
    exact h.add (hc1.of_erase_ (hsound.stores_iff.1 (hpermits v hposition)) herase)
      (hit1.next hc1.holds.tables hnext)
  | adjustCapacity cap =>
    obtain ⟨cache, hcache, hs'⟩ := bind_eq_some_iff.1 hstep
    cases hs'
    obtain ⟨cache', hcache', hcoherent⟩ := hsound.coherent.adjustCapacity s.held cap
    rw [hcache'] at hcache
    cases hcache
    exact ⟨⟨objs, hsound.holds, hcoherent⟩, h.keyed⟩

theorem Inv.deref (h : s.Inv) (hstep : s.step (.deref a) = some s') (hcurrent : s.LoadsCurrent (.deref a)) :
    s'.Inv := by
  obtain ⟨objs, hsound⟩ := h.sound
  obtain ⟨⟨i, it⟩, hit, hs'⟩ := bind_eq_some_iff.1 hstep
  obtain ⟨⟨v, it', c⟩, hderef, hs'⟩ := bind_eq_some_iff.1 hs'
  cases hs'
  refine h.set ⟨objs, hsound.deref hderef fun e hheld he hfind hload => ?_⟩
    ((h.keyed _ (mem_of_getElem? hit)).deref hderef)
  by_cases hi : i = 0
  · subst hi
    have hstored := hcurrent it hit hheld e he hfind
    obtain ⟨w, hw, -, hentry⟩ := (hsound.holds.tables.find_iff 0 _ _).1 hstored
    rw [← hentry, Container.load_entry hsound.holds.tables hw] at hload
    cases hload
    exact hw
  · exact hsound.load_secondary hi hload

theorem lookup_cached {p : Nat} {cache' : Cache S} (hcache : c.cache.cache v = some (p, cache')) (i : S.Index) :
    Container.lookup { c with cache := cache' } i (S.key i v) = some v := by
  unfold Cache.cache at hcache
  split_ifs at hcache
  cases hcache
  simp [Container.lookup, Container.find, Cache.get, FlatMap.find?_set, valid, deref, Cache.touch]

theorem loadsCurrent_of_transparent (h : s.Inv) (hstep : s.step (.deref a) = some s')
    (ht : s'.container.Transparent) : s.LoadsCurrent (.deref a) := by
  intro it hit hheld e he hfind
  obtain ⟨it0, hit0, hs'⟩ := bind_eq_some_iff.1 hstep
  rw [hit] at hit0
  cases hit0
  obtain ⟨⟨v, it', c⟩, hderef, hs'⟩ := bind_eq_some_iff.1 hs'
  cases hs'
  -- the cursor is at an entry of an object, and that object was loaded
  obtain ⟨cursor, hcursor, hentry⟩ := bind_eq_some_iff.1 he
  have hkeyed := h.keyed _ (mem_of_getElem? hit) cursor hcursor
  obtain ⟨w, rfl⟩ := hkeyed.entries e (hkeyed.entry e hentry)
  rcases deref_cases hderef with ⟨p, hheld', -⟩ | ⟨-, e', p, he', -, hcases⟩
  · rw [hheld] at hheld'
    cases hheld'
  · rw [he] at he'
    cases he'
    rcases hcases with ⟨hfind', -⟩ | ⟨-, hload, cache', hcache, rfl⟩
    · rw [hfind] at hfind'
      cases hfind'
    · obtain rfl : w = v := some_inj.1 hload
      exact ((ht 0 _).2 w (lookup_cached hcache 0)).2

theorem transparent_iff {events : List (Session S × CacheEvent S)}
    (hrun : Run Step (Session.empty S) events s) :
    ((∀ event ∈ events, event.1.container.Transparent) ∧ s.container.Transparent) ↔
      ∀ event ∈ events, event.1.LoadsCurrent event.2 := by
  refine hrun.invariant_iff (J := Inv) (I := fun s => s.container.Transparent)
    (C := fun event => event.1.LoadsCurrent event.2) Inv.empty ?_ ?_
  · rintro s ⟨⟨objs, hsound⟩, -⟩
    exact hsound.transparent
  · intro s s' e h hstep
    by_cases hread : ∃ a, e = .deref a
    · obtain ⟨a, rfl⟩ := hread
      exact ⟨h.deref hstep.2, loadsCurrent_of_transparent h hstep.2⟩
    · push Not at hread
      refine ⟨fun _ => h.step hstep hread, fun _ => ?_⟩
      cases e with
      | deref a => exact absurd rfl (hread a)
      | _ => trivial

theorem reload_run : ∃ (events : List (Session pairs × CacheEvent pairs)) (s : Session pairs),
    Run Step (Session.empty pairs) events s ∧ s.container.cache.lru.length = 1 ∧
      ∀ event ∈ events, event.1.LoadsCurrent event.2 := by
  refine ⟨_, _, Run.cons (e := .emplace (1, 10)) ⟨?_, rfl⟩ <| Run.cons (e := .drop 0) ⟨?_, rfl⟩ <|
    Run.cons (e := .adjustCapacity 0) ⟨?_, rfl⟩ <| Run.cons (e := .find 0 (1 : Nat)) ⟨?_, rfl⟩ <|
    Run.cons (e := .deref 0) ⟨?_, rfl⟩ Run.nil, rfl, ?_⟩
  iterate 5 exact trivial
  simp only [forall_mem_cons]
  refine ⟨trivial, trivial, trivial, trivial, ?_, by simp⟩
  intro it hit hheld e he hfind
  cases hit
  cases he
  rfl

theorem transparent_reload :
    ∃ (events : List (Session pairs × CacheEvent pairs)) (s : Session pairs),
    Run Step (Session.empty pairs) events s ∧ s.container.cache.lru.length = 1 ∧ s.container.Transparent := by
  obtain ⟨events, s, hrun, hcached, hloads⟩ := reload_run
  exact ⟨events, s, hrun, hcached, ((transparent_iff hrun).2 hloads).2⟩

theorem old_value_found : ∃ (events : List (Session pairs × CacheEvent pairs)) (s : Session pairs),
    Run Step (Session.empty pairs) events s ∧ s.container.lookup 0 (1 : Nat) = some (1, 10) ∧
      s.container.direct 0 (1 : Nat) = some (1, 20) ∧ s.container.lookup 1 (10 : Nat) = some (1, 10) ∧
      s.container.direct 1 (10 : Nat) = none := by
  refine ⟨_, _, Run.cons (e := .emplace (1, 10)) ⟨?_, rfl⟩ <| Run.cons (e := .drop 0) ⟨?_, rfl⟩ <|
    Run.cons (e := .adjustCapacity 0) ⟨?_, rfl⟩ <| Run.cons (e := .find 0 (1 : Nat)) ⟨?_, rfl⟩ <|
    Run.cons (e := .find 0 (1 : Nat)) ⟨?_, rfl⟩ <|
    Run.cons (e := .modify 1 fun v => (v.1, 20)) ⟨?_, rfl⟩ <|
    Run.cons (e := .drop 1) ⟨?_, rfl⟩ <| Run.cons (e := .adjustCapacity 0) ⟨?_, rfl⟩ <|
    Run.cons (e := .deref 0) ⟨?_, rfl⟩ Run.nil, rfl, rfl, rfl, rfl⟩
  iterate 5 exact trivial
  · intro v hv
    cases hv
    rfl
  all_goals exact trivial

end Session

end Mira
