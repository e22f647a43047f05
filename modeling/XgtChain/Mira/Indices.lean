import XgtChain.Mira.Container

/-!
# MIRA: the indexes of a container agree

After every sequence of insertions, modifications and erasures each index has exactly one entry per object
and begins at the smallest key.
-/

open Base (FlatMap)

namespace Mira

open Tables

open Cache

open Store

open Option

open List

variable {S : Schema} {i : S.Index} {c c' : Container S} {objs : List S.Value} {v v' : S.Value}

namespace Container

/-! ## Reads -/

structure Reads (objs : List S.Value) (c c' : Container S) : Prop where
  store : c'.store = c.store
  coherent : c'.cache.Coherent objs
  more : Extends c.cache c'.cache

theorem Reads.refl (h : c.cache.Coherent objs) : Reads objs c c := ⟨rfl, h, .refl _⟩

theorem Reads.trans {c'' : Container S} (h : Reads objs c c') (h' : Reads objs c' c'') : Reads objs c c'' :=
  ⟨h'.store.trans h.store, h'.coherent, h.more.trans h'.more⟩

theorem get_of_find? (h : c.cache.Coherent objs) {k : S.Key i} {p : Nat}
    (hp : (c.cache.caches i).find? k = some p) :
    c.cache.get i k = some (p, c.cache.touch p) ∧ Reads objs c { c with cache := c.cache.touch p } := by
  have hmem := ((h.find_iff i k p).1 hp).1
  exact ⟨by rw [Cache.get, hp]; rfl, rfl, h.touch hmem, Cache.Coherent.extends_touch hmem⟩

theorem get_eq_none {k : S.Key i} (h : (c.cache.caches i).find? k = none) : c.cache.get i k = none := by
  rw [Cache.get, h]
  rfl

theorem load_entry (ht : Tables c.store.columns objs) (hv : v ∈ objs) : c.load i (S.entry i v) = some v := by
  unfold load
  split_ifs with hi
  · subst hi
    rfl
  · rw [entry_of_ne hi]
    simp only [Entry.id?, bind_some, ht.find_key hv 0, entry_zero, Entry.object?]

end Container

open Container

def Iter.At (it : Iter S i) (c : Container S) (v : S.Value) : Prop :=
  (∃ p ∈ c.cache.lru, it.cacheValue = some p ∧ c.cache.heap[p]? = some v) ∨
    it.cacheValue = none ∧ it.cursor.bind (·.entry) = some (S.key i v, S.entry i v)

theorem Iter.At.valid {it : Iter S i} (h : it.At c v) : it.valid = true := by
  rcases h with ⟨p, -, hp, -⟩ | ⟨hnone, hcursor⟩
  · simp [Iter.valid, hp]
  · simp [Iter.valid, hcursor]

theorem Iter.At.deref {it : Iter S i} (h : it.At c v) (hc : c.cache.Coherent objs)
    (ht : Tables c.store.columns objs) (hv : v ∈ objs) :
    ∃ p c', it.deref c = some (v, { it with cacheValue := some p }, c') ∧ Reads objs c c' ∧
      p ∈ c'.cache.lru ∧ c'.cache.heap[p]? = some v := by
  rcases h with ⟨p, hmem, hp, hheap⟩ | ⟨hnone, hcursor⟩
  · obtain ⟨cursor, cacheValue⟩ := it
    obtain rfl : cacheValue = some p := hp
    refine ⟨p, c, ?_, .refl hc, hmem, hheap⟩
    simp only [Iter.deref, hheap, bind_eq_bind, bind_some]
  · cases hget : (c.cache.caches i).find? (S.key i v) with
    | some p =>
      obtain ⟨hgot, hreads⟩ := get_of_find? hc hget
      obtain ⟨w, hw, hheap, hkey⟩ := hc.of_find? hget
      obtain rfl := ht.eq_of_key_eq hw hv hkey
      have hmem := ((hc.find_iff i _ p).1 hget).1
      refine ⟨p, _, ?_, hreads, (Coherent.mem_touch hmem).2 hmem, hheap⟩
      have htouched : (c.cache.touch p).heap[p]? = some w := hheap
      simp only [Iter.deref, hnone, hcursor, hgot, htouched, bind_eq_bind, bind_some]
    | none =>
      have hnot : ¬c.cache.Has v := fun hhas => by
        have hfound := (hc.isSome_find?_iff ht hv i).2 hhas
        rw [hget] at hfound
        cases hfound
      obtain ⟨cache', hcached, hcoherent, hextends, hmem, hheap⟩ := hc.cache ht hv hnot
      refine ⟨_, { c with cache := cache' }, ?_, ⟨rfl, hcoherent, hextends⟩, hmem, hheap⟩
      simp only [Iter.deref, hnone, hcursor, get_eq_none hget, load_entry ht hv, hcached,
        bind_eq_bind, bind_some]

namespace Container

theorem seek_key (ht : Tables c.store.columns objs) (hv : v ∈ objs) :
    c.seek i (S.key i v) = ⟨c.store.columns i, some (S.key i v, S.entry i v)⟩ :=
  congrArg (Cursor.mk (c.store.columns i)) (FlatMap.seek_of_find? (ht.find_key hv i))

end Container

def Iter.Fresh (it : Iter S i) (c : Container S) (v : S.Value) : Prop :=
  it.cursor = none ∨ it.cursor = some ⟨c.store.columns i, some (S.key i v, S.entry i v)⟩

theorem Iter.At.next {it : Iter S i} (h : it.At c v) (hfresh : it.Fresh c v) (ht : Tables c.store.columns objs)
    (hv : v ∈ objs) :
    it.next c = some ⟨some ⟨c.store.columns i, (c.store.columns i).after (S.key i v)⟩, none⟩ := by
  obtain ⟨cursor, held⟩ := it
  rcases hfresh with hnone | hcursor
  · obtain rfl : cursor = none := hnone
    rcases h with ⟨p, -, hp, hheap⟩ | ⟨-, hentry⟩
    · obtain rfl : held = some p := hp
      simp [Iter.next, Iter.move, Iter.valid, hheap, seek_key ht hv, Cursor.next]
    · cases hentry
  · obtain rfl : cursor = _ := hcursor
    cases held <;> simp [Iter.next, Iter.move, Iter.valid, Cursor.next]

namespace Container

section

variable (hc : c.cache.Coherent objs) (ht : Tables c.store.columns objs)
include hc ht

theorem find_of_mem (hv : v ∈ objs) (i : S.Index) :
    ∃ it c', c.find i (S.key i v) = (it, c') ∧ Reads objs c c' ∧ it.At c' v ∧ it.Fresh c' v := by
  cases hget : (c.cache.caches i).find? (S.key i v) with
  | some p =>
    obtain ⟨hgot, hreads⟩ := get_of_find? hc hget
    obtain ⟨w, hw, hheap, hkey⟩ := hc.of_find? hget
    obtain rfl := ht.eq_of_key_eq hw hv hkey
    have hmem := ((hc.find_iff i _ p).1 hget).1
    exact ⟨⟨none, some p⟩, _, by rw [find, hgot], hreads,
      .inl ⟨p, (Coherent.mem_touch hmem).2 hmem, rfl, hheap⟩, .inl rfl⟩
  | none =>
    refine ⟨⟨some ⟨c.store.columns i, some (S.key i v, S.entry i v)⟩, none⟩, c, ?_, .refl hc, .inr ⟨rfl, rfl⟩,
      .inr rfl⟩
    simp [find, get_eq_none hget, seek_key ht hv]

theorem find_of_not_mem {k : S.Key i}
    (hk : ∀ v ∈ objs, S.key i v ≠ k) : ∃ it, c.find i k = (it, c) ∧ it.valid = false := by
  have hget : (c.cache.caches i).find? k = none :=
    eq_none_iff_forall_ne_some.2 fun p hp => by
      obtain ⟨v, hv, -, hkey⟩ := hc.of_find? hp
      exact hk v hv hkey
  have hcolumn := (ht.find?_eq_none_iff i k).2 hk
  have hother : (c.seek i k).entry.any (·.1 = k) = false := FlatMap.any_seek_eq_false hcolumn
  refine ⟨⟨some (c.newCursor i), none⟩, ?_, rfl⟩
  simp [find, get_eq_none hget, hother]

end

theorem secondKey_eq {s0 : Store S} (hc : c.cache.Coherent objs) (hd : Drafted s0 c.store) (hs0 : s0.Holds objs)
    {f : S.Key i} (hf : c.store.firstKey i = some f) :
    ∃ c', c.secondKey i = some ((c.store.columns i).second, c') ∧ Reads objs c c' := by
  have ht : Tables c.store.columns objs := by rw [hd.columns]; exact hs0.tables
  have hleast : (c.store.columns i).least = some f := by rw [hd.columns, ← hs0.first, ← hd.firstKey, hf]
  obtain ⟨w, hw, rfl⟩ := (ht.isSome_find?_iff i f).1 (FlatMap.least_eq_some_iff.1 hleast).1
  obtain ⟨it, c', hfind, hreads, hat, hfresh⟩ := find_of_mem hc ht hw i
  have ht' : Tables c'.store.columns objs := by rwa [hreads.store]
  have hnext := hat.next hfresh ht' hw
  rw [hreads.store] at hnext
  have hsecond : (c.store.columns i).second = ((c.store.columns i).after (S.key i w)).map (·.1) := by
    rw [FlatMap.second, hleast]
    rfl
  rw [hsecond]
  cases hafter : (c.store.columns i).after (S.key i w) with
  | none =>
    refine ⟨c', ?_, hreads⟩
    simp [secondKey, hf, hfind, hnext, hafter, Iter.valid]
  | some e =>
    have he := (FlatMap.after_eq_some_iff.1 hafter).1
    obtain ⟨u, hu, hkey, hentry⟩ := (ht.find_iff i e.1 e.2).1 (FlatMap.find?_eq_some_iff.2 he)
    have hat : Iter.At (i := i) ⟨some ⟨c.store.columns i, some e⟩, none⟩ c' u :=
      .inr ⟨rfl, by rw [hkey, hentry]; rfl⟩
    obtain ⟨p, c'', hderef, hreads', -, -⟩ := hat.deref hreads.coherent ht' hu
    refine ⟨c'', ?_, hreads.trans hreads'⟩
    simp [secondKey, hf, hfind, hnext, hafter, hat.valid, hderef, hkey]

structure Sound (c : Container S) (objs : List S.Value) : Prop where
  holds : c.store.Holds objs
  coherent : c.cache.Coherent objs

namespace Sound

variable {s0 : Store S} {mod : S.Value → S.Value} {i : S.Index}

theorem empty (S : Schema) : (empty S).Sound [] := ⟨.empty, .empty _⟩

section

variable (h : c.Sound objs)
include h

theorem perm {objs' : List S.Value} (hp : objs.Perm objs') : c.Sound objs' :=
  ⟨h.holds.perm hp, h.coherent.perm hp⟩

theorem of_reads (hr : Reads objs c c') : c'.Sound objs :=
  ⟨by rw [hr.store]; exact h.holds, hr.coherent⟩

theorem emplace (hfree : Free c.store.columns v) :
    ∃ p c', c.emplace v = some (⟨none, some p⟩, true, c') ∧ c'.Sound (v :: objs) := by
  have hholds := h.holds.insert hfree
  have hcoherent : c.cache.Coherent (v :: objs) := h.coherent.mono fun _ hw => .tail _ hw
  have hnot : ¬c.cache.Has v := fun hhas =>
    h.holds.tables.free_iff.1 hfree v (h.coherent.mem_of_has hhas) 0 rfl
  obtain ⟨cache', hcached, hcoherent', -, hmem, hheap⟩ :=
    hcoherent.cache hholds.tables (.head _) hnot
  obtain ⟨p, hp, -, hmaps⟩ := hcoherent'.find?_of_has ⟨_, hmem, hheap⟩
  have hins : c.store.insert_ v = ((c.store.insert_ v).1, true) := by rw [insert_of_free h.holds.ready hfree]
  have hsound : Sound ⟨(c.store.insert_ v).1, cache'⟩ (v :: objs) := ⟨hholds, hcoherent'⟩
  obtain ⟨hgot, hreads⟩ := get_of_find? (c := ⟨(c.store.insert_ v).1, cache'⟩) hcoherent' (hmaps 0)
  refine ⟨p, _, ?_, hsound.of_reads hreads⟩
  rw [Container.emplace, hins]
  simp only [hcached, makeIterator, hgot, bind_eq_bind, bind_some]

theorem emplace_refused (htaken : ¬Free c.store.columns v) :
    c.emplace v = some (.end, false, c) := by
  rw [Container.emplace, insert_of_taken h.holds.ready htaken]

end

theorem eraseAt (hd : Store.Drafted s0 c.store) (hs0 : s0.Holds objs) (hc : c.cache.Coherent objs)
    (i : S.Index) :
    ∃ c', c.eraseAt v i = some c' ∧ c'.store = Store.Holds.eraseDraft s0 v c.store i ∧
      c'.cache.Coherent objs ∧ Extends c.cache c'.cache := by
  unfold Container.eraseAt
  split_ifs with hold
  · obtain ⟨c', hsecond, hreads⟩ := secondKey_eq hc hd hs0 hold
    refine ⟨{ c' with store := c'.store.eraseAt v i (c.store.columns i).second }, ?_, ?_,
      hreads.coherent, hreads.more⟩
    · rw [hsecond]
      rfl
    simp only [Store.eraseAt, Store.Holds.eraseDraft, hreads.store, hd.firstKey, hd.columns]
  · refine ⟨_, rfl, ?_, hc, .refl _⟩
    have hne : s0.firstKey i ≠ some (S.key i v) := hd.firstKey ▸ hold
    simp [Store.eraseAt, Store.Holds.eraseDraft, hd.firstKey, eraseUpdate, eraseDeletes, hne]

theorem foldlM_eraseAt (hs0 : s0.Holds objs) (l : List S.Index) (hd : Drafted s0 c.store)
    (hc : c.cache.Coherent objs) :
    ∃ c', l.foldlM (Container.eraseAt v) c = some c' ∧ c'.store = l.foldl (Holds.eraseDraft s0 v) c.store ∧
      c'.cache.Coherent objs ∧ Extends c.cache c'.cache := by
  induction l generalizing c with
  | nil => exact ⟨c, rfl, rfl, hc, .refl _⟩
  | cons i l ih =>
    obtain ⟨c1, hstep, hstore, hc1, hext⟩ := eraseAt (v := v) hd hs0 hc i
    have hd1 : Drafted s0 c1.store := by rw [hstore]; exact hd.trans (drafted_draft ..)
    obtain ⟨c', hrest, hstore', hc', hext'⟩ := ih hd1 hc1
    refine ⟨c', ?_, ?_, hc', hext.trans hext'⟩
    · rw [foldlM_cons, hstep]
      exact hrest
    · rw [hstore', hstore]
      rfl

theorem erase_eq (h : c.Sound (v :: objs)) :
    ∃ c1 : Container S, c.erase_ v = (c1.cache.invalidate v).map
      (⟨c1.store.publish (c1.store.entryCount - 1), ·⟩) ∧
      (c1.store.publish (c1.store.entryCount - 1)).Holds objs ∧ c1.cache.Coherent (v :: objs) ∧
      Extends c.cache c1.cache := by
  obtain ⟨c1, hfold, hstore, hc1, hext⟩ := foldlM_eraseAt (v := v) h.holds (List.finRange _)
    (.refl _) h.coherent
  have hcount : c1.store.entryCount = c.store.entryCount := by
    rw [hstore]
    exact (drafted_foldl ..).entryCount
  refine ⟨c1, ?_, ?_, hc1, hext⟩
  · simp only [Container.erase_, hfold, bind_eq_bind, bind_some]
    cases c1.cache.invalidate v <;> rfl
  · rw [hcount, hstore]
    exact h.holds.erase

theorem erase_ (h : c.Sound (v :: objs)) (hhas : c.cache.Has v) : ∃ c', c.erase_ v = some c' ∧
    c'.Sound objs := by
  obtain ⟨c1, heq, hholds, hc1, hext⟩ := h.erase_eq
  obtain ⟨cache', hinv, hcoherent, hnot⟩ := hc1.invalidate (hext v hhas)
  exact ⟨_, by rw [heq, hinv]; rfl, hholds, hcoherent.of_not_has hnot⟩

/-! ### Modifying -/

theorem modifyAt_store {s : Store S} (h : ¬s.Refuses v v' i) (second : Option (S.Key i)) :
    s.modifyAt v v' i second =
      (s.draft i (modifyWrites v v' i) (if i = 0 ∨ S.key i v' ≠ S.key i v then
        modifyUpdate (s.firstKey i) (S.key i v) (S.key i v') second else none) false, true) := by
  unfold Store.modifyAt modifyWrites
  rw [if_neg h]
  by_cases hi : i = 0
  · simp [hi]
  · by_cases hkey : S.key i v' = S.key i v
    · simp [hi, hkey, Store.draft]
    · simp [hi, hkey]

theorem modifyUpdate_of_not {κ : Type} [LinearOrder κ] {first : Option κ} {old new : κ}
    (h : ¬(first = some old ∧ old < new)) (second second' : Option κ) :
    modifyUpdate first old new second = modifyUpdate first old new second' := by
  cases first with
  | none => rfl
  | some f =>
    have hf : ¬(f < new ∧ old = f) := fun ⟨hlt, heq⟩ => h ⟨heq ▸ rfl, heq ▸ hlt⟩
    simp only [modifyUpdate, if_neg hf]

theorem modifyAt (hd : Drafted s0 c.store) (hs0 : s0.Holds objs) (hc : c.cache.Coherent objs)
    (hok : ¬s0.Refuses v v' i) :
    ∃ c', c.modifyAt v v' i = some (c', true) ∧ c'.store = Holds.modifyDraft s0 v v' c.store i ∧
      c'.cache.Coherent objs ∧ Extends c.cache c'.cache := by
  have hok' : ¬c.store.Refuses v v' i := by unfold Refuses; rw [hd.columns]; exact hok
  unfold Container.modifyAt
  split_ifs with hread
  · obtain ⟨c', hsecond, hreads⟩ := secondKey_eq hc hd hs0 hread.2.1
    have hat := modifyAt_store (s := c'.store) (hreads.store ▸ hok') (c.store.columns i).second
    refine ⟨{ c' with store := (c'.store.modifyAt v v' i (c.store.columns i).second).1 }, ?_, ?_,
      hreads.coherent,
      hreads.more⟩
    · simp only [hsecond, bind_eq_bind, bind_some, hat]
    · show (c'.store.modifyAt v v' i (c.store.columns i).second).1 = _
      rw [hat, hreads.store, hd.firstKey, hd.columns]
      rfl
  · have hat := modifyAt_store hok' (none : Option (S.Key i))
    refine ⟨{ c with store := (c.store.modifyAt v v' i none).1 }, ?_, ?_, hc, .refl _⟩
    · simp only [bind_eq_bind, bind_some, hat]
    · have hsame := modifyUpdate_of_not (fun hboth => hread ⟨hok', hboth⟩) none (s0.columns i).second
      show (c.store.modifyAt v v' i none).1 = _
      rw [hat, hsame, hd.firstKey]
      rfl

theorem modifyAt_refused (hd : Store.Drafted s0 c.store) (hno : s0.Refuses v v' i) :
    c.modifyAt v v' i = some (c, false) := by
  have hno' : c.store.Refuses v v' i := by unfold Store.Refuses; rw [hd.columns]; exact hno
  simp [Container.modifyAt, Store.modifyAt, hno']

section

variable (hs0 : s0.Holds objs) (l : List S.Index) (hd : Drafted s0 c.store) (hc : c.cache.Coherent objs)
include hs0 l hd hc

theorem chainM_modifyAt (hok : ∀ i ∈ l, ¬s0.Refuses v v' i) :
    ∃ c', chainM (Container.modifyAt v v') l c = some (c', true) ∧
      c'.store = l.foldl (Holds.modifyDraft s0 v v') c.store ∧ c'.cache.Coherent objs ∧
      Extends c.cache c'.cache := by
  induction l generalizing c with
  | nil => exact ⟨c, rfl, rfl, hc, .refl _⟩
  | cons i l ih =>
    obtain ⟨c1, hstep, hstore, hc1, hext⟩ := modifyAt hd hs0 hc (hok i (.head _))
    have hd1 : Drafted s0 c1.store := by rw [hstore]; exact hd.trans (drafted_draft ..)
    obtain ⟨c', hrest, hstore', hc', hext'⟩ := ih hd1 hc1 fun j hj => hok j (.tail _ hj)
    refine ⟨c', ?_, ?_, hc', hext.trans hext'⟩
    · simp only [chainM, hstep, bind_eq_bind, bind_some, if_true]
      exact hrest
    · rw [hstore', hstore]
      rfl

theorem chainM_modifyAt_refused (hno : ∃ i ∈ l, s0.Refuses v v' i) :
    ∃ c', chainM (Container.modifyAt v v') l c = some (c', false) ∧ Drafted s0 c'.store ∧
      c'.cache.Coherent objs := by
  induction l generalizing c with
  | nil => simp at hno
  | cons i l ih =>
    by_cases hi : s0.Refuses v v' i
    · refine ⟨c, ?_, hd, hc⟩
      simp [chainM, modifyAt_refused hd hi]
    · obtain ⟨j, hj, hrefuses⟩ := hno
      have hj : j ∈ l := (mem_cons.1 hj).resolve_left fun hji => hi (hji ▸ hrefuses)
      obtain ⟨c1, hstep, hstore, hc1, -⟩ := modifyAt hd hs0 hc hi
      have hd1 : Drafted s0 c1.store := by rw [hstore]; exact hd.trans (drafted_draft ..)
      obtain ⟨c', hrest, hd', hc'⟩ := ih hd1 hc1 ⟨j, hj, hrefuses⟩
      refine ⟨c', ?_, hd', hc'⟩
      simp only [chainM, hstep, bind_eq_bind, bind_some, if_true]
      exact hrest

end

theorem modifies_iff (s : Store S) (v v' : S.Value) :
    Modifies s.columns v v' ↔ ∀ i, ¬s.Refuses v v' i := by
  constructor
  · rintro ⟨hid, hkeys⟩ i ⟨hne, rfl | htaken⟩
    · exact hne hid
    · rw [hkeys i hne] at htaken
      cases htaken
  · intro hok
    refine ⟨not_not.1 fun hne => hok 0 ⟨hne, .inl rfl⟩, fun i hne => not_isSome_iff_eq_none.1 fun htaken => ?_⟩
    exact hok i ⟨hne, .inr htaken⟩

theorem mem_modifiedIndices (hid : S.key 0 v' = S.key 0 v) (i : S.Index) :
    S.key i v' ≠ S.key i v ↔ i ∈ modifiedIndices v v' := by
  simp only [modifiedIndices, mem_filter, mem_finRange, true_and, decide_eq_true_eq]
  refine ⟨fun hne => ⟨?_, hne⟩, And.right⟩
  rintro rfl
  exact hne hid

theorem modify_eq (h : c.Sound (v :: objs)) (hm : Modifies c.store.columns v (mod v)) :
    ∃ c1 : Container S, c.modify_ v mod =
        (c1.cache.update (S.key 0 (mod v)) (mod v) (modifiedIndices v (mod v))).map
          (⟨c1.store.publish c1.store.entryCount, ·⟩, true) ∧
      (c1.store.publish c1.store.entryCount).Holds (mod v :: objs) ∧ c1.cache.Coherent (v :: objs) ∧
      Extends c.cache c1.cache := by
  obtain ⟨c1, hchain, hstore, hc1, hext⟩ := chainM_modifyAt h.holds (List.finRange _) (.refl _) h.coherent
    fun i _ => (modifies_iff c.store v (mod v)).1 hm i
  have hcount : c1.store.entryCount = c.store.entryCount := by
    rw [hstore]
    exact (drafted_foldl ..).entryCount
  refine ⟨c1, ?_, ?_, hc1, hext⟩
  · simp only [Container.modify_, hchain, bind_eq_bind, bind_some, if_true]
    cases c1.cache.update (S.key 0 (mod v)) (mod v) (modifiedIndices v (mod v)) <;> rfl
  · rw [hcount, hstore]
    exact h.holds.modify hm

theorem modify_ (h : c.Sound (v :: objs)) (hhas : c.cache.Has v)
    (hm : Modifies c.store.columns v (mod v)) :
    ∃ c', c.modify_ v mod = some (c', true) ∧ c'.Sound (mod v :: objs) := by
  obtain ⟨c1, heq, hholds, hc1, hext⟩ := h.modify_eq hm
  obtain ⟨cache', hupdate, hcoherent⟩ := hc1.update h.holds.tables hm (hext v hhas) (mem_modifiedIndices hm.1)
  exact ⟨_, by rw [heq, hupdate]; rfl, hholds, hcoherent⟩

theorem modify_refused (h : c.Sound objs) (hm : ¬Modifies c.store.columns v (mod v)) :
    ∃ c', c.modify_ v mod = some (c', false) ∧ c'.Sound objs := by
  have hno := mt (modifies_iff c.store v (mod v)).2 hm
  obtain ⟨i, hi⟩ := not_forall.1 hno
  obtain ⟨c1, hchain, hd, hc1⟩ := chainM_modifyAt_refused h.holds (List.finRange _) (.refl _) h.coherent
    ⟨i, mem_finRange i, not_not.1 hi⟩
  refine ⟨{ c1 with store := c1.store.discard }, ?_, ?_, hc1⟩
  · simp [Container.modify_, hchain]
  · rw [h.holds.ready.discard_eq hd]
    exact h.holds

end Sound

theorem Sound.begin (h : c.Sound objs) (i : S.Index) :
    ∃ it c', c.begin i = some (it, c') ∧
      (objs = [] ∧ it.valid = false ∨
        ∃ v ∈ objs, (∀ o ∈ objs, S.key i v ≤ S.key i o) ∧ (it.deref c').map (·.1) = some v) := by
  have ht := h.holds.tables
  unfold Container.begin
  cases hleast : c.store.firstKey i with
  | none =>
    have hempty := FlatMap.least_eq_none_iff.1 ((h.holds.first i).symm.trans hleast)
    have hobjs : objs = [] := eq_nil_iff_forall_not_mem.2 fun v hv => by
      have hfound := ht.find_key hv i
      rw [hempty] at hfound
      cases hfound
    have hhead : (c.store.columns i).entries.head? = none := by
      rw [head?_eq_none_iff, ← length_eq_zero_iff, (ht.perm_entries i).length_eq, hobjs]
      rfl
    exact ⟨_, c, rfl, .inl ⟨hobjs, by simp [Iter.valid, hhead]⟩⟩
  | some k =>
    obtain ⟨hk, hle⟩ := FlatMap.least_eq_some_iff.1 ((h.holds.first i).symm.trans hleast)
    obtain ⟨v, hv, rfl⟩ := (ht.isSome_find?_iff i k).1 hk
    obtain ⟨it, c', hmade, hreads, hat⟩ : ∃ it c', c.makeIterator i (S.key i v) = some (it, c') ∧
        Reads objs c c' ∧ it.At c' v := by
      obtain ⟨it, c', hfind, hreads, hat, -⟩ := find_of_mem h.coherent ht hv i
      refine ⟨it, c', ?_, hreads, hat⟩
      rw [← hfind]
      unfold makeIterator find
      cases c.cache.get i (S.key i v) with
      | none => simp [seek_key ht hv]
      | some found => rfl
    have ht' : Tables c'.store.columns objs := by rwa [hreads.store]
    obtain ⟨p, c'', hderef, -⟩ := hat.deref hreads.coherent ht' hv
    refine ⟨it, c', hmade, .inr ⟨v, hv, fun o ho => hle _ ((ht.isSome_find?_iff i _).2 ⟨o, ho, rfl⟩), ?_⟩⟩
    rw [hderef]
    rfl

end Container

/-! ## Sequences of operations -/

inductive Operation (S : Schema) where
  | insert (v : S.Value)
  | modify (i : S.Index) (k : S.Key i) (mod : S.Value → S.Value)
  | erase (i : S.Index) (k : S.Key i)

def Container.apply (c : Container S) : Operation S → Option (Container S)
  | .insert v => (c.emplace v).map (·.2.2)
  | .modify i k mod =>
    let (it, c) := c.find i k
    if it.valid then (it.modify mod c).map (·.1) else some c
  | .erase i k =>
    let (it, c) := c.find i k
    if it.valid then (it.erase c).map (·.2) else some c

def others (objs : List S.Value) (v : S.Value) : List S.Value := objs.filter fun o => S.key 0 o ≠ S.key 0 v

def Operation.apply (objs : List S.Value) : Operation S → List S.Value
  | .insert v => if ∃ o ∈ objs, ∃ i, S.key i o = S.key i v then objs else v :: objs
  | .modify i k mod =>
    match objs.find? fun o => S.key i o = k with
    | some v =>
      if S.key 0 (mod v) = S.key 0 v ∧ ∀ o ∈ others objs v, ∀ j, S.key j o ≠ S.key j (mod v) then
        mod v :: others objs v
      else objs
    | none => objs
  | .erase i k =>
    match objs.find? fun o => S.key i o = k with
    | some v => others objs v
    | none => objs

variable {columns : Columns S}

theorem Tables.perm_others (h : Tables columns objs) (hv : v ∈ objs) : objs.Perm (v :: others objs v) := by
  have hnodup : objs.Nodup := (h.distinct 0).of_map _
  have hmem (w : S.Value) : w ∈ others objs v ↔ w ∈ objs ∧ S.key 0 w ≠ S.key 0 v := by simp [others]
  have hothers : (v :: others objs v).Nodup :=
    nodup_cons.2 ⟨fun hself => ((hmem v).1 hself).2 rfl, hnodup.filter _⟩
  refine (perm_ext_iff_of_nodup hnodup hothers).2 fun w => ?_
  rw [mem_cons, hmem]
  constructor
  · intro hw
    by_cases hkey : S.key 0 w = S.key 0 v
    · exact .inl (h.eq_of_key_eq hw hv hkey)
    · exact .inr ⟨hw, hkey⟩
  · rintro (rfl | ⟨hw, -⟩)
    · exact hv
    · exact hw

theorem Tables.modifies_iff (h : Tables columns (v :: objs)) (v' : S.Value) :
    Modifies columns v v' ↔ S.key 0 v' = S.key 0 v ∧ ∀ o ∈ objs, ∀ j, S.key j o ≠ S.key j v' := by
  refine and_congr_right fun _ => ?_
  constructor
  · intro hkeys o ho j hkey
    by_cases hsame : S.key j v' = S.key j v
    · exact (nodup_cons.1 (h.distinct j)).1 (mem_map.2 ⟨o, ho, hkey.trans hsame⟩)
    · exact (h.find?_eq_none_iff j _).1 (hkeys j hsame) o (.tail _ ho) hkey
  · intro hothers j hne
    refine (h.find?_eq_none_iff j _).2 fun o ho hkey => ?_
    rcases mem_cons.1 ho with rfl | ho
    · exact hne hkey.symm
    · exact hothers o ho j hkey

namespace Container

theorem Sound.find_deref (h : c.Sound objs) (hv : v ∈ objs) (i : S.Index) :
    ∃ it it' c1 c2, c.find i (S.key i v) = (it, c1) ∧ it.valid = true ∧ it.deref c1 = some (v, it', c2) ∧
      c2.Sound objs ∧ c2.cache.Has v ∧ (it'.next c2).isSome := by
  obtain ⟨it, c1, hfind, hreads, hat, hfresh⟩ := find_of_mem h.coherent h.holds.tables hv i
  have h1 := h.of_reads hreads
  obtain ⟨p, c2, hderef, hreads', hmem, hheap⟩ := hat.deref h1.coherent h1.holds.tables hv
  have h2 := h1.of_reads hreads'
  have hat' : Iter.At (i := i) { it with cacheValue := some p } c2 v := .inl ⟨p, hmem, rfl, hheap⟩
  have hfresh' : Iter.Fresh (i := i) { it with cacheValue := some p } c2 v := by
    unfold Iter.Fresh
    rw [hreads'.store]
    exact hfresh
  exact ⟨it, _, c1, c2, hfind, hat.valid, hderef, h2, ⟨p, hmem, hheap⟩,
    by rw [hat'.next hfresh' h2.holds.tables hv]; rfl⟩

theorem Sound.apply (h : c.Sound objs) (op : Operation S) :
    ∃ c', c.apply op = some c' ∧ c'.Sound (op.apply objs) := by
  have ht := h.holds.tables
  cases op with
  | insert v =>
    by_cases hfree : Free c.store.columns v
    · obtain ⟨p, c', hc', hsound⟩ := h.emplace hfree
      refine ⟨c', by rw [Container.apply, hc']; rfl, ?_⟩
      have hnone : ¬∃ o ∈ objs, ∃ i, S.key i o = S.key i v := fun ⟨o, ho, i, hkey⟩ =>
        ht.free_iff.1 hfree o ho i hkey
      rwa [Operation.apply, if_neg hnone]
    · refine ⟨c, by rw [Container.apply, h.emplace_refused hfree]; rfl, ?_⟩
      rw [ht.free_iff] at hfree
      push Not at hfree
      rwa [Operation.apply, if_pos hfree]
  | modify i k mod =>
    cases hfound : objs.find? fun o => S.key i o = k with
    | none =>
      have hk : ∀ v ∈ objs, S.key i v ≠ k := by simpa using find?_eq_none.1 hfound
      obtain ⟨it, hfind, hinvalid⟩ := find_of_not_mem h.coherent ht hk
      refine ⟨c, by simp [Container.apply, hfind, hinvalid], ?_⟩
      rwa [Operation.apply, hfound]
    | some v =>
      have hv := mem_of_find?_eq_some hfound
      obtain rfl : S.key i v = k := by simpa using find?_some hfound
      obtain ⟨it, it', c1, c2, hfind, hvalid, hderef, h2, hhas, -⟩ := h.find_deref hv i
      have hperm := ht.perm_others hv
      have h2' := h2.perm hperm
      have hiff := h2'.holds.tables.modifies_iff (mod v)
      simp only [Operation.apply, hfound, Container.apply, hfind, hvalid, if_true, Iter.modify, hderef,
        bind_eq_bind, bind_some]
      by_cases hm : Modifies c2.store.columns v (mod v)
      · obtain ⟨c', hmodify, hsound⟩ := h2'.modify_ hhas hm
        rw [if_pos (hiff.1 hm), hmodify]
        exact ⟨c', rfl, hsound⟩
      · obtain ⟨c', hmodify, hsound⟩ := h2.modify_refused hm
        rw [if_neg (mt hiff.2 hm), hmodify]
        exact ⟨c', rfl, hsound⟩
  | erase i k =>
    cases hfound : objs.find? fun o => S.key i o = k with
    | none =>
      have hk : ∀ v ∈ objs, S.key i v ≠ k := by simpa using find?_eq_none.1 hfound
      obtain ⟨it, hfind, hinvalid⟩ := find_of_not_mem h.coherent ht hk
      refine ⟨c, by simp [Container.apply, hfind, hinvalid], ?_⟩
      rwa [Operation.apply, hfound]
    | some v =>
      have hv := mem_of_find?_eq_some hfound
      obtain rfl : S.key i v = k := by simpa using find?_some hfound
      obtain ⟨it, it', c1, c2, hfind, hvalid, hderef, h2, hhas, hnext⟩ := h.find_deref hv i
      obtain ⟨it'', hnext⟩ := isSome_iff_exists.1 hnext
      obtain ⟨c', herase, hsound⟩ := (h2.perm (ht.perm_others hv)).erase_ hhas
      refine ⟨c', ?_, ?_⟩
      · simp [Container.apply, hfind, hvalid, Iter.erase, hderef, hnext, herase]
      · rwa [Operation.apply, hfound]

theorem Sound.foldlM_apply (h : c.Sound objs) (ops : List (Operation S)) :
    ∃ c', ops.foldlM Container.apply c = some c' ∧ c'.Sound (ops.foldl Operation.apply objs) := by
  induction ops generalizing c objs with
  | nil => exact ⟨c, rfl, h⟩
  | cons op ops ih =>
    obtain ⟨c1, hstep, h1⟩ := h.apply op
    obtain ⟨c', hrest, h'⟩ := ih h1
    refine ⟨c', ?_, h'⟩
    rw [foldlM_cons, hstep]
    exact hrest

/-- Columns, size and first object are those of the list. -/
structure Exact (c : Container S) (objs : List S.Value) : Prop where
  entries : ∀ i, (c.store.columns i).entries.Perm (objs.map fun v => (S.key i v, S.entry i v))
  size : c.store.entryCount = objs.length
  begin : ∀ i, ∃ it c', c.begin i = some (it, c') ∧
    (objs = [] ∧ it.valid = false ∨
      ∃ v ∈ objs, (∀ o ∈ objs, S.key i v ≤ S.key i o) ∧ (it.deref c').map (·.1) = some v)

theorem indices_exact (S : Schema) (ops : List (Operation S)) :
    ∃ c, ops.foldlM Container.apply (Container.empty S) = some c ∧ c.Exact (ops.foldl Operation.apply []) := by
  obtain ⟨c, hrun, h⟩ := (Sound.empty S).foldlM_apply ops
  exact ⟨c, hrun, h.holds.tables.perm_entries, h.holds.count, h.begin⟩

end Container

end Mira
