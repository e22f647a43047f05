import XgtChain.Mira.Lookups

/-!
# MIRA: calls that fail

An insertion or modification that some index refuses leaves the drafts of the indexes before it, and the
container drops them.
-/

open Base (FlatMap)

namespace Mira

open Option

variable {S : Schema} {i : S.Index} {c c' : Container S} {v v' : S.Value} (it : Iter S i)

def Iter.tryModify (position : Iter S i) (mod : S.Value → Option S.Value) (c : Container S) :
    Option (Container S × Option Bool) := do
  let (v, _, c) ← position.deref c
  match mod v with
  | none => some (c, none)
  | some v' => do
    let (c, status) ← c.modify_ v fun _ => v'
    some (c, some status)

open Iter

structure Store.AsBefore (s s' : Store S) : Prop where
  columns : s'.columns = s.columns
  firstKey : s'.firstKey = s.firstKey
  entryCount : s'.entryCount = s.entryCount
  writeBuffer : s'.writeBuffer = s.writeBuffer

/-- A refused call leaves the store and every lookup. -/
structure Container.AsBefore (c c' : Container S) : Prop where
  store : c.store.AsBefore c'.store
  lookup : ∀ i k, c'.lookup i k = c.lookup i k

/-- The cursor is over the columns of the container, at one of their rows or at none. -/
def Cursor.Current (c : Container S) (cursor : Cursor S i) : Prop :=
  cursor.column = c.store.columns i ∧ ∀ e, cursor.entry = some e → e ∈ cursor.column.entries

def Iter.Current (c : Container S) : Prop := ∀ cursor, it.cursor = some cursor → cursor.Current c

theorem Container.current_seek (c : Container S) (k : S.Key i) : (c.seek i k).Current c :=
  ⟨rfl, fun _ h => List.mem_of_find?_eq_some h⟩

theorem Container.current_newCursor (c : Container S) : (c.newCursor i).Current c :=
    ⟨rfl, fun _ h => by cases h⟩

theorem Iter.current_copy (c : Container S) : (it.copy c).Current c := by
  intro cursor hcursor
  obtain ⟨old, -, rfl⟩ := map_eq_some_iff.1 hcursor
  cases old.entry with
  | none => exact c.current_newCursor
  | some e => exact c.current_seek e.1

theorem Iter.Current.next {it it' : Iter S i} (h : it.Current c)
    (hnext : it.next c = some it') : it'.Current c := by
  refine move_cursor (fun {cursor cursor'} hcursor hstep => ?_) ?_ c.current_seek c.current_newCursor hnext
  · obtain ⟨e, -, rfl⟩ := map_eq_some_iff.1 hstep
    exact ⟨hcursor.1, fun _ he => List.mem_of_find?_eq_some he⟩
  · split_ifs
    · exact h
    · rintro _ ⟨⟩
      exact c.current_newCursor

namespace Store

variable {s s' : Store S}

theorem Drafted.asBefore_discard_iff (h : Drafted s s') : s.AsBefore s'.discard ↔ s.writeBuffer = [] :=
  ⟨fun hsame => hsame.writeBuffer.symm, fun hnil => ⟨h.columns, h.firstKey, h.entryCount, hnil.symm⟩⟩

theorem failed_insert_iff (h : (s.insert_ v).2 = false) :
    s.AsBefore (s.insert_ v).1 ↔ s.bulkLoad = false ∧ s.writeBuffer = [] := by
  have htaken : ¬Free s.columns v := fun hfree => by
    have hchain : s.insertRocksdb v = _ := chainM_insertAt_of_free fun i _ => hfree i
    simp only [insert_, hchain, if_true] at h
    split_ifs at h
  obtain ⟨i, hi⟩ := not_forall.1 htaken
  obtain ⟨s', hd, hchain⟩ := chainM_insertAt_of_taken ⟨i, List.mem_finRange i, hi⟩
  simp only [insert_, insertRocksdb, hchain, hd.bulk]
  cases hbulk : s.bulkLoad with
  | false => simpa using hd.asBefore_discard_iff
  | true =>
    -- the object is counted all the same
    refine iff_of_false (fun hsame => ?_) (by simp)
    have hcount := hsame.entryCount
    rw [if_pos rfl] at hcount
    split_ifs at hcount <;> exact absurd (hcount.trans hd.entryCount.symm) (Nat.succ_ne_self _)

theorem drafted_modifyAt (s : Store S) (v v' : S.Value) (i : S.Index) (second : Option (S.Key i)) :
    Drafted s (s.modifyAt v v' i second).1 := by
  dsimp only [modifyAt]
  split_ifs
  · exact .refl _
  · exact drafted_draft ..
  · exact drafted_draft ..
  · exact .refl _

end Store

open Store

namespace Container

variable {objs : List S.Value} {status : Bool}

/-! ## Reads leave the lookups -/

/-- Each stored object is the one that every index has under its key, and the cache points to objects. -/
structure Intact (c : Container S) : Prop where
  tables : ∃ objs, Tables c.store.columns objs
  pointers : ∀ i k p, (c.cache.caches i).find? k = some p → p < c.cache.heap.length

/-- The columns and the lookups of `c'` are those of `c`. -/
structure Looked (c c' : Container S) : Prop where
  columns : c'.store.columns = c.store.columns
  lookup : ∀ i k, c'.lookup i k = c.lookup i k
  intact : c'.Intact

theorem Sound.intact (h : c.Sound objs) : c.Intact := by
  refine ⟨⟨objs, h.holds.tables⟩, fun i k p hp => ?_⟩
  obtain ⟨v, -, hheap, -⟩ := h.coherent.of_find? hp
  exact (List.getElem?_eq_some_iff.1 hheap).1

theorem Intact.refl (h : c.Intact) : Looked c c := ⟨rfl, fun _ _ => rfl, h⟩

theorem Looked.trans {c'' : Container S} (h : Looked c c') (h' : Looked c' c'') : Looked c c'' :=
  ⟨h'.columns.trans h.columns, fun i k => (h'.lookup i k).trans (h.lookup i k), h'.intact⟩

theorem lookup_eq (c : Container S) (i : S.Index) (k : S.Key i) :
    c.lookup i k = match (c.cache.caches i).find? k with
      | some p => c.cache.heap[p]?
      | none => ((c.store.columns i).find? k).bind fun e => (c.load i e).bind fun v =>
        if ∀ j, (c.cache.caches j).find? (S.key j v) = none then some v else none := by
  unfold lookup find
  cases hget : (c.cache.caches i).find? k with
  | some p => simp [Cache.get, hget, valid, deref, Cache.touch]
  | none =>
    have hnone : c.cache.get i k = none := get_eq_none hget
    cases hcolumn : (c.store.columns i).find? k with
    | some e =>
      have hseek : c.seek i k = ⟨c.store.columns i, some (k, e)⟩ :=
        congrArg (Cursor.mk _) (FlatMap.seek_of_find? hcolumn)
      simp only [hnone, hseek, any_some, decide_true, if_true, valid, deref, bind_some,
        isSome_none, isSome_some, Bool.or_true, bind_eq_bind]
      cases c.load i e with
      | none => rfl
      | some v =>
        simp only [bind_some, Cache.cache]
        split_ifs <;> rfl
    | none =>
      have hother : (c.seek i k).entry.any (·.1 = k) = false := FlatMap.any_seek_eq_false hcolumn
      simp [hnone, hother, valid, newCursor]

theorem Intact.of_eq (h : c.Intact) (hcolumns : c'.store.columns = c.store.columns)
    (hcaches : c'.cache.caches = c.cache.caches) (hheap : c'.cache.heap = c.cache.heap) : Looked c c' := by
  refine ⟨hcolumns, fun i k => ?_, ⟨hcolumns ▸ h.tables, by rw [hcaches, hheap]; exact h.pointers⟩⟩
  have hload : c'.load i = c.load i := by
    funext e
    rw [load, load, hcolumns]
  rw [lookup_eq, lookup_eq, hcolumns, hcaches, hheap, hload]

theorem Intact.cache (h : c.Intact) (ht : Tables c.store.columns objs) (hv : v ∈ objs) {p : Nat}
    {cache' : Cache S}
    (hcache : c.cache.cache v = some (p, cache')) : Looked c { c with cache := cache' } := by
  unfold Cache.cache at hcache
  split_ifs at hcache with hnone
  cases hcache
  refine ⟨rfl, fun i k => ?_, h.tables, fun i k p hp => ?_⟩
  · rw [lookup_eq, lookup_eq]
    dsimp only
    rw [FlatMap.find?_set]
    by_cases hk : k = S.key i v
    · -- the object was read from the columns, and is now read from the cache
      subst hk
      rw [if_pos rfl, hnone i, ht.find_key hv i]
      simp [load_entry ht hv, hnone]
    · rw [if_neg hk]
      cases hget : (c.cache.caches i).find? k with
      | some p => exact List.getElem?_append_left (h.pointers i k p hget)
      | none =>
        dsimp only
        cases hcolumn : (c.store.columns i).find? k with
        | none => rfl
        | some e =>
          obtain ⟨w, hw, rfl, rfl⟩ := (ht.find_iff i k e).1 hcolumn
          -- another object shares no key with it
          have hkeys : ∀ j, S.key j w ≠ S.key j v := fun j hkey => hk (ht.eq_of_key_eq hw hv hkey ▸ rfl)
          have hload : ∀ cache, load ⟨c.store, cache⟩ i (S.entry i w) = some w := fun _ => load_entry ht hw
          simp only [bind_some, hload, FlatMap.find?_set, hkeys, if_false]
  · dsimp only at hp ⊢
    rw [FlatMap.find?_set] at hp
    rw [List.length_append]
    split_ifs at hp
    · cases hp
      exact Nat.lt_add_of_pos_right Nat.one_pos
    · exact Nat.lt_add_right _ (h.pointers i k p hp)

theorem store_of_deref {it it' : Iter S i} (h : it.deref c = some (v, it', c')) : c'.store = c.store := by
  rcases deref_cases h with ⟨p, -, -, -, rfl⟩ | ⟨-, e, p, -, -, ⟨-, -, rfl⟩ | ⟨-, -, cache', -, rfl⟩⟩ <;> rfl

section

variable (h : c.Intact)
include h

theorem Intact.deref {it it' : Iter S i} (hcurrent : it.Current c)
    (hderef : it.deref c = some (v, it', c')) : Looked c c' := by
  rcases deref_cases hderef with
    ⟨p, -, -, -, rfl⟩ | ⟨-, e, p, he, -, ⟨-, -, rfl⟩ | ⟨-, hload, cache', hcache, rfl⟩⟩
  · exact h.refl
  · exact h.of_eq rfl rfl rfl
  · obtain ⟨objs, ht⟩ := h.tables
    obtain ⟨cursor, hcursor, hentry⟩ := bind_eq_some_iff.1 he
    obtain ⟨hcolumn, hrow⟩ := hcurrent cursor hcursor
    have hmem : e ∈ (c.store.columns i).entries := hcolumn ▸ hrow e hentry
    obtain ⟨w, hw, -, hstored⟩ := (ht.find_iff i e.1 e.2).1 (FlatMap.find?_eq_some_iff.2 hmem)
    rw [← hstored, load_entry ht hw] at hload
    cases hload
    exact h.cache ht hw hcache

theorem Intact.find (k : S.Key i) :
    (c.find i k).2.store = c.store ∧ Looked c (c.find i k).2 ∧ (c.find i k).1.Current (c.find i k).2 := by
  unfold Container.find Cache.get
  cases (c.cache.caches i).find? k with
  | some p => exact ⟨rfl, h.of_eq rfl rfl rfl, fun _ he => by cases he⟩
  | none =>
    refine ⟨rfl, h.refl, ?_⟩
    rintro _ ⟨⟩
    split_ifs
    · exact c.current_seek k
    · exact c.current_newCursor

theorem Intact.secondKey {second : Option (S.Key i)} (hsecond : c.secondKey i = some (second, c')) :
    c'.store = c.store ∧ Looked c c' := by
  obtain ⟨k, -, hsecond⟩ := bind_eq_some_iff.1 hsecond
  obtain ⟨hstore, hlooked, hcurrent⟩ := h.find k
  generalize c.find i k = found at hsecond hstore hlooked hcurrent
  obtain ⟨it, hnext, hsecond⟩ := bind_eq_some_iff.1 hsecond
  split_ifs at hsecond
  · obtain ⟨⟨v, _, c1⟩, hderef, hsecond⟩ := bind_eq_some_iff.1 hsecond
    cases hsecond
    exact ⟨(store_of_deref hderef).trans hstore,
      hlooked.trans (hlooked.intact.deref (hcurrent.next hnext) hderef)⟩
  · cases hsecond
    exact ⟨hstore, hlooked⟩

theorem Intact.modifyAt (hmodify : c.modifyAt v v' i = some (c', status)) :
    Drafted c.store c'.store ∧ Looked c c' := by
  have hread : ∀ {second : Option (S.Key i)} {c1 : Container S}, c1.store = c.store → Looked c c1 →
      some ({ c1 with store := (c1.store.modifyAt v v' i second).1 }, (c1.store.modifyAt v v' i second).2) =
        some (c', status) → Drafted c.store c'.store ∧ Looked c c' := by
    rintro second c1 hstore hlooked ⟨⟩
    have hdrafted := drafted_modifyAt c1.store v v' i second
    exact ⟨hstore ▸ hdrafted, hlooked.trans (hlooked.intact.of_eq hdrafted.columns rfl rfl)⟩
  unfold Container.modifyAt at hmodify
  split_ifs at hmodify
  · obtain ⟨⟨second, c1⟩, hsecond, hmodify⟩ := bind_eq_some_iff.1 hmodify
    obtain ⟨hstore, hlooked⟩ := h.secondKey hsecond
    exact hread hstore hlooked hmodify
  · exact hread rfl h.refl hmodify

theorem Intact.chainM_modifyAt {l : List S.Index}
    (hchain : chainM (Container.modifyAt v v') l c = some (c', status)) :
    Drafted c.store c'.store ∧ Looked c c' := by
  induction l generalizing c with
  | nil =>
    cases hchain
    exact ⟨.refl _, h.refl⟩
  | cons i l ih =>
    obtain ⟨⟨c1, status1⟩, hstep, hchain⟩ := bind_eq_some_iff.1 hchain
    obtain ⟨hdrafted, hlooked⟩ := h.modifyAt hstep
    dsimp only at hchain
    split_ifs at hchain
    · obtain ⟨hdrafted', hlooked'⟩ := ih hlooked.intact hchain
      exact ⟨hdrafted.trans hdrafted', hlooked.trans hlooked'⟩
    · cases hchain
      exact ⟨hdrafted, hlooked⟩

end

/-! ## Failed calls -/

theorem emplace_refused_iff {it : Iter S 0} (h : c.emplace v = some (it, false, c')) :
    c.AsBefore c' ↔ c.store.bulkLoad = false ∧ c.store.writeBuffer = [] := by
  obtain ⟨hrefused, rfl⟩ : (c.store.insert_ v).2 = false ∧ c' = { c with store := (c.store.insert_ v).1 } := by
    unfold Container.emplace at h
    split at h
    · obtain ⟨_, -, h⟩ := bind_eq_some_iff.1 h
      obtain ⟨_, -, h⟩ := bind_eq_some_iff.1 h
      cases h
    · next heq =>
      cases h
      exact ⟨congrArg Prod.snd heq, by rw [heq]⟩
  refine ⟨fun hsame => (failed_insert_iff hrefused).1 hsame.store, fun hready => ?_⟩
  have hstore := (failed_insert_iff hrefused).2 hready
  exact ⟨hstore, fun i k => by simp only [lookup_eq, load, hstore.columns]⟩

theorem Intact.modify_refused_iff (h : c.Intact) {mod : S.Value → S.Value}
    (hmodify : c.modify_ v mod = some (c', false)) : c.AsBefore c' ↔ c.store.writeBuffer = [] := by
  obtain ⟨⟨c1, status⟩, hchain, hmodify⟩ := bind_eq_some_iff.1 hmodify
  obtain ⟨hdrafted, hlooked⟩ := h.chainM_modifyAt hchain
  dsimp only at hmodify
  split_ifs at hmodify
  · obtain ⟨cache, -, hmodify⟩ := bind_eq_some_iff.1 hmodify
    cases hmodify
  · cases hmodify
    refine ⟨fun hsame => hdrafted.asBefore_discard_iff.1 hsame.store, fun hnil => ?_⟩
    have hdiscard : Looked c1 { c1 with store := c1.store.discard } := hlooked.intact.of_eq rfl rfl rfl
    exact ⟨hdrafted.asBefore_discard_iff.2 hnil, (hlooked.trans hdiscard).lookup⟩

theorem failed_calls_iff (c : Container S) (h : c.Intact) :
    (∀ v it c', c.emplace v = some (it, false, c') →
      (c.AsBefore c' ↔ c.store.bulkLoad = false ∧ c.store.writeBuffer = [])) ∧
    ∀ i (position : Iter S i) mod status c', (position.copy c).tryModify mod c = some (c', status) →
      status ≠ some true → (c.AsBefore c' ↔ status = none ∨ c.store.writeBuffer = []) := by
  refine ⟨fun v it c' hinsert => emplace_refused_iff hinsert,
    fun i position mod status c' hmodify hfailed => ?_⟩
  obtain ⟨⟨v, _, c1⟩, hread, hmodify⟩ := bind_eq_some_iff.1 hmodify
  have hstore := store_of_deref hread
  have hlooked := h.deref (position.current_copy c) hread
  have hsame : c.AsBefore c1 := ⟨hstore ▸ ⟨rfl, rfl, rfl, rfl⟩, hlooked.lookup⟩
  dsimp only at hmodify
  split at hmodify
  · cases hmodify
    exact iff_of_true hsame (.inl rfl)
  · obtain ⟨⟨c2, status⟩, hrefused, hmodify⟩ := bind_eq_some_iff.1 hmodify
    cases hmodify
    obtain rfl : status = false := by simpa using hfailed
    have hiff := hlooked.intact.modify_refused_iff hrefused
    rw [hstore] at hiff
    refine Iff.trans ⟨fun h => ?_, fun h => ?_⟩ (hiff.trans (by simp))
    · exact ⟨hstore ▸ h.store, fun i k => (h.lookup i k).trans (hlooked.lookup i k).symm⟩
    · exact ⟨hstore ▸ h.store, fun i k => (h.lookup i k).trans (hlooked.lookup i k)⟩

theorem failed_calls_two : ∃ (c c1 c2 : Container pairs) (it : Iter pairs 0),
    [.insert (1, 10), .insert (2, 20)].foldlM Container.apply (empty pairs) = some c ∧
    (c.emplace (3, 10) = some (it, false, c1) ∧ c.AsBefore c1) ∧
    ((c.find 0 (1 : Nat)).1.copy c).tryModify (fun _ => some (1, 20)) c = some (c2, some false) ∧
      c.AsBefore c2 := by
  obtain ⟨c, hrun, hsound⟩ := (Sound.empty pairs).foldlM_apply [.insert (1, 10), .insert (2, 20)]
  obtain ⟨c1, it, hinsert⟩ : ∃ c1 it, c.emplace (3, 10) = some (it, false, c1) := by
    cases hrun
    exact ⟨_, _, rfl⟩
  obtain ⟨c2, hrefused⟩ : ∃ c2, ((c.find 0 (1 : Nat)).1.copy c).tryModify (fun _ => some (1, 20)) c =
      some (c2, some false) := by
    cases hrun
    exact ⟨_, rfl⟩
  obtain ⟨hemplace, hmodify⟩ := failed_calls_iff c hsound.intact
  have hready := hsound.holds.ready
  exact ⟨c, c1, c2, it, hrun, ⟨hinsert, (hemplace _ _ _ hinsert).2 ⟨hready.bulk, hready.buffer⟩⟩, hrefused,
    (hmodify _ _ _ _ _ hrefused nofun).2 (.inr hready.buffer)⟩

theorem refused_counted : ∃ (c c' : Container pairs) (it : Iter pairs 0),
    ([.insert (1, 10)].foldlM Container.apply (empty pairs)).map
      (fun c => { c with store := c.store.beginBulkLoad }) = some c ∧
    c.emplace (2, 10) = some (it, false, c') ∧ ¬c.AsBefore c' :=
  ⟨_, _, _, rfl, rfl, fun h => absurd h.store.entryCount (by decide)⟩

end Container

end Mira
