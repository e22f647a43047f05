import XgtChain.Mira.ObjectCache

/-!
# MIRA: containers with their cache

The operations of a `multi_index_container` read objects through iterators.
-/

open Base (FlatMap)

namespace Mira

variable {S : Schema}

structure Cursor (S : Schema) (i : S.Index) where
  column : FlatMap (S.Key i) (Entry S)
  entry : Option (S.Key i × Entry S)

structure Iter (S : Schema) (i : S.Index) where
  cursor : Option (Cursor S i)
  cacheValue : Option Nat

structure Container (S : Schema) where
  store : Store S
  cache : Cache S

def Container.empty (S : Schema) : Container S := ⟨Store.empty S, Cache.empty S⟩

variable {i : S.Index} (cursor : Cursor S i) (c : Container S)

def Container.newCursor (i : S.Index) : Cursor S i := ⟨c.store.columns i, none⟩

def Container.seek (i : S.Index) (k : S.Key i) : Cursor S i :=
  ⟨c.store.columns i, (c.store.columns i).seek k⟩

def Cursor.next : Option (Cursor S i) :=
  cursor.entry.map fun e => { cursor with entry := cursor.column.after e.1 }

def Cursor.prev : Option (Cursor S i) :=
  cursor.entry.map fun e => { cursor with entry := cursor.column.before e.1 }

def Entry.object? : Entry S → Option S.Value
  | .object v => some v
  | .id _ => none

def Entry.id? : Entry S → Option (S.Key 0)
  | .object _ => none
  | .id k => some k

def Container.load (i : S.Index) (e : Entry S) : Option S.Value :=
  if i = 0 then e.object? else e.id?.bind fun id => ((c.store.columns 0).find? id).bind Entry.object?

namespace Iter

variable (it : Iter S i)

def valid : Bool := it.cacheValue.isSome || (it.cursor.bind (·.entry)).isSome

def «end» : Iter S i := ⟨none, none⟩

def deref : Option (S.Value × Iter S i × Container S) :=
  match it.cacheValue with
  | some p => do
    let v ← c.cache.heap[p]?
    some (v, it, c)
  | none => do
    let (key, entry) ← it.cursor.bind (·.entry)
    match c.cache.get i key with
    | some (p, cache) => do
      let v ← cache.heap[p]?
      some (v, { it with cacheValue := some p }, { c with cache := cache })
    | none => do
      let v ← c.load i entry
      let (p, cache) ← c.cache.cache v
      some (v, { it with cacheValue := some p }, { c with cache := cache })

def move (step : Cursor S i → Option (Cursor S i)) : Option (Iter S i) :=
  match it.cacheValue, it.cursor with
  | some p, none => do
    let key := S.key i (← c.cache.heap[p]?)
    let cursor := c.seek i key
    if cursor.entry.any (·.1 = key) then some ⟨some (← step cursor), none⟩
    else some ⟨some (c.newCursor i), none⟩
  | _, some cursor => do some ⟨some (← step cursor), none⟩
  | none, none => none

def next : Option (Iter S i) :=
  (if it.valid then it else { it with cursor := some (c.newCursor i) }).move c Cursor.next

def prev : Option (Iter S i) :=
  if it.valid then it.move c Cursor.prev
  else some ⟨some ⟨c.store.columns i, (c.store.columns i).last⟩, none⟩

def copy : Iter S i :=
  { it with cursor := it.cursor.map fun cursor =>
      match cursor.entry with
      | some e => c.seek i e.1
      | none => c.newCursor i }

end Iter

namespace Container

variable (v : S.Value)

def find (i : S.Index) (k : S.Key i) : Iter S i × Container S :=
  match c.cache.get i k with
  | some (p, cache) => (⟨none, some p⟩, { c with cache := cache })
  | none =>
    let cursor := c.seek i k
    (⟨some (if cursor.entry.any (·.1 = k) then cursor else c.newCursor i), none⟩, c)

def makeIterator (i : S.Index) (k : S.Key i) : Option (Iter S i × Container S) :=
  match c.cache.get i k with
  | some (p, cache) => some (⟨none, some p⟩, { c with cache := cache })
  | none =>
    let cursor := c.seek i k
    if cursor.entry.isSome then some (⟨some cursor, none⟩, c) else none

def begin (i : S.Index) : Option (Iter S i × Container S) :=
  match c.store.firstKey i with
  | some k => c.makeIterator i k
  | none => some (⟨some ⟨c.store.columns i, (c.store.columns i).entries.head?⟩, none⟩, c)

def secondKey (i : S.Index) : Option (Option (S.Key i) × Container S) := do
  let (it, c) := c.find i (← c.store.firstKey i)
  let it ← it.next c
  if it.valid then do
    let (v, _, c) ← it.deref c
    some (some (S.key i v), c)
  else some (none, c)

def emplace : Option (Iter S 0 × Bool × Container S) :=
  match c.store.insert_ v with
  | (store, true) => do
    let (_, cache) ← c.cache.cache v
    let (it, c) ← makeIterator ⟨store, cache⟩ 0 (S.key 0 v)
    some (it, true, c)
  | (store, false) => some (.end, false, { c with store := store })

def eraseAt (c : Container S) (i : S.Index) : Option (Container S) := do
  let (second, c) ← if c.store.firstKey i = some (S.key i v) then c.secondKey i else some (none, c)
  some { c with store := c.store.eraseAt v i second }

def erase_ : Option (Container S) := do
  let c ← (List.finRange _).foldlM (eraseAt v) c
  let cache ← c.cache.invalidate v
  some ⟨c.store.publish (c.store.entryCount - 1), cache⟩

def modifyAt (v v' : S.Value) (i : S.Index) (c : Container S) : Option (Container S × Bool) := do
  let (second, c) ←
    if ¬c.store.Refuses v v' i ∧ c.store.firstKey i = some (S.key i v) ∧
      S.key i v < S.key i v' then c.secondKey i
    else some (none, c)
  let (store, status) := c.store.modifyAt v v' i second
  some ({ c with store := store }, status)

def modifiedIndices (v v' : S.Value) : List S.Index :=
  (List.finRange _).filter fun i => i ≠ 0 ∧ S.key i v' ≠ S.key i v

def modify_ (mod : S.Value → S.Value) : Option (Container S × Bool) := do
  let v' := mod v
  let (c, status) ← chainM (modifyAt v v') (List.finRange _) c
  if status then do
    let cache ← c.cache.update (S.key 0 v') v' (modifiedIndices v v')
    some (⟨c.store.publish c.store.entryCount, cache⟩, true)
  else some ({ c with store := c.store.discard }, false)

end Container

variable (position : Iter S i)

def Iter.modify (mod : S.Value → S.Value) (c : Container S) :
    Option (Container S × Bool) := do
  let (v, _, c) ← position.deref c
  c.modify_ v mod

def Iter.erase (c : Container S) : Option (Iter S i × Container S) := do
  let (v, position, c) ← position.deref c
  let position ← position.next c
  some (position, ← c.erase_ v)

end Mira
