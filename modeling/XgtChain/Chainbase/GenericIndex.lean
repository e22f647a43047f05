import Mathlib.Data.List.DropRight
import XgtChain.Base.Flat
import XgtChain.Base.RowCall
import XgtChain.Base.Result

/-!
# Indexes with undo states

A `GenericIndex` holds the rows of one table, the next id, and a stack of undo states, newest first.
-/

namespace Chainbase

open Base

abbrev MultiIndex (α : Type) := FlatMap Nat α

namespace MultiIndex

variable {α : Type} [Keyed α] {rows rows' : MultiIndex α} {id : Nat} {v : α}

def emplace? (rows : MultiIndex α) (id : Nat) (v : α) : Option (MultiIndex α) :=
  if (rows.find? id).isSome || rows.entries.any fun r => Keyed.clash v r.2 then none
  else some (rows.set id v)

def modify? (rows : MultiIndex α) (id : Nat) (v : α) : Option (MultiIndex α) :=
  if rows.entries.any fun r => r.1 ≠ id && Keyed.clash v r.2 then none else some (rows.set id v)

theorem emplace?_eq_some_iff :
    rows.emplace? id v = some rows' ↔
      rows.find? id = none ∧ (∀ j w, rows.find? j = some w → Keyed.clash v w = false) ∧
        rows' = rows.set id v := by
  unfold emplace?
  rw [Option.ite_none_left_eq_some, Option.some_inj, eq_comm (a := rows')]
  simp [FlatMap.find?_eq_some_iff, and_assoc]

theorem modify?_eq_some_iff :
    rows.modify? id v = some rows' ↔
      (∀ j w, rows.find? j = some w → j ≠ id → Keyed.clash v w = false) ∧
        rows' = rows.set id v := by
  unfold modify?
  rw [Option.ite_none_left_eq_some, Option.some_inj, eq_comm (a := rows')]
  simp [FlatMap.find?_eq_some_iff]

end MultiIndex

structure UndoState (α : Type) where
  oldValues : MultiIndex α
  removedValues : MultiIndex α
  newIds : FlatSet Nat
  oldNextId : Nat
  revision : Nat

namespace UndoState

variable {α : Type} (head : UndoState α) (id : Nat) (prev : UndoState α) (v : α)

def onModify : UndoState α :=
  if id ∈ head.newIds then head
  else if (head.oldValues.find? id).isSome then head
  else { head with oldValues := head.oldValues.emplace id v }

def onRemove : UndoState α :=
  if id ∈ head.newIds then { head with newIds := head.newIds.erase id }
  else match head.oldValues.find? id with
    | some old =>
      { head with
        removedValues := head.removedValues.emplace id old
        oldValues := head.oldValues.erase id }
    | none =>
      if (head.removedValues.find? id).isSome then head
      else { head with removedValues := head.removedValues.emplace id v }

def onCreate : UndoState α :=
  { head with newIds := head.newIds.insert id }

def squashRemoved (id : Nat) (v : α) : UndoState α :=
  if id ∈ prev.newIds then { prev with newIds := prev.newIds.erase id }
  else match prev.oldValues.find? id with
    | some old =>
      { prev with
        removedValues := prev.removedValues.emplace id old
        oldValues := prev.oldValues.erase id }
    | none => { prev with removedValues := prev.removedValues.emplace id v }

def squash (prev state : UndoState α) : UndoState α :=
  let prev := state.oldValues.entries.foldl (fun p item => p.onModify item.1 item.2) prev
  let prev := state.newIds.elems.foldl onCreate prev
  state.removedValues.entries.foldl (fun p item => p.squashRemoved item.1 item.2) prev

theorem squashRemoved_eq_onRemove (id : Nat) (v : α) : prev.squashRemoved id v = prev.onRemove id v := by
  unfold squashRemoved onRemove
  split_ifs with hnew hold
  · rfl
  · cases prev.oldValues.find? id with
    | some old => rfl
    | none =>
      simp only [FlatMap.emplace, hold, if_true]
  · rfl

end UndoState

structure Table (α : Type) where
  indices : MultiIndex α
  nextId : Nat

structure GenericIndex (α : Type) extends Table α where
  stack : List (UndoState α)
  revision : Nat

abbrev IndexM (α : Type) := EStateM String (GenericIndex α)

namespace GenericIndex

variable {α : Type} (g : GenericIndex α)

def onHead (f : UndoState α → UndoState α) : GenericIndex α :=
  { g with stack := g.stack.modifyHead f }

def startUndoSession : GenericIndex α :=
  { g with
    revision := g.revision + 1
    stack := ⟨.empty, .empty, .empty, g.nextId, g.revision + 1⟩ :: g.stack }

def remove (id : Nat) (obj : α) : GenericIndex α :=
  let g := g.onHead (·.onRemove id obj)
  { g with indices := g.indices.erase id }

def squash : GenericIndex α :=
  match g.stack with
  | [] => g
  | [_] => { g with stack := [] }
  | state :: prev :: rest =>
    { g with stack := prev.squash state :: rest, revision := g.revision - 1 }

def commit (revision : Nat) : GenericIndex α :=
  { g with stack := g.stack.rdropWhile fun st => st.revision ≤ revision }

def withIndices (indices : MultiIndex α) : GenericIndex α :=
  { g with indices := indices }

def store (message : String) (result : Option (MultiIndex α)) : IndexM α Unit := fun g =>
  match result with
  | none => .error message g
  | some indices => .ok () (g.withIndices indices)

structure File (α : Type) where
  indices : MultiIndex α
  revision : Nat
  nextId : Option Nat

def close : File α := ⟨g.indices, g.revision, some g.nextId⟩

def openFile (f : File α) : GenericIndex α where
  indices := f.indices
  nextId := f.nextId.getD 0
  stack := []
  revision := f.revision

theorem openFile_close {g : GenericIndex α} (h : g.stack = []) : openFile g.close = g := by
  obtain ⟨⟨indices, nextId⟩, stack, revision⟩ := g
  cases h
  rfl

section Throwing

variable [Keyed α] (item : Nat × α)

def emplace (v : α) : IndexM α Unit := fun g =>
  (do store "could not insert object, most likely a uniqueness constraint was violated"
        (g.indices.emplace? g.nextId v)
      fun g => .ok () ({ g with nextId := g.nextId + 1 }.onHead (·.onCreate g.nextId)) :
    IndexM α Unit) g

def modify (id : Nat) (obj v : α) : IndexM α Unit := fun g =>
  store "Could not modify object, most likely a uniqueness constraint was violated"
    (g.indices.modify? id v) (g.onHead (·.onModify id obj))

def call : RowCall α → IndexM α Unit
  | .create v => emplace v
  | .modify id obj v => modify id obj v
  | .remove id obj => fun g => .ok () (g.remove id obj)

def restoreOld : IndexM α Unit := fun g =>
  store "Could not modify object, most likely a uniqueness constraint was violated"
    (if (g.indices.find? item.1).isSome then g.indices.modify? item.1 item.2
     else g.indices.emplace? item.1 item.2) g

def eraseNew (id : Nat) : IndexM α Unit := fun g => .ok () (g.withIndices (g.indices.erase id))

def restoreRemoved : IndexM α Unit := fun g =>
  store "Could not restore object, most likely a uniqueness constraint was violated"
    (g.indices.emplace? item.1 item.2) g

def undo : IndexM α Unit := fun g =>
  match g.stack with
  | [] => .ok () g
  | head :: rest =>
    (do head.oldValues.entries.forM restoreOld
        head.newIds.elems.forM eraseNew
        fun g => .ok () { g with nextId := head.oldNextId }
        head.removedValues.entries.forM restoreRemoved
        fun g => .ok () { g with stack := rest, revision := g.revision - 1 } : IndexM α Unit) g

def undoLoop : Nat → IndexM α Unit
  | 0 => fun g => .ok () g
  | n + 1 => do
    undo
    undoLoop n

def undoAll : IndexM α Unit := fun g => undoLoop g.stack.length g

end Throwing

end GenericIndex

end Chainbase
