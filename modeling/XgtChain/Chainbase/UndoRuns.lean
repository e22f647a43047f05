import XgtChain.Base.UndoStack
import XgtChain.Chainbase.Undo

/-!
# Runs of an index

An index with its change sets refines a table with an undo stack that saves whole tables (`Refines`).
-/

namespace Chainbase

open Base List UndoStack

variable {α : Type} [Keyed α]

inductive Stacked : Table α → List (UndoState α) → List (Nat × Table α) → Prop where
  | nil {now : Table α} (hnow : now.Legal) : Stacked now [] []
  | cons {now base : Table α} {st : UndoState α} {stack : List (UndoState α)}
      {saved : List (Nat × Table α)} (hnow : now.Legal) (hst : Restores st now.find? base)
      (hle : base.nextId ≤ now.nextId) (hrest : Stacked base stack saved) :
      Stacked now (st :: stack) ((st.revision, base) :: saved)

namespace Stacked

variable {now now' : Table α} {stack : List (UndoState α)} {saved : List (Nat × Table α)}

section

variable (h : Stacked now stack saved)
include h

theorem legal : now.Legal := by
  cases h with
  | nil hnow | cons hnow => exact hnow

theorem nil_iff : stack = [] ↔ saved = [] := by
  cases h <;> simp

theorem revisions : stack.map UndoState.revision = saved.map Prod.fst := by
  induction h with
  | nil _ => rfl
  | cons _ _ _ _ ih => rw [map_cons, map_cons, ih]

theorem length_eq : stack.length = saved.length := by
  simpa using congrArg length h.revisions

theorem modifyHead {f : UndoState α → UndoState α} (hnow' : now'.Legal)
    (hle : now.nextId ≤ now'.nextId) (hrevision : ∀ st, (f st).revision = st.revision)
    (hf : ∀ st base, Restores st now.find? base → base.Legal → base.nextId ≤ now.nextId →
      Restores (f st) now'.find? base) : Stacked now' (stack.modifyHead f) saved := by
  cases h with
  | nil _ => exact .nil hnow'
  | cons hnow hst hle' hrest =>
    rw [modifyHead_cons, ← hrevision]
    exact .cons hnow' (hf _ _ hst hrest.legal hle') (hle'.trans hle) hrest

theorem commit (r : Nat) :
    Stacked now (stack.rdropWhile fun st => st.revision ≤ r) (saved.rdropWhile fun e => e.1 ≤ r) := by
  induction h with
  | nil hnow => exact .nil hnow
  | @cons now base st stack saved hnow hst hle hrest ih =>
    have hnil := ih.nil_iff
    rw [rdropWhile_cons, rdropWhile_cons]
    by_cases hdrop : stack.rdropWhile (fun st => st.revision ≤ r) = [] ∧ st.revision ≤ r
    · rw [if_pos (by simpa using hdrop), if_pos (by simpa [← hnil] using hdrop)]
      exact .nil hnow
    · rw [if_neg (by simpa using hdrop), if_neg (by simpa [← hnil] using hdrop)]
      exact .cons hnow hst hle ih

end

end Stacked

namespace GenericIndex

variable {g g' : GenericIndex α} {id : Nat} {obj v : α} {e : String}

theorem emplace_ok (h : emplace v g = .ok () g') :
    (∀ j w, g.find? j = some w → Keyed.clash v w = false) ∧
      g'.toTable = ⟨g.indices.set g.nextId v, g.nextId + 1⟩ ∧
      g'.stack = g.stack.modifyHead (·.onCreate g.nextId) ∧ g'.revision = g.revision := by
  obtain ⟨⟨⟩, g1, hstore, h⟩ := run_bind_ok_iff.1 h
  obtain ⟨indices, hresult, rfl⟩ := store_ok_iff.1 hstore
  obtain ⟨-, hfree, rfl⟩ := MultiIndex.emplace?_eq_some_iff.1 hresult
  cases h
  exact ⟨hfree, rfl, rfl, rfl⟩

theorem emplace_error (h : emplace v g = .error e g') : g' = g := by
  rcases run_bind_error_iff.1 h with hstore | ⟨⟨⟩, g1, -, h⟩
  · exact store_error hstore
  · cases h

theorem modify_ok (h : modify id obj v g = .ok () g') :
    (∀ j w, g.find? j = some w → j ≠ id → Keyed.clash v w = false) ∧
      g'.toTable = ⟨g.indices.set id v, g.nextId⟩ ∧
      g'.stack = g.stack.modifyHead (·.onModify id obj) ∧ g'.revision = g.revision := by
  obtain ⟨indices, hresult, rfl⟩ := store_ok_iff.1 h
  obtain ⟨hfree, rfl⟩ := MultiIndex.modify?_eq_some_iff.1 hresult
  exact ⟨hfree, rfl, rfl, rfl⟩

theorem modify_error (h : modify id obj v g = .error e g') : g' = g.onHead (·.onModify id obj) :=
  store_error h

def Addresses (g : GenericIndex α) : RowCall α → Prop
  | .create _ => True
  | .modify id obj _ | .remove id obj => g.find? id = some obj

end GenericIndex

/-! ## The refinement -/

structure Refines (g : GenericIndex α) (u : UndoStack (Table α)) : Prop where
  table : g.toTable = u.state
  revision : g.revision = u.revision
  stacked : Stacked g.toTable g.stack u.saved
  consecutive : Consecutive u.revision u.saved

namespace Refines

variable {g g' : GenericIndex α} {u : UndoStack (Table α)} {id : Nat} {obj v : α} {e : String}

theorem init {t : Table α} (ht : t.Legal) (r : Nat) : Refines ⟨t, [], r⟩ ⟨t, r, []⟩ :=
  ⟨rfl, rfl, .nil ht, .nil r⟩

theorem start (h : Refines g u) : Refines g.startUndoSession u.start where
  table := h.table
  revision := congrArg (· + 1) h.revision
  stacked := by
    change Stacked g.toTable _ ((u.revision + 1, u.state) :: u.saved)
    rw [← h.revision, ← h.table]
    exact .cons h.stacked.legal (.start _ _) le_rfl h.stacked
  consecutive := h.consecutive.cons _

theorem update {f : UndoState α → UndoState α} (h : Refines g u) (g' : GenericIndex α)
    (hstack : g'.stack = g.stack.modifyHead f) (hrev : g'.revision = g.revision)
    (hlegal : g'.toTable.Legal) (hle : g.nextId ≤ g'.nextId)
    (hrevision : ∀ st, (f st).revision = st.revision)
    (hf : ∀ st base, Restores st g.find? base → base.Legal → base.nextId ≤ g.nextId →
      Restores (f st) g'.find? base) : Refines g' (u.set g'.toTable) where
  table := rfl
  revision := hrev.trans h.revision
  stacked := by
    rw [hstack]
    exact h.stacked.modifyHead hlegal hle hrevision hf
  consecutive := h.consecutive

open GenericIndex

section

variable (h : Refines g u)
include h

theorem emplace (hcall : emplace v g = .ok () g') : Refines g' (u.set g'.toTable) := by
  obtain ⟨hfree, htable, hstack, hrev⟩ := emplace_ok hcall
  refine h.update _ hstack hrev ?_ ?_ (fun st => rfl) fun st base hst hbase hle => ?_
  · rw [htable]
    exact h.stacked.legal.set (Nat.lt_succ_self _) (Nat.le_succ _) fun j w hw _ => hfree j w hw
  · exact (Nat.le_succ _).trans_eq (congrArg Table.nextId htable).symm
  · rw [htable, Table.find?_set]
    exact hst.create hle (hbase.fresh _ hle) (h.stacked.legal.fresh _ le_rfl) v

section

variable (hrow : g.find? id = some obj)
include hrow

theorem modify (hcall : modify id obj v g = .ok () g') : Refines g' (u.set g'.toTable) := by
  obtain ⟨hfree, htable, hstack, hrev⟩ := modify_ok hcall
  refine h.update _ hstack hrev ?_ ?_ (fun st => (st.onModify_frame id obj).2) fun st base hst _ _ => ?_
  · rw [htable]
    exact h.stacked.legal.set (h.stacked.legal.lt_nextId hrow) le_rfl hfree
  · exact (congrArg Table.nextId htable).ge
  · rw [htable, Table.find?_set]
    exact hst.modify hrow v

theorem save : Refines (g.onHead (·.onModify id obj)) (u.set g.toTable) := by
  refine h.update (g.onHead _) rfl rfl h.stacked.legal le_rfl
    (fun st => (st.onModify_frame id obj).2) fun st base hst _ _ => ?_
  have hsaved := hst.modify hrow obj
  rw [Function.update_eq_self_iff.2 hrow.symm] at hsaved
  exact hsaved

theorem remove : Refines (g.remove id obj) (u.set (g.remove id obj).toTable) := by
  refine h.update (g.remove id obj) rfl rfl (h.stacked.legal.erase id) le_rfl
    (fun st => (st.onRemove_frame id obj).2) fun st base hst _ _ => ?_
  have hremoved := hst.remove hrow
  rw [← Table.find?_erase g.toTable id g.nextId] at hremoved
  exact hremoved

end

theorem call {c : RowCall α} (hc : g.Addresses c) :
    Refines (after (call c g)) (u.set (after (call c g)).toTable) := by
  have hsame : u.set g.toTable = u := by rw [h.table]; rfl
  cases c with
  | create v =>
    cases hcall : GenericIndex.emplace v g with
    | ok _ g' =>
      rw [GenericIndex.call, hcall]
      exact h.emplace hcall
    | error e g' =>
      rw [GenericIndex.call, hcall, emplace_error hcall]
      exact hsame.symm ▸ h
  | modify id obj v =>
    cases hcall : GenericIndex.modify id obj v g with
    | ok _ g' =>
      rw [GenericIndex.call, hcall]
      exact h.modify hc hcall
    | error e g' =>
      rw [GenericIndex.call, hcall, modify_error hcall]
      exact h.save hc
  | remove id obj => exact h.remove hc

theorem undo (hundo : undo g = .ok () g') : Refines g' u.undo := by
  obtain ⟨state, revision, saved⟩ := u
  obtain ⟨htable, hrevision, hstacked, hconsecutive⟩ := h
  cases hstack : g.stack with
  | nil =>
    rw [hstack] at hstacked
    cases hstacked with
    | nil hlegal =>
      cases (undo_nil hstack).symm.trans hundo
      exact ⟨htable, hrevision, hstack ▸ .nil hlegal, .nil _⟩
  | cons st rest =>
    rw [hstack] at hstacked
    cases hstacked with
    | cons hnow hst hle hrest =>
      obtain ⟨htable', hstack', hrevision'⟩ := undo_ok hstack hst hundo
      refine ⟨htable', ?_, ?_, ?_⟩
      · exact hrevision'.trans (congrArg (· - 1) hrevision)
      · rw [htable', hstack']
        exact hrest
      · exact hconsecutive.tail.2

theorem undo_throws (hundo : GenericIndex.undo g = .error e g') : Refines g' (u.set g'.toTable) := by
  obtain ⟨state, revision, saved⟩ := u
  obtain ⟨htable, hrevision, hstacked, hconsecutive⟩ := h
  cases hstack : g.stack with
  | nil =>
    rw [undo_nil hstack] at hundo
    cases hundo
  | cons st rest =>
    rw [hstack] at hstacked
    cases hstacked with
    | cons hnow hst hle hrest =>
      obtain ⟨hg', hst', hnow'⟩ := undo_error hstack hst hrest.legal hnow hundo
      refine ⟨rfl, ?_, ?_, hconsecutive⟩
      · rw [hg']
        exact hrevision
      · have hstack' : g'.stack = st :: rest := by rw [hg']; exact hstack
        have hle' : g'.nextId = g.nextId := by rw [hg']; rfl
        rw [hstack']
        exact .cons hnow' hst' (hle.trans_eq hle'.symm) hrest

theorem squash : Refines g.squash u.squash := by
  obtain ⟨state, revision, saved⟩ := u
  obtain ⟨htable, hrevision, hstacked, hconsecutive⟩ := h
  obtain ⟨t, stack, r⟩ := g
  cases hstacked with
  | nil hnow => exact ⟨htable, hrevision, .nil hnow, .nil _⟩
  | cons hnow hst hle hrest =>
    cases hrest with
    | nil hbase => exact ⟨htable, hrevision, .nil hnow, .nil _⟩
    | cons hbase hst' hle' hrest =>
      refine ⟨htable, congrArg (· - 1) hrevision, ?_, hconsecutive.tail.2⟩
      have hmerged := hst'.squash hst hle' hrest.legal.fresh
      have hstacked := Stacked.cons hnow hmerged (hle'.trans hle) hrest
      rw [UndoState.squash_revision] at hstacked
      exact hstacked

theorem commit (r : Nat) : Refines (g.commit r) (u.commit r) where
  table := h.table
  revision := h.revision
  stacked := h.stacked.commit r
  consecutive := h.consecutive.of_prefix (u.commit_shortens r)

theorem undoAll (hundo : undoAll g = .ok () g') : g'.toTable = u.oldest := by
  unfold GenericIndex.undoAll at hundo
  generalize hn : g.stack.length = n at hundo
  induction n generalizing g u with
  | zero =>
    cases hundo
    have hsaved : u.saved = [] := h.stacked.nil_iff.1 (length_eq_zero_iff.1 hn)
    rw [oldest, hsaved]
    exact h.table
  | succ n ih =>
    obtain ⟨⟨⟩, g1, hfirst, hrest⟩ := run_bind_ok_iff.1 hundo
    have h1 := h.undo hfirst
    rw [← oldest_undo]
    refine ih h1 ?_ hrest
    rw [h1.stacked.length_eq, undo_saved, length_tail, ← h.stacked.length_eq, hn]
    rfl

theorem undo_completes_iff {r : Nat} {base : Table α} {rest : List (Nat × Table α)}
    (hsaved : u.saved = (r, base) :: rest) :
    (∃ g', GenericIndex.undo g = .ok () g') ↔ Undoable base g.toTable := by
  have hstacked := h.stacked
  rw [hsaved] at hstacked
  cases hstack : g.stack with
  | nil =>
    rw [hstack] at hstacked
    cases hstacked
  | cons st stack =>
    rw [hstack] at hstacked
    cases hstacked with
    | cons hnow hst hle hrest => exact GenericIndex.undo_completes_iff hstack hst hrest.legal hnow

end

end Refines

open GenericIndex

/-- Calls on an index beside those on a stack of tables. -/
inductive Run : GenericIndex α → UndoStack (Table α) → Prop where
  | init {t : Table α} (ht : t.Legal) (r : Nat) : Run ⟨t, [], r⟩ ⟨t, r, []⟩
  | start {g : GenericIndex α} {u : UndoStack (Table α)} (h : Run g u) : Run g.startUndoSession u.start
  | call {g : GenericIndex α} {u : UndoStack (Table α)} {c : RowCall α} (h : Run g u)
      (hc : g.Addresses c) : Run (after (call c g)) (u.set (after (call c g)).toTable)
  | undo {g g' : GenericIndex α} {u : UndoStack (Table α)} (h : Run g u)
      (hundo : undo g = .ok () g') : Run g' u.undo
  | undoThrows {g g' : GenericIndex α} {u : UndoStack (Table α)} {e : String} (h : Run g u)
      (hundo : undo g = .error e g') : Run g' (u.set g'.toTable)
  | squash {g : GenericIndex α} {u : UndoStack (Table α)} (h : Run g u) : Run g.squash u.squash
  | commit {g : GenericIndex α} {u : UndoStack (Table α)} (h : Run g u) (r : Nat) :
      Run (g.commit r) (u.commit r)

namespace Run

variable {g : GenericIndex α} {u : UndoStack (Table α)}

theorem refines (h : Run g u) : Refines g u := by
  induction h with
  | init ht r => exact .init ht r
  | start _ ih => exact ih.start
  | call _ hc ih => exact ih.call hc
  | undo _ hundo ih => exact ih.undo hundo
  | undoThrows _ hundo ih => exact ih.undo_throws hundo
  | squash _ ih => exact ih.squash
  | commit _ r ih => exact ih.commit r

theorem undo_restores (h : Run g u) :
    g.toTable = u.state ∧ g.stack.map UndoState.revision = u.saved.map Prod.fst ∧
      (∀ g', g.undo = .ok () g' → g'.toTable = u.undo.state ∧ g'.stack = g.stack.tail) ∧
      g.squash.toTable = g.toTable ∧
      ∀ r, (g.commit r).toTable = g.toTable ∧
        ∀ g', (g.commit r).undoAll = .ok () g' →
          g'.toTable = (u.commit r).oldest ∧ (∀ t, (r + 1, t) ∈ u.saved → g'.toTable = t) ∧
          ((∀ e ∈ u.saved, e.1 ≤ r) → g'.toTable = g.toTable) := by
  have hg := h.refines
  refine ⟨hg.table, hg.stacked.revisions,
    fun g' hundo => ⟨(hg.undo hundo).table, undo_stack hundo⟩, squash_toTable g,
    fun r => ⟨rfl, fun g' hundo => ?_⟩⟩
  have holdest := (hg.commit r).undoAll hundo
  refine ⟨holdest, fun t ht => ?_, fun hall => ?_⟩
  · rw [holdest, hg.consecutive.oldest_commit ht]
  · rw [holdest, oldest_commit_of_le hall, hg.table]

theorem undo_completes {r : Nat} {base : Table α} {rest : List (Nat × Table α)} (h : Run g u)
    (hsaved : u.saved = (r, base) :: rest) : (∃ g', g.undo = .ok () g') ↔ Undoable base g.toTable :=
  h.refines.undo_completes_iff hsaved

end Run

structure NamedRow where
  name : Nat
  deriving DecidableEq

instance : Keyed NamedRow where
  clash a b := a.name = b.name

def noNames : GenericIndex NamedRow := ⟨⟨.empty, 0⟩, [], 0⟩

def twoNames : GenericIndex NamedRow := after (emplace ⟨2⟩ (after (emplace ⟨1⟩ noNames)))

theorem noNames_run : Run noNames ⟨noNames.toTable, 0, []⟩ :=
  .init ⟨fun _ _ => rfl, fun h => by cases h⟩ 0

theorem twoNames_run : Run twoNames ⟨twoNames.toTable, 0, []⟩ := by
  have hone := noNames_run.call (c := .create ⟨1⟩) trivial
  exact hone.call (c := .create ⟨2⟩) trivial

def renamed : GenericIndex NamedRow := after (call (.modify 0 ⟨1⟩ ⟨3⟩) twoNames.startUndoSession)

theorem renamed_run : Run renamed ⟨renamed.toTable, 1, [(1, twoNames.toTable)]⟩ := by
  have hrow : twoNames.startUndoSession.Addresses (.modify 0 ⟨1⟩ ⟨3⟩) := rfl
  exact twoNames_run.start.call hrow

theorem undo_renamed :
    ∃ g', renamed.undo = .ok () g' ∧ g'.toTable = twoNames.toTable ∧ g'.stack = [] := by
  obtain ⟨-, -, hundo, -⟩ := renamed_run.undo_restores
  exact ⟨_, rfl, hundo _ rfl⟩

def twoSessions : GenericIndex NamedRow :=
  after (emplace ⟨2⟩ (after (emplace ⟨1⟩ noNames.startUndoSession)).startUndoSession)

theorem undoAll_after_older_commit :
    (∃ u, Run (twoSessions.commit 1) u) ∧
      ∃ g', ((twoSessions.commit 1).commit 0).undoAll = .ok () g' ∧ g'.toTable ≠ noNames.toTable := by
  have hone := noNames_run.start.call (c := .create ⟨1⟩) trivial
  have htwo := hone.start.call (c := .create ⟨2⟩) trivial
  refine ⟨⟨_, htwo.commit 1⟩, _, rfl, fun heq => ?_⟩
  exact absurd (congrArg Table.nextId heq) (by decide)

theorem undo_completes_renamed :
    (∃ g', renamed.undo = .ok () g') ∧ Undoable twoNames.toTable renamed.toTable :=
  ⟨⟨_, rfl⟩, (renamed_run.undo_completes rfl).1 ⟨_, rfl⟩⟩

theorem undo_throws_on_taken_name :
    (∃ g g', [.modify 0 ⟨1⟩ ⟨3⟩, .modify 1 ⟨2⟩ ⟨1⟩, .modify 0 ⟨3⟩ ⟨2⟩].forM call
        twoNames.startUndoSession = .ok () g ∧
      g.undo = .error "Could not modify object, most likely a uniqueness constraint was violated" g') ∧
    ∃ g g', [.modify 0 ⟨1⟩ ⟨3⟩, .create ⟨1⟩].forM call twoNames.startUndoSession = .ok () g ∧
      g.undo = .error "Could not modify object, most likely a uniqueness constraint was violated" g' :=
  ⟨⟨_, _, rfl, rfl⟩, _, _, rfl, rfl⟩

end Chainbase
