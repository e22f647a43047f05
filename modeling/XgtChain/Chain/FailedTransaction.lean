import Mathlib.Data.Sum.Basic
import XgtChain.Chain.SessionRuns
import XgtChain.Chain.PendingQueue

/-!
# Transactions that fail

`push_transaction` as a program on the indexes of the database, those of the plugins included (`Live`).
-/

namespace Xgt

open Base Chainbase UndoStack List

structure PluginIndexes where
  Name : Type
  Object : Name → Type
  [decidableEq : DecidableEq Name]
  [keyed : ∀ i, Keyed (Object i)]
  added : List Name
  nodup_added : added.Nodup
  mem_added : ∀ i, i ∈ added

attribute [instance] PluginIndexes.decidableEq PluginIndexes.keyed

namespace PluginIndexes

variable (Q : PluginIndexes)

abbrev Index := TableName ⊕ Q.Name

abbrev Row : Q.Index → Type
  | .inl t => Xgt.Row t
  | .inr i => Q.Object i

instance : (i : Q.Index) → Keyed (Q.Row i)
  | .inl t => (inferInstance : Keyed (Xgt.Row t))
  | .inr i => (inferInstance : Keyed (Q.Object i))

def indexList : List Q.Index := TableName.indexList.map .inl ++ Q.added.map .inr

theorem nodup_indexList : Q.indexList.Nodup := by
  refine nodup_append.2 ⟨TableName.nodup_indexList.map fun _ _ => Sum.inl.inj,
    Q.nodup_added.map fun _ _ => Sum.inr.inj, ?_⟩
  intro i hi j hj heq
  obtain ⟨t, -, rfl⟩ := mem_map.1 hi
  obtain ⟨k, -, rfl⟩ := mem_map.1 hj
  cases heq

theorem mem_indexList (i : Q.Index) : i ∈ Q.indexList := by
  cases i with
  | inl t => exact mem_append_left _ (mem_map_of_mem (TableName.mem_indexList t))
  | inr i => exact mem_append_right _ (mem_map_of_mem (Q.mem_added i))

def join (p : Tables Xgt.Row) (q : Tables Q.Object) : Tables Q.Row
  | .inl t => p t
  | .inr i => q i

def view (s : Objects × Tables Q.Object) : Tables Q.Row := Q.join s.1.view s.2

variable {Q}

theorem join_update (p : Tables Xgt.Row) (q : Tables Q.Object) (t : TableName) (r : ObjectIndex (Xgt.Row t)) :
    Q.join (Function.update p t r) q = Function.update (Q.join p q) (.inl t) r := by
  have hjoin (p : Tables Xgt.Row) : Q.join p q = Sum.rec p q := funext fun i => by cases i <;> rfl
  rw [hjoin, hjoin]
  exact Sum.rec_update_left ..

end PluginIndexes

structure Live (Q : PluginIndexes) where
  db : Chainbase.Database Q.Row
  pendingSession : Bool := false
  pendingTx : List SignedTransaction := []
  skip : SkipFlags
  isProducing : Bool := false
  isPendingTx : Bool := false

structure Attempt (Q : PluginIndexes) where
  calls : List (IndexCall Q.Row)
  outcome : Result Unit

namespace Live

variable {Q : PluginIndexes} (l : Live Q) (cs : List (IndexCall Q.Row)) (P : Params) (t : SignedTransaction)
  (skip : SkipFlags)

def startUndoSession : Live Q := { l with db := l.db.startUndoSession }

def squash : Live Q := { l with db := l.db.squash }

def commit (revision : Nat) : Live Q := { l with db := l.db.commit revision }

def calls : Live Q := { l with db := l.db.calls cs }

def undo : Option (Live Q) :=
  match Database.undo Q.indexList l.db with
  | .ok _ db => some { l with db := db }
  | .error _ _ => none

def openPendingSession : Live Q :=
  if l.pendingSession then l else { l.startUndoSession with pendingSession := true }

def pushTransactionCore (a : Attempt Q) : Option (Live Q × Result Unit) :=
  let l := l.openPendingSession.startUndoSession.calls a.calls
  match a.outcome with
  | .error e => l.undo.map fun l => (l, .error e)
  | .ok _ => some ({ l.squash with pendingTx := l.pendingTx ++ [t] }, .ok ())

def withSkipFlags (body : Live Q → Option (Live Q × Result Unit)) : Option (Live Q × Result Unit) :=
  (body { l with skip := skip }).map fun r => ({ r.1 with skip := l.skip }, r.2)

def setFlags (on : Bool) : Live Q := { l with isProducing := on, isPendingTx := on }

def fitsBlock : Bool :=
  ((l.db (.inl .dynamicGlobalProperty)).find? 0).any fun dgp : DynamicGlobalPropertyObject =>
    P.transactionSize t ≤ dgp.maximumBlockSize - 256

def pushTransaction (t : SignedTransaction) (a : Attempt Q) : Option (Live Q × Result Unit) :=
  let r := if l.fitsBlock P t then
      (l.setFlags true).withSkipFlags skip fun l => l.pushTransactionCore t a
    else some (l, .error ⟨.assertException, "pack_size"⟩)
  r.map fun r => (r.1.setFlags false, r.2)

def clearPending : Option (Live Q) :=
  if l.pendingSession then l.undo.map fun l => { l with pendingTx := [], pendingSession := false }
  else some { l with pendingTx := [] }

def HasTables (p : Tables Q.Row) : Prop := ∀ i, (l.db i).toTable = .ofIndex (p i)

/-- The calls fit the tables as they are. -/
def Allows : Prop := ∃ p p', l.HasTables p ∧ p.Runs cs p'

/-- A database just opened: no session, nothing pending. -/
structure Opened : Prop where
  tables : ∃ (p : Tables Q.Row) (revision : Nat), (∀ i, (Table.ofIndex (p i)).Legal) ∧
    l.db = fun i => ⟨.ofIndex (p i), [], revision⟩
  pendingSession : l.pendingSession = false
  pendingTx : l.pendingTx = []

end Live

open Live

/-! ## Steps -/

inductive LiveEvent (Q : PluginIndexes) where
  | start
  | squash
  | undo
  | commit (revision : Nat)
  | calls (cs : List (IndexCall Q.Row))
  | clearPending
  | postpone (t : SignedTransaction)
  | restore (skip : SkipFlags) (t : SignedTransaction) (a : Attempt Q)
  | push (skip : SkipFlags) (t : SignedTransaction) (a : Attempt Q)

namespace Live

variable {Q : PluginIndexes} {P : Params} {l l' : Live Q} {u : UndoStack (Tables Q.Row)}
  {t : SignedTransaction} {a : Attempt Q} {p : Tables Q.Row} {skip : SkipFlags}

def apply (P : Params) (l : Live Q) : LiveEvent Q → Option (Live Q)
  | .start => some l.startUndoSession
  | .squash => some l.squash
  | .undo => l.undo
  | .commit revision => some (l.commit revision)
  | .calls cs => some (l.calls cs)
  | .clearPending => l.clearPending
  | .postpone t => some { l with pendingTx := l.pendingTx ++ [t] }
  | .restore skip t a => (l.withSkipFlags skip fun l => l.pushTransactionCore t a).map Prod.fst
  | .push skip t a => (l.pushTransaction P skip t a).map Prod.fst

def Permits (l : Live Q) : LiveEvent Q → Prop
  | .calls cs => l.Allows cs
  | .restore _ _ a | .push _ _ a => l.Allows a.calls
  | _ => True

/-- One permitted event. -/
def Step (P : Params) (l : Live Q) (e : LiveEvent Q) (l' : Live Q) : Prop :=
  l.Permits e ∧ l.apply P e = some l'

def Mirrors (l : Live Q) (u : UndoStack (Tables Q.Row)) : Prop := Chainbase.Mirrors (fun p => p) l.db u

def pendingStack {σ : Type} (l : Live Q) (u : UndoStack σ) : UndoStack σ :=
  if l.pendingSession then u else u.start

theorem pendingStack_state {σ : Type} (l : Live Q) (u : UndoStack σ) : (l.pendingStack u).state = u.state := by
  unfold pendingStack
  split_ifs <;> rfl

section

variable (h : l.Mirrors u)
include h

theorem Mirrors.hasTables : l.HasTables u.state := fun i => (h.refines i).table

theorem Mirrors.runs {cs : List (IndexCall Q.Row)} (hcs : l.Allows cs) : ∃ p, u.state.Runs cs p := by
  obtain ⟨p, p', hp, hruns⟩ := hcs
  have heq : u.state = p := funext fun i => by
    have htable := (h.hasTables i).symm.trans (hp i)
    exact ObjectIndex.ext (congrArg Table.nextId htable) (congrArg (fun T => T.indices.entries) htable)
  exact ⟨p', heq ▸ hruns⟩

theorem Mirrors.undo :
    ∃ db, l.undo = some { l with db := db } ∧ Chainbase.Mirrors (fun p => p) db u.undo := by
  obtain ⟨db, hundo, hdb⟩ := Chainbase.Mirrors.undo h Q.nodup_indexList Q.mem_indexList
  refine ⟨db, ?_, hdb⟩
  rw [Live.undo, hundo]

theorem Mirrors.openPendingSession : l.openPendingSession.Mirrors (l.pendingStack u) := by
  unfold Live.openPendingSession pendingStack
  split_ifs
  · exact h
  · exact Chainbase.Mirrors.start h

theorem Mirrors.temporary (ha : u.state.Runs a.calls p) :
    (l.openPendingSession.startUndoSession.calls a.calls).Mirrors ((l.pendingStack u).start.set p) := by
  have hstate : (l.pendingStack u).start.state = u.state := l.pendingStack_state u
  exact Chainbase.Mirrors.calls (Chainbase.Mirrors.start h.openPendingSession) (hstate ▸ ha)

end

theorem openPendingSession_eq (l : Live Q) :
    l.openPendingSession = { l with db := l.openPendingSession.db, pendingSession := true } := by
  unfold openPendingSession
  split_ifs with hpending
  · rw [← hpending]
  · rfl

theorem withSkipFlags_error {e : Exc} (skip : SkipFlags) (t : SignedTransaction) (h : l.Mirrors u)
    (ha : u.state.Runs a.calls p) (he : a.outcome = .error e) :
    ∃ db, (l.withSkipFlags skip fun l => l.pushTransactionCore t a) =
        some ({ l with db := db, pendingSession := true }, .error e) ∧
      Chainbase.Mirrors (fun p => p) db (l.pendingStack u) := by
  have hset : Mirrors { l with skip := skip } u := h
  obtain ⟨db, hundo, hdb⟩ := (hset.temporary ha).undo
  rw [undo_set_start] at hdb
  refine ⟨db, ?_, hdb⟩
  unfold withSkipFlags pushTransactionCore
  simp only [he, hundo, Option.map_some]
  rw [openPendingSession_eq]
  rfl

theorem withSkipFlags_ok (skip : SkipFlags) (t : SignedTransaction) (h : l.Mirrors u)
    (ha : u.state.Runs a.calls p) (hok : a.outcome = .ok ()) :
    ∃ db, (l.withSkipFlags skip fun l => l.pushTransactionCore t a) =
        some ({ l with db := db, pendingSession := true, pendingTx := l.pendingTx ++ [t] }, .ok ()) ∧
      Chainbase.Mirrors (fun p => p) db ((l.pendingStack u).start.set p).squash := by
  have hset : Mirrors { l with skip := skip } u := h
  refine ⟨_, ?_, Chainbase.Mirrors.squash (hset.temporary ha)⟩
  unfold withSkipFlags pushTransactionCore
  simp only [hok, Option.map_some]
  rw [openPendingSession_eq]
  rfl

def Sound (l : Live Q) : Prop := ∃ u, l.Mirrors u

theorem Opened.sound (h : l.Opened) : l.Sound := by
  obtain ⟨p, revision, hlegal, hdb⟩ := h.tables
  refine ⟨⟨p, revision, []⟩, fun i => ?_, isChain_singleton _⟩
  rw [hdb]
  exact .init (hlegal i) revision

theorem Sound.restore (skip : SkipFlags) (t : SignedTransaction) (h : l.Sound) (ha : l.Allows a.calls) :
    ∃ l', (l.withSkipFlags skip fun l => l.pushTransactionCore t a) = some (l', a.outcome) ∧ l'.Sound := by
  obtain ⟨u, hu⟩ := h
  obtain ⟨p, hp⟩ := hu.runs ha
  rcases houtcome : a.outcome with e | ⟨⟩
  · obtain ⟨db, heq, hdb⟩ := withSkipFlags_error skip t hu hp houtcome
    exact ⟨_, heq, _, hdb⟩
  · obtain ⟨db, heq, hdb⟩ := withSkipFlags_ok skip t hu hp houtcome
    exact ⟨_, heq, _, hdb⟩

theorem Sound.push (skip : SkipFlags) (t : SignedTransaction) (h : l.Sound) (ha : l.Allows a.calls) :
    ∃ r, l.pushTransaction P skip t a = some r ∧ r.1.Sound := by
  unfold pushTransaction
  split_ifs
  · have hset : (l.setFlags true).Sound := h
    obtain ⟨l', heq, hl'⟩ := hset.restore skip t ha
    rw [heq]
    exact ⟨_, rfl, hl'⟩
  · exact ⟨_, rfl, h⟩

theorem Sound.step {e : LiveEvent Q} (h : l.Sound) (hstep : Step P l e l') : l'.Sound := by
  obtain ⟨hpermits, happly⟩ := hstep
  obtain ⟨u, hu⟩ := id h
  cases e with
  | start =>
    cases happly
    exact ⟨_, Chainbase.Mirrors.start hu⟩
  | squash =>
    cases happly
    exact ⟨_, Chainbase.Mirrors.squash hu⟩
  | undo =>
    obtain ⟨db, hundo, hdb⟩ := hu.undo
    cases hundo.symm.trans happly
    exact ⟨_, hdb⟩
  | commit revision =>
    cases happly
    exact ⟨_, Chainbase.Mirrors.commit hu revision⟩
  | calls cs =>
    cases happly
    obtain ⟨p, hp⟩ := hu.runs hpermits
    exact ⟨_, Chainbase.Mirrors.calls hu hp⟩
  | clearPending =>
    change l.clearPending = some l' at happly
    unfold clearPending at happly
    split_ifs at happly
    · obtain ⟨db, hundo, hdb⟩ := hu.undo
      rw [hundo] at happly
      cases happly
      exact ⟨_, hdb⟩
    · cases happly
      exact h
  | postpone t =>
    cases happly
    exact h
  | restore skip t a =>
    obtain ⟨l1, heq, hl1⟩ := h.restore skip t hpermits
    simp only [apply, heq, Option.map_some] at happly
    cases happly
    exact hl1
  | push skip t a =>
    obtain ⟨r, heq, hr⟩ := h.push (P := P) skip t hpermits
    simp only [apply, heq, Option.map_some] at happly
    cases happly
    exact hr

/-! ## A push that throws -/

/-- Nothing is left of the attempt but, at most, an empty pending session. -/
structure Unwound (l l' : Live Q) : Prop where
  tables : ∀ i, (l'.db i).toTable = (l.db i).toTable
  sessions : ∃ u, l.Mirrors u ∧ (l'.Mirrors u ∧ l'.pendingSession = l.pendingSession ∨
    l'.Mirrors u.start ∧ l.pendingSession = false ∧ l'.pendingSession = true)
  pendingTx : l'.pendingTx = l.pendingTx
  skip : l'.skip = l.skip
  isProducing : l'.isProducing = false
  isPendingTx : l'.isPendingTx = false

theorem Mirrors.unwound {db : Chainbase.Database Q.Row} (h : l.Mirrors u)
    (hdb : Chainbase.Mirrors (fun p => p) db (l.pendingStack u)) :
    Unwound l { l with
      db := db, pendingSession := true, isProducing := false, isPendingTx := false } where
  tables i := by
    rw [h.hasTables i, ← l.pendingStack_state u]
    exact (hdb.refines i).table
  sessions := by
    refine ⟨u, h, ?_⟩
    unfold pendingStack at hdb
    split_ifs at hdb with hpending
    · exact .inl ⟨hdb, hpending.symm⟩
    · exact .inr ⟨hdb, Bool.eq_false_of_not_eq_true hpending, rfl⟩
  pendingTx := rfl
  skip := rfl
  isProducing := rfl
  isPendingTx := rfl

theorem pushTransaction_error (hu : l.Mirrors u) (ha : l.Allows a.calls) :
    ∃ l' r, l.pushTransaction P skip t a = some (l', r) ∧ ∀ e, r = .error e → Unwound l l' := by
  obtain ⟨p, hp⟩ := hu.runs ha
  unfold pushTransaction
  split_ifs
  · have hset : (l.setFlags true).Mirrors u := hu
    rcases houtcome : a.outcome with e | ⟨⟩
    · obtain ⟨db, heq, hdb⟩ := withSkipFlags_error skip t hset hp houtcome
      rw [heq]
      exact ⟨_, _, rfl, fun _ _ => hu.unwound hdb⟩
    · obtain ⟨db, heq, -⟩ := withSkipFlags_ok skip t hset hp houtcome
      rw [heq]
      exact ⟨_, _, rfl, nofun⟩
  · exact ⟨_, _, rfl, fun _ _ => ⟨fun _ => rfl, ⟨u, hu, .inl ⟨hu, rfl⟩⟩, rfl, rfl, rfl, rfl⟩⟩

theorem failed_transaction_unwound {l0 : Live Q} {events : List (Live Q × LiveEvent Q)} (h0 : l0.Opened)
    (h : Run (Step P) l0 events l) (skip : SkipFlags) (t : SignedTransaction) (a : Attempt Q)
    (ha : l.Allows a.calls) :
    ∃ l' r, l.pushTransaction P skip t a = some (l', r) ∧ ∀ e, r = .error e → Unwound l l' := by
  obtain ⟨u, hu⟩ := (h.invariant h0.sound fun _ hs hstep => Sound.step hs hstep).1
  exact pushTransaction_error hu ha

theorem pushTransaction_outcome {r : Result Unit} (hfits : l.fitsBlock P t = true)
    (h : l.pushTransaction P skip t a = some (l', r)) : r = a.outcome := by
  unfold pushTransaction withSkipFlags pushTransactionCore at h
  rw [if_pos hfits] at h
  simp only [Option.map_map, Option.map_eq_some_iff] at h
  obtain ⟨r', hr', heq⟩ := h
  cases heq
  rcases houtcome : a.outcome with e | ⟨⟩ <;> simp only [houtcome] at hr'
  · obtain ⟨_, -, rfl⟩ := Option.map_eq_some_iff.1 hr'
    rfl
  · cases hr'
    rfl

def noPlugins : PluginIndexes where
  Name := Empty
  Object := fun _ => Unit
  keyed := nofun
  added := []
  nodup_added := nodup_nil
  mem_added := nofun

def genesisLive : Live noPlugins where
  db := fun i => ⟨.ofIndex (noPlugins.view (genesis ⟨1⟩, nofun) i), [], 0⟩
  skip := skipNothing

theorem genesisLive_opened : genesisLive.Opened where
  tables := by
    refine ⟨_, 0, fun i => ?_, rfl⟩
    cases i with
    | inl t => exact Table.legal_ofIndex (genesis_unique ⟨1⟩ t)
    | inr i => exact i.elim
  pendingSession := rfl
  pendingTx := rfl

def failingAttempt : Attempt noPlugins where
  calls := [⟨.inl .transaction, .create ⟨⟨7⟩, 0⟩⟩]
  outcome := .error ⟨.assertException, "from_account.balance"⟩

theorem failed_transaction_genesis :
    ∃ l', genesisLive.pushTransaction toyParams skipNothing (toyTransaction 0 [] [] 0) failingAttempt =
        some (l', .error ⟨.assertException, "from_account.balance"⟩) ∧ Unwound genesisLive l' := by
  have hallows : genesisLive.Allows failingAttempt.calls :=
    ⟨_, _, fun _ => rfl, .single (i := Sum.inl TableName.transaction) (.create rfl)⟩
  obtain ⟨l', r, heq, hunwound⟩ := failed_transaction_unwound (P :=
    toyParams) genesisLive_opened .nil skipNothing
    (toyTransaction 0 [] [] 0) failingAttempt hallows
  have hr : r = failingAttempt.outcome := pushTransaction_outcome rfl heq
  subst hr
  exact ⟨l', heq, hunwound _ rfl⟩

end Live

/-! ## Following a node -/

section Tables

variable {Q : PluginIndexes} {s s' : Objects} (q : Tables Q.Object)

theorem Call.Runs.tables {c : Call} (h : c.Runs s s') : ∃ cs, (Q.view (s, q)).Runs cs (Q.view (s', q)) := by
  have hone {rc : RowCall (Row c.table)} {r : ObjectIndex (Row c.table)} (hc : rc.Runs (s.view c.table) r)
      (hrow : s'.view c.table = r) (hrest : ∀ t, t ≠ c.table → s'.view t = s.view t) :
      ∃ cs, (Q.view (s, q)).Runs cs (Q.view (s', q)) := by
    unfold PluginIndexes.view
    rw [view_eq_update hrow hrest, PluginIndexes.join_update]
    exact ⟨_, .single (i := Sum.inl _) hc⟩
  cases h
  case blockSummary i id =>
    by_cases hi : i < blockSummaryCount
    · refine hone (runs_summaries id hi) rfl fun t ht => ?_
      cases t <;> first | rfl | exact absurd rfl ht
    · have hsame := summaries_of_le (f := s.blockSummaries) id (Nat.le_of_not_lt hi)
      have hview : ({ s with blockSummaries := fun j => if j = i then id else s.blockSummaries j } :
          Objects).view = s.view := funext fun t => by
        cases t <;> first | rfl | exact hsame
      unfold PluginIndexes.view
      rw [hview]
      exact ⟨_, .nil⟩
  all_goals
    refine hone (by first | assumption | exact runs_single _ _ fun _ => rfl) rfl fun t ht => ?_
    cases t <;> first | rfl | exact absurd rfl ht

theorem Objects.Trace.tables {cs : List Call} (h : Objects.Trace s cs s') :
    ∃ cs', (Q.view (s, q)).Runs cs' (Q.view (s', q)) := by
  induction h with
  | nil => exact ⟨_, .nil⟩
  | call hc => exact hc.tables q
  | append _ _ ih ih' =>
    obtain ⟨cs, ih⟩ := ih
    obtain ⟨cs', ih'⟩ := ih'
    exact ⟨_, ih.append ih'⟩

end Tables

/-- The event without the rows that it writes. -/
def LiveEvent.erase {Q : PluginIndexes} : LiveEvent Q → LiveEvent Q
  | .calls _ => .calls []
  | .restore skip t a => .restore skip t { a with calls := [] }
  | .push skip t a => .push skip t { a with calls := [] }
  | e => e

/-- The undo stack with the pending session on it. -/
def Node.sessions {P : Params} (n : Node P) : UndoStack Objects :=
  n.pendingState.elim n.db fun s => n.db.start.set s

open Node

namespace Live

variable {P : Params} {Q : PluginIndexes} {l l' : Live Q} {n n' n'' : Node P} {v : UndoStack Objects}
  {cs : List Call} {s : Objects}

def Tracks (l : Live Q) (v : UndoStack Objects) : Prop :=
  ∃ us : UndoStack (Objects × Tables Q.Object), l.Mirrors (us.map Q.view) ∧ us.map Prod.fst = v

section

variable (h : l.Tracks v)
include h

theorem Tracks.start : l.startUndoSession.Tracks v.start := by
  obtain ⟨us, hmirrors, rfl⟩ := h
  exact ⟨us.start, Chainbase.Mirrors.start hmirrors, rfl⟩

theorem Tracks.commit (r : Nat) : (l.commit r).Tracks (v.commit r) := by
  obtain ⟨us, hmirrors, rfl⟩ := h
  refine ⟨us.commit r, ?_, map_commit _ us r⟩
  rw [map_commit]
  exact Chainbase.Mirrors.commit hmirrors r

theorem Tracks.squash : l.squash.Tracks v.squash := by
  obtain ⟨us, hmirrors, rfl⟩ := h
  refine ⟨us.squash, ?_, map_squash _ us⟩
  rw [map_squash]
  exact Chainbase.Mirrors.squash hmirrors

theorem Tracks.undo : ∃ db, l.undo = some { l with db := db } ∧ Tracks { l with db := db } v.undo := by
  obtain ⟨us, hmirrors, rfl⟩ := h
  obtain ⟨db, hundo, hdb⟩ := hmirrors.undo
  refine ⟨db, hundo, us.undo, ?_, map_undo _ us⟩
  rw [map_undo]
  exact hdb

theorem Tracks.calls (hcs : Objects.Trace v.state cs s) :
    ∃ cs', l.Allows cs' ∧ (l.calls cs').Tracks (v.set s) := by
  obtain ⟨us, hmirrors, rfl⟩ := h
  obtain ⟨cs', hruns⟩ := hcs.tables us.state.2
  refine ⟨cs', ⟨_, _, hmirrors.hasTables, hruns⟩, us.set (s, us.state.2), ?_, rfl⟩
  exact Chainbase.Mirrors.calls hmirrors hruns

end

/-- The tables, sessions and pending transactions are the node's. -/
structure Holds (l : Live Q) (n : Node P) : Prop where
  tracks : l.Tracks n.sessions
  pendingSession : l.pendingSession = n.pendingState.isSome
  pendingTx : l.pendingTx = n.pendingTx

/-- A database that holds `n` comes to hold `n'` by the events `es`, with suitable rows. -/
def Follows (n : Node P) (es : List (LiveEvent Q)) (n' : Node P) : Prop :=
  ∀ l : Live Q, l.Holds n → ∃ events l', Run (Step P) l events l' ∧
    events.map (fun e => e.2.erase) = es ∧ l'.Holds n'

theorem Follows.nil (n : Node P) : Follows (Q := Q) n [] n := fun l hl => ⟨[], l, .nil, rfl, hl⟩

theorem Follows.congr {es : List (LiveEvent Q)} (h : Follows n es n') (hdb : n''.db = n'.db)
    (hstate : n''.pendingState = n'.pendingState) (hpending : n''.pendingTx = n'.pendingTx) :
    Follows n es n'' := by
  intro l hl
  obtain ⟨events, l', hrun, hevents, hl'⟩ := h l hl
  refine ⟨events, l', hrun, hevents, ?_, by rw [hstate, hl'.pendingSession], by rw [hpending, hl'.pendingTx]⟩
  rw [sessions, hdb, hstate]
  exact hl'.tracks

theorem Follows.trans {es es' : List (LiveEvent Q)} (h : Follows n es n') (h' : Follows n' es' n'') :
    Follows n (es ++ es') n'' := by
  intro l hl
  obtain ⟨events, l1, hrun, rfl, hl1⟩ := h l hl
  obtain ⟨events', l2, hrun', rfl, hl2⟩ := h' l1 hl1
  exact ⟨_, l2, hrun.trans hrun', map_append, hl2⟩

/-- The calls around a block that is applied, refused or popped. -/
def blockCalls (P : Params) (v : UndoStack Objects) : ChainEvent → List (LiveEvent Q)
  | .apply env b accepted =>
    match accepted, v.state.applyBlock P env b with
    | true, .ok s => [.start, .calls [], .commit s.lib]
    | _, _ => [.start, .calls [], .undo]
  | .pop => [.undo]

theorem Tracks.chainStep (h : l.Tracks v) (e : ChainEvent) :
    ∃ events l', Run (Step P) l events l' ∧ events.map (fun e => e.2.erase) = blockCalls P v e ∧
      l'.Tracks (chainStep P v e) ∧ l'.pendingSession = l.pendingSession ∧ l'.pendingTx = l.pendingTx := by
  have hstart : Run (Step P) l [(l, .start)] l.startUndoSession := .single ⟨trivial, rfl⟩
  have hrefused : ∃ events l', Run (Step P) l events l' ∧
      events.map (fun e => e.2.erase) = [.start, .calls [], .undo] ∧ l'.Tracks v ∧
      l'.pendingSession = l.pendingSession ∧ l'.pendingTx = l.pendingTx := by
    obtain ⟨us, hmirrors, -⟩ := h.start
    obtain ⟨db, hundo, htracks⟩ := h.start.undo
    have hcalls : Step P l.startUndoSession (.calls []) l.startUndoSession :=
      ⟨⟨_, _, hmirrors.hasTables, .nil⟩, rfl⟩
    have hback : Step P l.startUndoSession .undo { l.startUndoSession with db := db } := ⟨trivial, hundo⟩
    exact ⟨_, _, (hstart.snoc hcalls).snoc hback, rfl, htracks, rfl, rfl⟩
  match e with
  | .apply env b true =>
    rcases hblock : v.state.applyBlock P env b with e | s <;> simp only [Xgt.chainStep, blockCalls, hblock]
    · exact hrefused
    · obtain ⟨cs, hcs, -⟩ := Objects.applyBlock_calls hblock
      obtain ⟨cs', hallows, htracks⟩ := h.start.calls hcs
      have hcalls : Step P l.startUndoSession (.calls cs') (l.startUndoSession.calls cs') := ⟨hallows, rfl⟩
      have hcommit : Step P (l.startUndoSession.calls cs') (.commit s.lib) _ :=
        ⟨trivial, rfl⟩
      exact ⟨_, _, (hstart.snoc hcalls).snoc hcommit, rfl, htracks.commit _, rfl, rfl⟩
  | .apply _ _ false => exact hrefused
  | .pop =>
    obtain ⟨db, hundo, htracks⟩ := h.undo
    have hstep : Step P l .undo { l with db := db } := ⟨trivial, hundo⟩
    exact ⟨_, _, .single hstep, rfl, htracks, rfl, rfl⟩

def blocksCalls (P : Params) (v : UndoStack Objects) (es : List ChainEvent) : List (LiveEvent Q) :=
  (Run.states (Xgt.chainStep P) v es).flatMap fun p => blockCalls P p.1 p.2

theorem chainSteps_follows (hidle : n.pendingState = none) (es : List ChainEvent) :
    Follows (Q := Q) n (blocksCalls P n.db es) { n with db := es.foldl (Xgt.chainStep P) n.db } := by
  induction es generalizing n with
  | nil => exact .nil n
  | cons e es ih =>
    suffices hstep : Follows n (blockCalls P n.db e) { n with db := Xgt.chainStep P n.db e } from
      hstep.trans (ih hidle)
    intro l hl
    have htracks := hl.tracks
    rw [sessions, hidle] at htracks
    obtain ⟨events, l', hrun, hevents, h', hsession, hqueue⟩ := htracks.chainStep (P := P) e
    refine ⟨events, l', hrun, hevents, ?_, hsession.trans hl.pendingSession, hqueue.trans hl.pendingTx⟩
    rw [sessions, hidle]
    exact h'

theorem clearPending_follows (n : Node P) : Follows (Q := Q) n [.clearPending] n.clearPending := by
  intro l hl
  have htracks := hl.tracks
  have hpending := hl.pendingSession
  rw [sessions] at htracks
  cases hstate : n.pendingState <;> rw [hstate] at htracks hpending
  · have hstep : Step P l .clearPending { l with pendingTx := [] } :=
      ⟨trivial, by rw [apply, clearPending, hpending]; rfl⟩
    exact ⟨_, _, .single hstep, rfl, htracks, hpending, rfl⟩
  · obtain ⟨db, hundo, hdb⟩ := htracks.undo
    have hstep : Step P l .clearPending { l with db := db, pendingTx := [], pendingSession := false } :=
      ⟨trivial, by rw [apply, clearPending, hpending, hundo]; rfl⟩
    exact ⟨_, _, .single hstep, rfl, hdb, rfl, rfl⟩

theorem Holds.opened (h : l.Holds n) : l.openPendingSession.Tracks (n.db.start.set n.pendingObjects) := by
  have htracks := h.tracks
  unfold openPendingSession pendingObjects
  rw [h.pendingSession]
  unfold sessions at htracks
  cases hstate : n.pendingState <;> rw [hstate] at htracks
  · exact htracks.start
  · exact htracks

theorem Holds.core (h : l.Holds n) (skip : SkipFlags) (pending : Bool) (t : SignedTransaction) :
    ∃ (a : Attempt Q) (l' : Live Q), l.Allows a.calls ∧
      a.outcome = (n.pushTransactionCore skip pending t).2 ∧
      (l.withSkipFlags skip fun l => l.pushTransactionCore t a) = some (l', a.outcome) ∧
      l'.Holds (n.pushTransactionCore skip pending t).1 := by
  have hset : Holds { l with skip := skip } n := ⟨h.tracks, h.pendingSession, h.pendingTx⟩
  have hopened := hset.opened.start
  unfold withSkipFlags pushTransactionCore
  beta_reduce
  rw [openPendingSession_eq] at hopened ⊢
  rcases n.pushTransactionCore_cases skip pending t with ⟨s, hs, heq⟩ | ⟨e, -, heq⟩ <;> rw [heq]
  · obtain ⟨cs, hcs, -⟩ := Objects.applyTransaction_calls hs
    obtain ⟨cs', hallows, htracks⟩ := hopened.calls hcs
    refine ⟨⟨cs', .ok ()⟩, _, ?_, rfl, rfl, htracks.squash, rfl, congrArg (· ++ [t]) h.pendingTx⟩
    unfold openPendingSession at hallows
    split_ifs at hallows <;> exact hallows
  · obtain ⟨us, hmirrors, -⟩ := h.tracks
    obtain ⟨db, hundo, htracks⟩ := hopened.undo
    exact ⟨⟨[], .error e⟩, _, ⟨_, _, hmirrors.hasTables, .nil⟩, rfl,
      congrArg (Option.map _) (congrArg (Option.map _) hundo), htracks, rfl, h.pendingTx⟩

/-- The calls for the transactions that come back to the queue. -/
def restoreCalls (skip : SkipFlags) : Node P × Nat → List SignedTransaction → List (LiveEvent Q)
  | _, [] => []
  | r, t :: ts =>
    (match fate skip r t with
      | .dropped => []
      | .postponed => [.postpone t]
      | _ => [.restore skip t ⟨[], (r.1.pushTransactionCore skip false t).2⟩]) ++
    restoreCalls skip (restoreTransaction skip r t) ts

theorem restoreAll_follows (skip : SkipFlags) (r : Node P × Nat) (ts : List SignedTransaction) :
    Follows (Q := Q) r.1 (restoreCalls skip r ts) (restoreAll skip r ts).1 := by
  induction ts generalizing r with
  | nil => exact .nil r.1
  | cons t ts ih =>
    refine Follows.trans ?_ (ih (restoreTransaction skip r t))
    have hpushed : Follows (Q := Q) r.1 [.restore skip t ⟨[], (r.1.pushTransactionCore skip false t).2⟩]
        (r.1.pushTransactionCore skip false t).1 := by
      intro l hl
      obtain ⟨a, l', ha, hout, heq, hl'⟩ := hl.core skip false t
      have hstep : Step P l (.restore skip t a) l' := ⟨ha, by rw [apply, heq]; rfl⟩
      exact ⟨_, l', .single hstep, by rw [← hout]; rfl, hl'⟩
    have hfate := requeues skip r t
    generalize hf : fate skip r t = f at hfate
    generalize hr : restoreTransaction skip r t = r' at hfate
    cases hfate with
    | dropped => exact .nil r.1
    | postponed =>
      intro l hl
      have hstep : Step P l (.postpone t) { l with pendingTx := l.pendingTx ++ [t] } := ⟨trivial, rfl⟩
      exact ⟨_, _, .single hstep, rfl, hl.tracks, hl.pendingSession, congrArg (· ++ [t]) hl.pendingTx⟩
    | applied h hbudget hok | refused h hbudget herror =>
      rw [restoreTransaction, if_neg (c := _ ∧ _ ∨ _) h, hbudget] at hr
      rw [← hr]
      exact hpushed

/-- The calls that `push_block` and `push_transaction` make to the sessions and the queue, in order. -/
def sessionCalls (n : Node P) : QueueEvent → List (LiveEvent Q)
  | .pushBlock skip budget b =>
    match n.checkpointFlags skip b with
    | .error _ => []
    | .ok flags => [.clearPending] ++ blocksCalls P n.db (n.clearPending.pushBlockCoreEvents flags b) ++
        restoreCalls flags (n.unwound flags b, budget) (n.backlog flags b)
  | .pushTransaction skip t => [.push skip t ⟨[], (n.pushTransaction skip t).2⟩]

theorem pushBlock_follows (n : Node P) (skip : SkipFlags) (budget : Nat) (b : SignedBlock) :
    Follows (Q := Q) n (sessionCalls n (.pushBlock skip budget b)) (n.pushBlock skip budget b).1 := by
  unfold sessionCalls
  cases hflags : n.checkpointFlags skip b with
  | error e =>
    rw [pushBlock_of_error hflags]
    dsimp only
    rw [hflags]
    exact .nil n
  | ok flags =>
    -- the pending session is undone, blocks are applied and popped, and the transactions come back
    obtain ⟨hqueue, hidle⟩ := n.unwound_idle flags b
    have hdb := (n.clearPending.pushBlockCore_pushes flags b).leadsBy
    have hcore : Follows (Q := Q) n.clearPending _ (n.unwound flags b) := (chainSteps_follows rfl
      (n.clearPending.pushBlockCoreEvents flags b)).congr hdb.symm hidle hqueue
    have hrestore := restoreAll_follows (Q := Q) flags (n.unwound flags b, budget) (n.backlog flags b)
    rw [pushBlock_of_flags budget hflags]
    dsimp only
    rw [hflags]
    exact (((clearPending_follows n).trans hcore).trans hrestore).congr rfl rfl rfl

theorem Holds.fitsBlock (h : l.Holds n) (t : SignedTransaction) :
    l.fitsBlock P t = decide (P.transactionSize t ≤ n.pendingObjects.dgp.maximumBlockSize - 256) := by
  obtain ⟨us, hmirrors, hus⟩ := h.tracks
  have hstate : us.state.1 = n.pendingObjects := by
    refine (congrArg UndoStack.state hus).trans ?_
    unfold sessions pendingObjects
    cases n.pendingState <;> rfl
  have hrow : (l.db (.inl .dynamicGlobalProperty)).find? 0 = some n.pendingObjects.dgp := by
    rw [hmirrors.hasTables (.inl .dynamicGlobalProperty), ← hstate]
    exact Table.find?_ofIndex.2 (.head _)
  rw [Live.fitsBlock, hrow]
  rfl

theorem pushTransaction_follows (n : Node P) (skip : SkipFlags) (t : SignedTransaction) :
    Follows (Q := Q) n (sessionCalls n (.pushTransaction skip t)) (n.pushTransaction skip t).1 := by
  intro l h
  suffices hpush : ∃ (a : Attempt Q) (l' : Live Q), l.Allows a.calls ∧
    a.outcome = (n.pushTransaction skip t).2 ∧
      (l.pushTransaction P skip t a).map Prod.fst = some l' ∧ l'.Holds (n.pushTransaction skip t).1 by
    obtain ⟨a, l', ha, hout, heq, hl'⟩ := hpush
    have hstep : Step P l (.push skip t a) l' := ⟨ha, heq⟩
    exact ⟨_, l', .single hstep, by rw [sessionCalls, ← hout]; rfl, hl'⟩
  unfold pushTransaction Node.pushTransaction
  simp only [h.fitsBlock t, decide_eq_true_eq]
  split_ifs
  · have hset : (l.setFlags true).Holds n := ⟨h.tracks, h.pendingSession, h.pendingTx⟩
    obtain ⟨a, l', ha, hout, heq, hl'⟩ := hset.core skip true t
    refine ⟨a, l'.setFlags false, ha, hout, ?_, hl'.tracks, hl'.pendingSession, hl'.pendingTx⟩
    rw [heq]
    rfl
  · obtain ⟨us, hmirrors, -⟩ := h.tracks
    exact ⟨⟨[], _⟩, _, ⟨_, _, hmirrors.hasTables, .nil⟩, rfl, rfl, h.tracks, h.pendingSession, h.pendingTx⟩

/-- Whatever calls a node takes, the sessions of its indexes follow, by the calls that these make. -/
theorem run_follows {F : SkipFlags → Prop} {calls : List (Node P × QueueEvent)}
    (h : Run (QueueStep F) n calls n') :
    Follows (Q := Q) n (calls.flatMap fun c => sessionCalls c.1 c.2) n' := by
  induction h with
  | nil => exact .nil n
  | @snoc _ _ _ e _ hstep ih =>
    rw [flatMap_append, flatMap_singleton]
    refine ih.trans ?_
    cases e with
    | pushBlock skip budget b =>
      obtain ⟨-, rfl⟩ := hstep
      exact pushBlock_follows _ skip budget b
    | pushTransaction skip t =>
      obtain ⟨-, rfl⟩ := hstep
      exact pushTransaction_follows _ skip t

theorem run_follows_payment : ∃ (calls : List (Node toyParams × QueueEvent)) (n : Node toyParams)
    (events : List (Live noPlugins × LiveEvent noPlugins)) (l : Live noPlugins),
    calls.length = 2 ∧ Run (QueueStep fun _ => True) (.init toyParams) calls n ∧
      Run (Step toyParams) genesisLive events l ∧ events.length = 6 ∧
      events.map (fun e => e.2.erase) = calls.flatMap (fun c => sessionCalls c.1 c.2) ∧ l.Holds n := by
  let b := toyBlock .zero 3
  have hpush : QueueStep (fun _ => True) (.init toyParams) (.pushTransaction skipNothing toyPayment)
      .paid := ⟨trivial, rfl⟩
  have hblock : QueueStep (fun _ => True) .paid (.pushBlock skipNothing 1 b)
      (paid.pushBlock skipNothing 1 b).1 := ⟨fun _ _ => trivial, rfl⟩
  have hrun := (Run.single hpush).snoc hblock
  have hholds : genesisLive.Holds (.init toyParams) := by
    refine ⟨⟨⟨(genesis ⟨1⟩, nofun), 0, []⟩, ⟨fun i => ?_, .singleton _⟩, rfl⟩, rfl, rfl⟩
    cases i with
    | inl t => exact .init (Table.legal_ofIndex (genesis_unique ⟨1⟩ t)) 0
    | inr i => exact i.elim
  obtain ⟨events, l, hlive, hevents, hl⟩ := run_follows hrun genesisLive hholds
  refine ⟨_, _, events, l, rfl, hrun, hlive, ?_, hevents, hl⟩
  rw [← length_map (f := fun e => e.2.erase), hevents]
  decide +kernel

end Live

end Xgt
