import Mathlib.Algebra.Ring.Nat
import XgtChain.Base.Run

/-!
# The lock counters of the database

A guard locks the mutex, shared or exclusive, and counts itself in an atomic counter.
-/

namespace Chainbase

open Base List Option

inductive LockKind where
  | shared
  | exclusive
  deriving DecidableEq

inductive LockCounter where
  | readLockCount
  | writeLockCount
  deriving DecidableEq

inductive GuardPhase where
  | locked
  | counted
  | leaving
  deriving DecidableEq

structure LockGuard where
  thread : Nat
  kind : LockKind
  counter : LockCounter
  phase : GuardPhase
  deriving DecidableEq

structure Locks where
  readLockCount : Int := 0
  writeLockCount : Int := 0
  sharedCount : Nat := 0
  exclusive : Bool := false
  guards : List LockGuard := []
  deriving DecidableEq

inductive LockEvent where
  | lockRead (thread : Nat)
  | lockWrite (thread : Nat)
  | timeOut (thread : Nat) (kind : LockKind)
  | count (i : Nat)
  | uncount (i : Nat)
  | unlock (i : Nat)
  deriving DecidableEq

namespace Locks

variable (s : Locks)

def wrap (n : Int) : Int := n.bmod (2 ^ 32)

def add (delta : Int) : LockCounter → Locks
  | .readLockCount => { s with readLockCount := wrap (s.readLockCount + delta) }
  | .writeLockCount => { s with writeLockCount := wrap (s.writeLockCount + delta) }

def unlockMutex : LockKind → Locks
  | .shared => { s with sharedCount := s.sharedCount - 1 }
  | .exclusive => { s with exclusive := false }

def guardIn (i : Nat) (phase : GuardPhase) : Option LockGuard := s.guards[i]?.filter fun g => g.phase = phase

def step : LockEvent → Option Locks
  | .lockRead t =>
    if s.exclusive then none
    else some { s with
      sharedCount := s.sharedCount + 1
      guards := ⟨t, .shared, .writeLockCount, .locked⟩ :: s.guards }
  | .lockWrite t =>
    if s.exclusive || 0 < s.sharedCount then none
    else some { s with
      exclusive := true
      guards := ⟨t, .exclusive, .writeLockCount, .locked⟩ :: s.guards }
  | .timeOut _ _ => some s
  | .count i => (s.guardIn i .locked).map fun g =>
      { s.add 1 g.counter with guards := s.guards.set i { g with phase := .counted } }
  | .uncount i => (s.guardIn i .counted).map fun g =>
      { s.add (-1) g.counter with guards := s.guards.set i { g with phase := .leaving } }
  | .unlock i => (s.guardIn i .leaving).map fun g =>
      { s.unlockMutex g.kind with guards := s.guards.eraseIdx i }

def requireWriteLock : Bool := !(s.writeLockCount ≤ 0)

def requireReadLock : Bool := !(s.readLockCount ≤ 0 && s.writeLockCount ≤ 0)

/-- One event of the locks. -/
def Step (e : LockEvent) (s' : Locks) : Prop := s.step e = some s'

/-- Who may write is alone, and no count is left behind. -/
structure Safe (s : Locks) : Prop where
  writes : s.requireWriteLock = true → s.exclusive = true
  released : s.guards = [] → s.readLockCount = 0 ∧ s.writeLockCount = 0

end Locks

/-- The event counts no shared lock. -/
def LockEvent.CountsNoReader (s : Locks) : LockEvent → Prop
  | .count i => ∀ g ∈ s.guards[i]?, g.kind ≠ .shared
  | _ => True

instance (s : Locks) (e : LockEvent) : Decidable (e.CountsNoReader s) := by
  unfold LockEvent.CountsNoReader
  split <;> infer_instance

/-! ## The guards, the mutex and the counters -/

theorem split_of_getElem? {α : Type} {l : List α} {i : Nat} {a : α} (h : l[i]? = some a) :
    ∃ l1 l2, l = l1 ++ a :: l2 ∧ (∀ b, l.set i b = l1 ++ b :: l2) ∧ l.eraseIdx i = l1 ++ l2 := by
  obtain ⟨hi, rfl⟩ := List.getElem?_eq_some_iff.1 h
  refine ⟨l.take i, l.drop (i + 1), ?_, fun b => ?_, List.eraseIdx_eq_take_drop_succ ..⟩
  · rw [← List.drop_eq_getElem_cons hi, List.take_append_drop]
  · exact set_eq_take_append_cons_drop.trans (if_pos hi)

namespace Locks

variable {s s' : Locks}
variable {i : Nat} {g : LockGuard} {e : LockEvent}

def counted (guards : List LockGuard) : Nat := guards.countP fun g => g.phase = .counted

structure Kept (s : Locks) : Prop where
  shared : s.guards.countP (fun g => g.kind = .shared) = s.sharedCount
  exclusive : s.guards.countP (fun g => g.kind = .exclusive) = if s.exclusive then 1 else 0
  apart : s.exclusive = true → s.sharedCount = 0
  counters : ∀ g ∈ s.guards, g.counter = .writeLockCount
  read : s.readLockCount = 0
  write : s.writeLockCount = wrap (counted s.guards)

theorem guardIn_eq_some {phase : GuardPhase} (h : s.guardIn i phase = some g) :
    s.guards[i]? = some g ∧ g.phase = phase := by
  obtain ⟨hg, hphase⟩ := filter_eq_some_iff.1 h
  exact ⟨hg, of_decide_eq_true hphase⟩

theorem wrap_add (n delta : Int) : wrap (wrap n + delta) = wrap (n + delta) := Int.bmod_add_bmod ..

theorem wrap_pos {n : Nat} (h : 0 < wrap n) : 0 < n := by
  obtain rfl | hpos := Nat.eq_zero_or_pos n
  · exact absurd h (by decide)
  · exact hpos

theorem Kept.recount {old new : GuardPhase} {delta : Int} (h : s.Kept)
    (hg : s.guardIn i old = some g) (hdelta : (counted [{ g with phase := new }] : Int) = counted [g] + delta) :
    ({ s.add delta g.counter with guards := s.guards.set i { g with phase := new } } : Locks).Kept := by
  obtain ⟨hi, -⟩ := guardIn_eq_some hg
  obtain ⟨l1, l2, hl, hset, -⟩ := split_of_getElem? hi
  have hkind (p : LockKind → Bool) :
      (s.guards.set i { g with phase := new }).countP (fun g => p g.kind) = s.guards.countP fun g =>
        p g.kind := by
    rw [hset, hl, countP_append, countP_append, countP_cons, countP_cons]
  have hcounter : g.counter = .writeLockCount := h.counters g (mem_of_getElem? hi)
  have hcounted : (counted (s.guards.set i { g with phase := new }) : Int) = counted s.guards + delta := by
    have hsplit (a : LockGuard) : counted (l1 ++ a :: l2) = counted (l1 ++ l2) + counted [a] := by
      simp only [counted, countP_append, countP_cons, countP_nil]
      omega
    rw [hset, hl, hsplit, hsplit]
    omega
  have hadd : s.add delta g.counter = { s with writeLockCount := wrap (s.writeLockCount + delta) } := by
    rw [hcounter]
    rfl
  rw [hadd]
  refine ⟨(hkind fun k => k = .shared).trans h.shared,
    (hkind fun k => k = .exclusive).trans h.exclusive, h.apart,
    fun g' hg' => ?_, h.read, ?_⟩
  · rcases mem_or_eq_of_mem_set hg' with hg' | rfl
    · exact h.counters g' hg'
    · exact hcounter
  · change wrap (s.writeLockCount + delta) = wrap (counted (s.guards.set i _) : Int)
    rw [hcounted, h.write, wrap_add]

theorem Kept.unlock (h : s.Kept) (hg : s.guardIn i .leaving = some g) :
    ({ s.unlockMutex g.kind with guards := s.guards.eraseIdx i } : Locks).Kept := by
  obtain ⟨hi, hphase⟩ := guardIn_eq_some hg
  obtain ⟨l1, l2, hl, -, herase⟩ := split_of_getElem? hi
  have hcount (p : LockGuard → Bool) : s.guards.countP p =
      (s.guards.eraseIdx i).countP p + if p g then 1 else 0 := by
    rw [herase, hl, countP_append, countP_append, countP_cons, Nat.add_assoc]
  have hshared := hcount fun g => g.kind = .shared
  have hexclusive := hcount fun g => g.kind = .exclusive
  have hcounted := hcount fun g => g.phase = .counted
  rw [hphase, if_neg (by decide), Nat.add_zero] at hcounted
  have hwrite := h.write
  rw [h.shared] at hshared
  rw [h.exclusive] at hexclusive
  rw [counted, hcounted] at hwrite
  have hcounters : ∀ g' ∈ s.guards.eraseIdx i, g'.counter = .writeLockCount := fun g' hg' =>
    h.counters g' (mem_of_mem_eraseIdx hg')
  cases hkind : g.kind with
  | shared =>
    simp only [hkind, decide_true, if_true, reduceCtorEq, decide_false, Bool.false_eq_true, if_false,
      Nat.add_zero] at hshared hexclusive
    have hlocked : ¬s.exclusive = true := fun hlocked => by
      have := h.apart hlocked
      omega
    refine ⟨?_, hexclusive.symm, fun hlocked' => absurd hlocked' hlocked, hcounters, h.read, hwrite⟩
    change (s.guards.eraseIdx i).countP _ = s.sharedCount - 1
    omega
  | exclusive =>
    simp only [hkind, decide_true, if_true, reduceCtorEq, decide_false, Bool.false_eq_true, if_false,
      Nat.add_zero] at hshared hexclusive
    refine ⟨hshared.symm, ?_, nofun, hcounters, h.read, hwrite⟩
    change (s.guards.eraseIdx i).countP _ = 0
    split_ifs at hexclusive
    omega

theorem Kept.step (h : s.Kept) (hstep : s.step e = some s') : s'.Kept := by
  have hread := h.read
  have hwrite := h.write
  cases e with
  | lockRead t =>
    simp only [Locks.step] at hstep
    split_ifs at hstep with hlocked
    cases hstep
    refine ⟨?_, ?_, fun hlocked' => absurd hlocked' hlocked, forall_mem_cons.2 ⟨rfl, h.counters⟩, hread, ?_⟩
    · exact (countP_cons_of_pos rfl).trans (congrArg (· + 1) h.shared)
    · exact (countP_cons_of_neg Bool.false_ne_true).trans h.exclusive
    · exact hwrite
  | lockWrite t =>
    simp only [Locks.step] at hstep
    split_ifs at hstep with hlocked
    cases hstep
    simp only [Bool.or_eq_true, decide_eq_true_eq, not_or, Nat.not_lt, Nat.le_zero] at hlocked
    refine ⟨?_, ?_, fun _ => hlocked.2, forall_mem_cons.2 ⟨rfl, h.counters⟩, hread, ?_⟩
    · exact (countP_cons_of_neg Bool.false_ne_true).trans h.shared
    · refine (countP_cons_of_pos rfl).trans ?_
      rw [h.exclusive, if_neg hlocked.1]
      rfl
    · exact hwrite
  | timeOut t kind =>
    cases hstep
    exact h
  | count i | uncount i =>
    obtain ⟨g, hg, rfl⟩ := map_eq_some_iff.1 hstep
    refine h.recount hg ?_
    simp [counted, (guardIn_eq_some hg).2]
  | unlock i =>
    obtain ⟨g, hg, rfl⟩ := map_eq_some_iff.1 hstep
    exact h.unlock hg

theorem Kept.released (h : s.Kept) (hnone : s.guards = []) : s.readLockCount = 0 ∧ s.writeLockCount = 0 := by
  refine ⟨h.read, ?_⟩
  rw [h.write, hnone]
  rfl

/-! ## Writers -/

structure Guarded (s : Locks) : Prop where
  kept : s.Kept
  writers : ∀ g ∈ s.guards, g.phase = .counted → g.kind = .exclusive

theorem Guarded.safe (h : s.Guarded) : s.Safe := by
  refine ⟨fun hpass => ?_, h.kept.released⟩
  have hpos : 0 < s.writeLockCount := by simpa [requireWriteLock] using hpass
  rw [h.kept.write] at hpos
  obtain ⟨g, hg, hphase⟩ := countP_pos_iff.1 (wrap_pos hpos)
  have hkind := h.writers g hg (of_decide_eq_true hphase)
  have hexclusive : 0 < s.guards.countP fun g => g.kind = .exclusive :=
    countP_pos_iff.2 ⟨g, hg, decide_eq_true hkind⟩
  rw [h.kept.exclusive] at hexclusive
  by_contra hunlocked
  rw [if_neg hunlocked] at hexclusive
  exact absurd hexclusive (Nat.lt_irrefl 0)

theorem Guarded.not_safe_of_reader (h : s.Guarded) (hg : s.guards[i]? = some g)
    (hkind : g.kind = .shared) (hstep : s.step (.count i) = some s') : ¬s'.Safe := by
  have hmem := mem_of_getElem? hg
  have hshared : 0 < s.sharedCount := by
    rw [← h.kept.shared]
    exact countP_pos_iff.2 ⟨g, hmem, decide_eq_true hkind⟩
  have hunlocked : s.exclusive = false := by
    by_contra hlocked
    have := h.kept.apart (Bool.not_eq_false _ ▸ hlocked)
    omega
  have hnone : counted s.guards = 0 := by
    refine countP_eq_zero.2 fun g' hg' hphase => ?_
    have hpos : 0 < s.guards.countP fun g => g.kind = .exclusive :=
      countP_pos_iff.2 ⟨g', hg', decide_eq_true (h.writers g' hg' (of_decide_eq_true hphase))⟩
    rw [h.kept.exclusive, hunlocked] at hpos
    exact absurd hpos (by decide)
  obtain ⟨g', hg', rfl⟩ := map_eq_some_iff.1 hstep
  cases (guardIn_eq_some hg').1.symm.trans hg
  intro hsafe
  have hpass : s.exclusive = true := by
    have hwrites := hsafe.writes
    simp only [h.kept.counters g hmem, requireWriteLock, add, h.kept.write, hnone] at hwrites
    exact hwrites (by decide)
  rw [hunlocked] at hpass
  cases hpass

theorem Guarded.step (h : s.Guarded) (hstep : s.step e = some s') :
    (e.CountsNoReader s → s'.Guarded) ∧ (s'.Safe → e.CountsNoReader s) := by
  have hkept := h.kept.step hstep
  have hwriters {l : List LockGuard} (hl : ∀ g ∈ l, g ∈ s.guards) :
      ∀ g ∈ l, g.phase = .counted → g.kind = .exclusive := fun g hg => h.writers g (hl g hg)
  cases e with
  | lockRead t | lockWrite t =>
    simp only [Locks.step] at hstep
    split_ifs at hstep
    cases hstep
    exact ⟨fun _ => ⟨hkept, forall_mem_cons.2 ⟨nofun, h.writers⟩⟩, fun _ => trivial⟩
  | timeOut t kind =>
    cases hstep
    exact ⟨fun _ => h, fun _ => trivial⟩
  | count i =>
    constructor
    · intro hreader
      obtain ⟨g, hg, rfl⟩ := map_eq_some_iff.1 hstep
      refine ⟨hkept, fun g' hg' hphase => ?_⟩
      rcases mem_or_eq_of_mem_set hg' with hg' | rfl
      · exact h.writers g' hg' hphase
      · have hkind := hreader g (guardIn_eq_some hg).1
        change g.kind = .exclusive
        cases hk : g.kind with
        | shared => exact absurd hk hkind
        | exclusive => rfl
    · intro hsafe g hg hkind
      exact h.not_safe_of_reader hg hkind hstep hsafe
  | uncount i =>
    obtain ⟨g, hg, rfl⟩ := map_eq_some_iff.1 hstep
    refine ⟨fun _ => ⟨hkept, fun g' hg' hphase => ?_⟩, fun _ => trivial⟩
    rcases mem_or_eq_of_mem_set hg' with hg' | rfl
    · exact h.writers g' hg' hphase
    · cases hphase
  | unlock i =>
    obtain ⟨g, hg, rfl⟩ := map_eq_some_iff.1 hstep
    exact ⟨fun _ => ⟨hkept, hwriters fun g' hg' => mem_of_mem_eraseIdx hg'⟩, fun _ => trivial⟩

theorem Guarded.init : Guarded {} := ⟨⟨rfl, rfl, nofun, nofun, rfl, rfl⟩, nofun⟩

theorem counters_released {events : List (Locks × LockEvent)} (h : Run Step {} events s)
    (hnone : s.guards = []) :
    s.readLockCount = 0 ∧ s.writeLockCount = 0 :=
  (h.invariant (I := Kept) Guarded.init.kept fun _ hs hstep => hs.step hstep).1.released hnone

theorem requireWriteLock_exclusive_iff {events : List (Locks × LockEvent)} (h : Run Step {} events s) :
    (s.guards = [] → s.readLockCount = 0 ∧ s.writeLockCount = 0) ∧
      ((∀ p ∈ events, p.1.Safe) ∧ s.Safe ↔ ∀ p ∈ events, p.2.CountsNoReader p.1) :=
  ⟨counters_released h, h.invariant_iff .init Guarded.safe fun hs hstep => hs.step hstep⟩

theorem requireWriteLock_exclusive_writer :
    let locked : Locks := { exclusive := true, guards := [⟨0, .exclusive, .writeLockCount, .locked⟩] }
    let held : Locks := { locked with writeLockCount := 1, guards :=
      [⟨0, .exclusive, .writeLockCount, .counted⟩] }
    Run Step {} [({}, .lockWrite 0), (locked, .count 0)] held ∧ held.Safe ∧ held.requireWriteLock = true := by
  intro locked held
  have hrun : Run Step {} [({}, .lockWrite 0), (locked, .count 0)] held :=
    .cons (show Step {} (.lockWrite 0) locked from rfl) (.single rfl)
  exact ⟨hrun, ((requireWriteLock_exclusive_iff hrun).2.2 (by decide)).2, rfl⟩

theorem reader_may_write :
    let locked : Locks := { sharedCount := 1, guards := [⟨0, .shared, .writeLockCount, .locked⟩] }
    let held : Locks := { locked with writeLockCount := 1, guards := [⟨0, .shared, .writeLockCount, .counted⟩] }
    Run Step {} [({}, .lockRead 0), (locked, .count 0)] held ∧ held.requireWriteLock = true ∧
      held.exclusive = false ∧ ¬held.Safe := by
  intro locked held
  exact ⟨.cons (show Step {} (.lockRead 0) locked from rfl) (.single rfl), rfl, rfl,
    fun hsafe => Bool.false_ne_true (hsafe.writes rfl)⟩

end Locks

end Chainbase
