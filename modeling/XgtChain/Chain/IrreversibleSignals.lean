import XgtChain.Chain.PushEvents

/-!
# The notices of irreversible blocks

`update_last_irreversible_block` notifies the handlers in the middle of an application.
-/

namespace Xgt

open Base List Nat

def CountsTo (m : Nat) (l : List Nat) : Prop := (l.filter (0 < ·)).eraseDups = List.range' 1 m

namespace CountsTo

variable {m a : Nat} {l : List Nat}

theorem nil : CountsTo 0 [] := rfl

theorem concat (h : CountsTo m l) (ha : a ≤ m + 1) : CountsTo (max m a) (l ++ [a]) := by
  unfold CountsTo at *
  rw [filter_append]
  obtain rfl | hpos := Nat.eq_zero_or_pos a
  · rw [filter_cons_of_neg (by simp), filter_nil, append_nil, h, Nat.max_zero]
  · rw [filter_cons_of_pos (by simpa), filter_nil, eraseDups_append, h, cons_removeAll,
      nil_removeAll]
    have hiff : (l.filter (0 < ·)).contains a = true ↔ a ≤ m := by
      rw [contains_iff_mem, ← mem_eraseDups, h, mem_range'_1]
      omega
    by_cases hle : a ≤ m
    · rw [if_neg (by rw [hiff.2 hle]; exact Bool.noConfusion), eraseDups_nil, append_nil, Nat.max_eq_left hle]
    · rw [if_pos (Bool.eq_false_iff.2 (mt hiff.1 hle)), eraseDups_cons, filter_nil, eraseDups_nil,
        Nat.max_eq_right (by omega), show a = m + 1 by omega, range'_concat, Nat.one_mul, Nat.add_comm]

theorem append_range' (h : CountsTo m l) (ha : a ≤ m + 1) (k : Nat) :
    CountsTo (max m (a + k - 1)) (l ++ List.range' a k) := by
  induction k generalizing m a l with
  | zero =>
    rw [range'_zero, append_nil, max_eq_left (by omega)]
    exact h
  | succ k ih =>
    have hnext := ih (h.concat ha) (a := a + 1) (by omega)
    rw [append_assoc] at hnext
    rw [range'_succ, show max m (a + (k + 1) - 1) = max (max m a) (a + 1 + k - 1) by omega]
    exact hnext

end CountsTo

namespace Objects

variable (s : Objects) (P : Params) (env : Env) (b : SignedBlock)

def reachIrreversible : Result Objects := do
  unlessSkipped env.skip.skipMerkleCheck (checkMerkleRoot P.toCrypto b)
  fcAssert (P.packSize b ≤ s.dgp.maximumBlockSize) "Block Size is too Big"
  let s ← s.processHeaderExtensions b
  s.checkWitness b
  let s ← s.applyTransactions P.toCrypto env b.transactions
  s.updateGlobalDynamicData P.toCrypto env b

def leaveIrreversible : Result Objects := do
  let s := s.createBlockSummary P.toCrypto b
  let s := s.clearExpiredTransactions
  let s ← s.clearNullWalletBalance
  let s ← s.rewardMiner b
  let s ← s.adjustDifficulty P env b
  s.processHardforks

theorem applyBlock_eq_reach : s.applyBlock P env b =
    (s.reachIrreversible P env b >>= fun s => s.updateLastIrreversibleBlock.leaveIrreversible P env b) := by
  unfold applyBlock reachIrreversible finishBlock leaveIrreversible
  simp only [bind_assoc]

def noticesOfUpdate : List Nat :=
  List.range' s.lib
    (s.updateLastIrreversibleBlock.lib + 1 - s.lib)

def irreversibleNotices : List Nat :=
  match s.reachIrreversible P env b with
  | .ok s => s.noticesOfUpdate
  | .error _ => []

variable {s P env b} {s' : Objects}

section

variable (h : s.reachIrreversible P env b = .ok s')
include h

theorem reachIrreversible_ok : ∃ s1 s2,
    s.processHeaderExtensions b = .ok s1 ∧ s1.checkWitness b = .ok () ∧
      s1.applyTransactions P.toCrypto env b.transactions = .ok s2 ∧ s' = s2.setHead P.toCrypto b := by
  unfold reachIrreversible at h
  iterate 2 obtain ⟨_, -, h⟩ := of_bind h
  obtain ⟨s1, hheader, h⟩ := of_bind h
  obtain ⟨_, hwitness, h⟩ := of_bind h
  obtain ⟨s2, htxs, h⟩ := of_bind h
  obtain ⟨_, -, h⟩ := of_bind h
  cases h
  exact ⟨s1, s2, hheader, hwitness, htxs, rfl⟩

theorem reachIrreversible_lastIrreversible : s'.lib = s.lib := by
  obtain ⟨s1, s2, hheader, -, htxs, rfl⟩ := reachIrreversible_ok h
  exact congrArg ChainPart.lastIrreversibleBlockNum (applyBlock_chainPart hheader htxs)

theorem reachIrreversible_headBlockNum : s'.headBlockNum = b.blockNum := by
  obtain ⟨s1, s2, -, -, -, rfl⟩ := reachIrreversible_ok h
  rfl

end

theorem applyBlock_reach (h : s.applyBlock P env b = .ok s') : ∃ r, s.reachIrreversible P env b = .ok r ∧
    s'.lib = r.updateLastIrreversibleBlock.lib := by
  have htip := congrArg (fun t => t.2.2) (applyBlock_tip h)
  rw [applyBlock_eq_reach] at h
  obtain ⟨r, hr, -⟩ := of_bind h
  refine ⟨r, hr, htip.trans ?_⟩
  unfold updateLastIrreversibleBlock
  rw [reachIrreversible_headBlockNum hr]
  split_ifs
  · rfl
  · exact (reachIrreversible_lastIrreversible hr).symm

end Objects

theorem CountsTo.noticesOfUpdate {m : Nat} {sent : List Nat} {s : Objects} (h : CountsTo m sent)
    (hold : s.lib ≤ m) :
    CountsTo (max m s.updateLastIrreversibleBlock.lib)
      (sent ++ s.noticesOfUpdate) := by
  have hrange := h.append_range' (le_succ_of_le hold)
    (s.updateLastIrreversibleBlock.lib + 1 - s.lib)
  have hmax : ∀ new : Nat, max m (s.lib +
      (new + 1 - s.lib) - 1) = max m new := by
    intro new
    omega
  rw [hmax] at hrange
  exact hrange

/-! ## The notices of a run -/

def ChainEvent.notices (P : Params) (u : UndoStack Objects) : ChainEvent → List Nat
  | .apply env b _ => u.state.irreversibleNotices P env b
  | .pop => []

def noticesOf (P : Params) : UndoStack Objects → List ChainEvent → List Nat
  | _, [] => []
  | u, e :: es => e.notices P u ++ noticesOf P (chainStep P u e) es

structure PushCall where
  skip : SkipFlags
  budget : Nat
  block : SignedBlock

namespace Node

variable {P : Params}

def pushCalls (n : Node P) (calls : List PushCall) : Node P :=
  calls.foldl (fun n c => (n.pushBlock c.skip c.budget c.block).1) n

def notices : Node P → List PushCall → List Nat
  | _, [] => []
  | n, c :: cs => noticesOf P n.db (n.pushBlockEvents c.skip c.block) ++
      notices (n.pushBlock c.skip c.budget c.block).1 cs

end Node

variable {P : Params} {u : UndoStack Objects} {sent : List Nat} {m : Nat}

structure Covers (m : Nat) (sent : List Nat) (u : UndoStack Objects) : Prop where
  counts : CountsTo m sent
  bound : ∀ s ∈ u.states, s.lib ≤ m

namespace Covers

variable (h : Covers m sent u)
include h

theorem notices (env : Env) (b : SignedBlock) :
    ∃ m', m ≤ m' ∧ Covers m' (sent ++ u.state.irreversibleNotices P env b) u ∧
      ∀ s, u.state.applyBlock P env b = .ok s → s.lib ≤ m' := by
  rcases hreach : u.state.reachIrreversible P env b with e | r
  · refine ⟨m, le_refl m, ?_, fun s hs => ?_⟩
    · rw [Objects.irreversibleNotices, hreach, append_nil]
      exact h
    · obtain ⟨r, hr, -⟩ := Objects.applyBlock_reach hs
      rw [hreach] at hr
      cases hr
  · have hold : r.lib ≤ m := by
      rw [Objects.reachIrreversible_lastIrreversible hreach]
      exact h.bound _ (mem_cons_self ..)
    refine ⟨max m r.updateLastIrreversibleBlock.lib, le_max_left ..,
      ⟨?_, fun s hs => (h.bound s hs).trans (le_max_left ..)⟩, fun s hs => ?_⟩
    · rw [Objects.irreversibleNotices, hreach]
      exact h.counts.noticesOfUpdate hold
    · obtain ⟨r', hr', hlib⟩ := Objects.applyBlock_reach hs
      rw [hreach] at hr'
      cases hr'
      exact hlib.le.trans (le_max_right ..)

theorem step (e : ChainEvent) : ∃ m', m ≤ m' ∧ Covers m' (sent ++ e.notices P u) (chainStep P u e) := by
  cases e with
  | pop =>
    refine ⟨m, le_refl m, ?_, fun s hs => h.bound s ?_⟩
    · rw [ChainEvent.notices, append_nil]
      exact h.counts
    · exact u.undo_states_suffix.mem hs
  | apply env b accepted =>
    obtain ⟨m', hle, hcovers, happly⟩ := h.notices (P := P) env b
    refine ⟨m', hle, hcovers.counts, ?_⟩
    cases accepted with
    | false => exact hcovers.bound
    | true =>
      simp only [chainStep]
      split
      · next s hs =>
        intro t ht
        have ht : t ∈ (u.start.set s).states := (UndoStack.commit_states_prefix ..).mem ht
        obtain rfl | ht := mem_cons.1 ht
        · exact happly _ hs
        · exact hcovers.bound t ht
      · exact hcovers.bound

theorem events (es : List ChainEvent) :
    ∃ m', m ≤ m' ∧ Covers m' (sent ++ noticesOf P u es) (es.foldl (chainStep P) u) := by
  induction es generalizing m sent u with
  | nil =>
    refine ⟨m, le_refl m, ?_⟩
    rw [noticesOf, append_nil]
    exact h
  | cons e es ih =>
    obtain ⟨m1, hle1, h1⟩ := h.step (P := P) e
    obtain ⟨m2, hle2, h2⟩ := ih h1
    rw [append_assoc] at h2
    exact ⟨m2, hle1.trans hle2, h2⟩

end Covers

namespace Node

theorem pushCalls_covers {n : Node P} (h : Covers m sent n.db) (calls : List PushCall) :
    ∃ m', m ≤ m' ∧ Covers m' (sent ++ n.notices calls) (n.pushCalls calls).db := by
  induction calls generalizing m sent n with
  | nil =>
    refine ⟨m, le_refl m, ?_⟩
    rw [notices, append_nil]
    exact h
  | cons c cs ih =>
    obtain ⟨m1, hle1, h1⟩ := h.events (P := P) (n.pushBlockEvents c.skip c.block)
    rw [n.pushBlock_leadsBy c.skip c.budget c.block] at h1
    obtain ⟨m2, hle2, h2⟩ := ih h1
    rw [append_assoc] at h2
    exact ⟨m2, hle1.trans hle2, h2⟩

theorem irreversible_notices_first (P : Params) (calls : List PushCall) :
    ∃ m, (((init P).notices calls).filter (0 < ·)).eraseDups = List.range' 1 m ∧
      ((init P).pushCalls calls).objects.lib ≤ m := by
  have hinit : Covers 0 [] (init P).db := ⟨.nil, fun s hs => by
    cases mem_singleton.1 hs
    exact le_refl 0⟩
  obtain ⟨m, -, hcovers⟩ := pushCalls_covers hinit calls
  exact ⟨m, hcovers.counts, hcovers.bound _ (mem_cons_self ..)⟩

theorem irreversible_notices_repeat :
    let trunk := toyChain .zero 1 10
    let tip := toyId (trunk.getLast?.getD (toyBlock .zero 0))
    let blocks := trunk ++ toyChain tip 20 1 ++ toyChain tip 30 2
    (init toyParams).notices (blocks.map fun b => ⟨skipNothing, 0, b⟩) =
      List.replicate 10 0 ++ [0, 1] ++ [0, 1] ++ [1, 2] := by
  decide +kernel

end Node

end Xgt
