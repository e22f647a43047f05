import XgtChain.Chain.Tables
import XgtChain.Chain.Unwinding

/-!
# Sessions of the database

What the sessions of `_push_block`, `pop_block` and `_push_transaction` do to the indexes (`DbStep`).
-/

namespace Xgt

open Base Chainbase List Objects UndoStack

structure Grown (u : UndoStack Objects) : Prop where
  tracks : u.Tracks headBlockNum fun old new => new.headBlockNum = old.headBlockNum + 1
  tips : ∀ s ∈ u.states, s.TipOk ∧ s.headBlockNum < 2 ^ 32
  above : ∀ e ∈ u.saved, u.state.lib < e.1

section Grown

variable {P : Params} {env : Env} {b : SignedBlock} {s : Objects} {u : UndoStack Objects}

theorem Grown.tip (h : Grown u) : u.state.TipOk ∧ u.state.headBlockNum < 2 ^ 32 :=
  h.tips _ (.head _)

theorem Grown.init (key : PublicKey) : Grown ⟨genesis key, 0, []⟩ where
  tracks := .init (genesis key)
  tips t ht := by
    rw [mem_singleton.1 ht]
    exact ⟨⟨rfl, rfl⟩, Nat.two_pow_pos 32⟩
  above := by nofun

variable (h : Grown u)
include h

theorem Grown.apply (hblock : u.state.applyBlock P env b = .ok s)
    (hnum : s.headBlockNum = u.state.headBlockNum + 1) : Grown ((u.start.set s).commit s.lib) := by
  have htracks := h.tracks.start_set (fun _ _ => id) hnum
  have hb : s.headBlockNum = b.blockNum := congrArg Prod.fst (applyBlock_tip hblock)
  obtain ⟨htip, -⟩ := Node.tip_of_next hblock h.tip.1 (hb.symm.trans hnum)
  refine ⟨htracks.commit _, fun t ht => ?_, htracks.commit_above (fun _ _ => id) _⟩
  rcases mem_cons.1 ht with ht | ht
  · rw [show t = s from ht]
    refine ⟨htip, ?_⟩
    rw [hb]
    exact Nat.mod_lt _ (by decide)
  · obtain ⟨e, he, rfl⟩ := mem_map.1 ht
    have hmem := (commit_shortens _ _).subset he
    exact h.tips _ (mem_map_of_mem (f := Prod.snd) hmem)

theorem Grown.undo_le : u.undo.state.headBlockNum ≤ u.state.headBlockNum := by
  unfold undo
  split
  · exact le_rfl
  · next hsaved =>
    rw [h.tracks.of_cons hsaved]
    exact Nat.le_succ _

theorem Grown.undo : Grown u.undo := by
  have htips : ∀ t ∈ u.undo.states, t.TipOk ∧ t.headBlockNum < 2 ^ 32 := fun t ht =>
    h.tips t (u.undo_states_suffix.subset ht)
  refine ⟨h.tracks.undo fun _ _ => id, htips, fun e he => ?_⟩
  have habove := h.above e (mem_of_mem_tail (u.undo_saved ▸ he))
  have hle := h.undo_le
  rw [(htips _ (.head _)).1.2]
  rw [h.tip.1.2] at habove
  omega

theorem Grown.lastIrreversible_le {c : Nat} (hspans : u.Spans c) : u.state.lib ≤ c := by
  have hrevision := h.tracks.revision
  have htip : u.state.lib = u.state.headBlockNum - xgtMaxWitnesses := h.tip.1.2
  rcases Nat.eq_or_lt_of_le hspans.le with htop | hlow
  · omega
  · have hmem : c + 1 ∈ u.saved.map Prod.fst := by
      rw [hspans.revisions, mem_reverse, mem_range'_1]
      omega
    obtain ⟨e, he, hrev⟩ := mem_map.1 hmem
    have habove := h.above e he
    omega

end Grown

namespace Indexes

def undo (D : Indexes) : Indexes := after (Database.undo TableName.indexList D)

def attempt (D : Indexes) (cs : List Call) : Indexes :=
  undo (Indexes.calls (Database.startUndoSession D) cs)

end Indexes

structure DbState where
  indexes : Indexes
  db : UndoStack Objects
  pending : Option Objects
  applied : List SignedBlock
  committed : Nat

namespace DbState

variable {P : Params} {d d' : DbState}

def stack (d : DbState) : UndoStack Objects := d.pending.elim d.db fun s => d.db.start.set s

def headBlockNum (d : DbState) : Nat := d.db.state.headBlockNum

def lastIrreversibleBlockNum (d : DbState) : Nat := d.db.state.lib

def init (P : Params) : DbState where
  indexes := .ofObjects (genesis P.initPublicKey) 0
  db := ⟨genesis P.initPublicKey, 0, []⟩
  pending := none
  applied := []
  committed := 0

def apply (d : DbState) (b : SignedBlock) (s : Objects) (cs : List Call) : DbState where
  indexes := Database.commit (Indexes.calls (Database.startUndoSession d.indexes) cs)
    s.lib
  db := (d.db.start.set s).commit s.lib
  pending := d.pending
  applied := b :: d.applied
  committed := max d.committed s.lib

def pop (d : DbState) : DbState :=
  { d with
    indexes := d.indexes.undo
    db := d.db.undo
    applied := if d.db.saved = [] then d.applied else d.applied.tail }

end DbState

inductive DbStep (P : Params) : DbState → DbState → Prop where
  | applied {d : DbState} {env : Env} {b : SignedBlock} {s : Objects} {cs : List Call}
      (hidle : d.pending = none) (hblock : d.db.state.applyBlock P env b = .ok s)
      (hcs : Trace d.db.state cs s) (hnum : s.headBlockNum = d.headBlockNum + 1) :
      DbStep P d (d.apply b s cs)
  | failed {d : DbState} {s : Objects} {cs : List Call} (hidle : d.pending = none)
      (hcs : Trace d.db.state cs s) :
      DbStep P d { d with indexes := d.indexes.attempt cs }
  | popped {d : DbState} (hidle : d.pending = none) : DbStep P d d.pop
  | opened {d : DbState} (hidle : d.pending = none) :
      DbStep P d { d with
        indexes := Database.startUndoSession d.indexes
        pending := some d.db.state }
  | closed {d : DbState} {s : Objects} (hpending : d.pending = some s) :
      DbStep P d { d with indexes := d.indexes.undo, pending := none }
  | pushed {d : DbState} {s s' : Objects} {cs : List Call} (hpending : d.pending = some s)
      (hcs : Trace s cs s') :
      DbStep P d { d with
        indexes := Database.squash (Indexes.calls (Database.startUndoSession d.indexes) cs)
        pending := some s' }
  | refused {d : DbState} {s s' : Objects} {cs : List Call} (hpending : d.pending = some s)
      (hcs : Trace s cs s') :
      DbStep P d { d with indexes := d.indexes.attempt cs }

/-! ## What every step keeps -/

section Steps

variable {D : Indexes} {u : UndoStack Objects} {s : Objects} {cs : List Call} (h : Mirrors view D u)
include h

theorem mirrors_undo : Mirrors view D.undo u.undo := by
  obtain ⟨D', hundo, h'⟩ := h.undo TableName.nodup_indexList TableName.mem_indexList
  rw [Indexes.undo, hundo]
  exact h'

theorem mirrors_session (hcs : Trace u.state cs s) :
    Mirrors view (Indexes.calls (Database.startUndoSession D) cs) (u.start.set s) :=
  mirrors_calls h.start hcs

theorem mirrors_attempt (hcs : Trace u.state cs s) : Mirrors view (D.attempt cs) u :=
  mirrors_undo (mirrors_session h hcs)

end Steps

namespace DbState

variable {P : Params} {d d' : DbState} {b : SignedBlock} {s : Objects}

theorem stack_of_idle (h : d.pending = none) : d.stack = d.db := by
  rw [stack, h]
  rfl

theorem stack_of_pending (h : d.pending = some s) : d.stack = d.db.start.set s := by
  rw [stack, h]
  rfl

structure Valid (d : DbState) : Prop where
  mirrors : Mirrors view d.indexes d.stack
  grown : Grown d.db
  spans : d.db.Spans d.committed
  numbers : d.applied.map (fun b => b.blockNum) = (List.range' 1 d.headBlockNum).reverse

theorem Valid.init (P : Params) : (init P).Valid where
  mirrors := mirrors_genesis P.initPublicKey
  grown := .init _
  spans := ⟨le_rfl, rfl⟩
  numbers := rfl

section

variable (h : d.Valid)
include h

theorem Valid.apply {env : Env} {cs : List Call} (hidle : d.pending = none)
    (hblock : d.db.state.applyBlock P env b = .ok s) (hcs : Trace d.db.state cs s)
    (hnum : s.headBlockNum = d.headBlockNum + 1) : (d.apply b s cs).Valid := by
  have hstack : (d.apply b s cs).stack = (d.db.start.set s).commit s.lib :=
    stack_of_idle hidle
  have hmirrors := h.mirrors
  rw [stack_of_idle hidle] at hmirrors
  have hgrown := h.grown.apply hblock hnum
  have hb : s.headBlockNum = b.blockNum := congrArg Prod.fst (applyBlock_tip hblock)
  refine ⟨?_, hgrown, ?_, ?_⟩
  · rw [hstack]
    exact (mirrors_session hmirrors hcs).commit _
  · have hspans : (d.db.start.set s).Spans d.committed := ⟨h.spans.start.le, h.spans.start.revisions⟩
    refine hspans.commit ?_
    have htip : s.TipOk := hgrown.tip.1
    have hrevision : d.db.revision = d.headBlockNum := h.grown.tracks.revision
    change _ ≤ d.db.revision + 1
    rw [htip.2]
    omega
  · change b.blockNum :: d.applied.map _ = (List.range' 1 s.headBlockNum).reverse
    rw [h.numbers, hnum, range'_concat, reverse_concat]
    congr 1
    omega

theorem Valid.pop (hidle : d.pending = none) : d.pop.Valid := by
  have hmirrors := h.mirrors
  rw [stack_of_idle hidle] at hmirrors
  refine ⟨?_, h.grown.undo, h.spans.undo, ?_⟩
  · rw [stack_of_idle (d := d.pop) hidle]
    exact mirrors_undo hmirrors
  · have hnumbers := h.numbers
    unfold headBlockNum DbState.pop at *
    dsimp only
    split_ifs with hsaved
    · rw [undo, hsaved]
      exact hnumbers
    · obtain ⟨e, saved, hsaved⟩ := exists_cons_of_ne_nil hsaved
      rw [h.grown.tracks.of_cons hsaved, range'_concat, reverse_concat] at hnumbers
      rw [undo, hsaved, map_tail, hnumbers]
      rfl

theorem Valid.step (hstep : DbStep P d d') : d'.Valid := by
  have hmirrors := h.mirrors
  cases hstep with
  | applied hidle hblock hcs hnum => exact h.apply hidle hblock hcs hnum
  | failed hidle hcs =>
    rw [stack_of_idle hidle] at hmirrors
    refine ⟨?_, h.grown, h.spans, h.numbers⟩
    rw [stack_of_idle (by exact hidle)]
    exact mirrors_attempt hmirrors hcs
  | popped hidle => exact h.pop hidle
  | opened hidle =>
    rw [stack_of_idle hidle] at hmirrors
    exact ⟨hmirrors.start, h.grown, h.spans, h.numbers⟩
  | closed hpending =>
    rw [stack_of_pending hpending] at hmirrors
    exact ⟨mirrors_undo hmirrors, h.grown, h.spans, h.numbers⟩
  | pushed hpending hcs =>
    rw [stack_of_pending hpending] at hmirrors
    exact ⟨(mirrors_session hmirrors hcs).squash, h.grown, h.spans, h.numbers⟩
  | refused hpending hcs =>
    rw [stack_of_pending hpending] at hmirrors
    refine ⟨?_, h.grown, h.spans, h.numbers⟩
    rw [stack_of_pending (by exact hpending)]
    exact mirrors_attempt hmirrors hcs

/-- Every index has a session for each block that can still be undone. -/
structure InStep (d : DbState) : Prop where
  revision : ∀ t, (d.indexes t).revision = d.headBlockNum + if d.pending.isSome then 1 else 0
  sessions : ∀ t, (d.indexes t).stack.map UndoState.revision =
    (List.range' (d.committed + 1) ((d.indexes t).revision - d.committed)).reverse
  committed : d.committed ≤ d.headBlockNum

theorem Valid.inStep : d.InStep := by
  have hspans : d.stack.Spans d.committed := by
    cases hp : d.pending with
    | none => exact stack_of_idle hp ▸ h.spans
    | some s => exact stack_of_pending hp ▸ ⟨h.spans.start.le, h.spans.start.revisions⟩
  have htop : d.stack.revision = d.headBlockNum + if d.pending.isSome then 1 else 0 := by
    have hrevision : d.db.revision = d.headBlockNum := h.grown.tracks.revision
    cases hp : d.pending with
    | none => exact stack_of_idle hp ▸ hrevision
    | some s =>
      rw [stack_of_pending hp, ← hrevision]
      rfl
  have hindex (t : TableName) : (d.indexes t).revision = d.stack.revision :=
    (h.mirrors.refines t).revision
  refine ⟨fun t => (hindex t).trans htop, fun t => ?_, ?_⟩
  · rw [(h.mirrors.refines t).stacked.revisions, hindex t, ← hspans.revisions, UndoStack.map,
      map_map]
    rfl
  · rw [headBlockNum, ← h.grown.tracks.revision]
    exact h.spans.le

theorem Valid.lastIrreversible_le : d.lastIrreversibleBlockNum ≤ d.committed :=
  h.grown.lastIrreversible_le h.spans

theorem Valid.mem_numbers {num : Nat} :
    (∃ b ∈ d.applied, b.blockNum = num) ↔ 1 ≤ num ∧ num ≤ d.headBlockNum := by
  rw [← mem_map (f := fun b : SignedBlock => b.blockNum), h.numbers, mem_reverse,
    mem_range'_1]
  omega

theorem Valid.blockNum_le (hb : b ∈ d.applied) : b.blockNum ≤ d.headBlockNum := by
  exact (h.mem_numbers.1 ⟨b, hb, rfl⟩).2

theorem Valid.eq_of_blockNum_eq {c : SignedBlock} (hb : b ∈ d.applied)
    (hc : c ∈ d.applied) (hnum : c.blockNum = b.blockNum) : c = b := by
  have hnodup : (d.applied.map fun b => b.blockNum).Nodup := by
    rw [h.numbers, nodup_reverse]
    exact nodup_range'
  exact inj_on_of_nodup_map hnodup hc hb hnum

structure Settled (d : DbState) (b : SignedBlock) : Prop where
  applied : b ∈ d.applied
  below : ∀ e ∈ d.db.saved, b.blockNum < e.1

theorem Valid.settled (hb : b ∈ d.applied) (hle : b.blockNum ≤ d.lastIrreversibleBlockNum) : d.Settled b :=
  ⟨hb, fun e he => hle.trans_lt (h.grown.above e he)⟩

end

theorem Settled.pop (hb : d.Settled b) (h : d.Valid) : d.pop.Settled b := by
  refine ⟨?_, fun e he => hb.below e (mem_of_mem_tail (d.db.undo_saved ▸ he))⟩
  unfold DbState.pop
  dsimp only
  split_ifs with hsaved
  · exact hb.applied
  · -- The block that is undone has the head's number, which is that of the newest session.
    obtain ⟨e, saved, hsaved⟩ := exists_cons_of_ne_nil hsaved
    have hmem : e ∈ d.db.saved := by rw [hsaved]; exact .head _
    have hup : d.headBlockNum = e.2.headBlockNum + 1 := h.grown.tracks.of_cons hsaved
    have hlevel := h.grown.tracks.levels e hmem
    have hbelow := hb.below e hmem
    have hnumbers := h.numbers
    rw [hup, range'_concat, reverse_concat] at hnumbers
    obtain ⟨c, rest, happlied, hc, -⟩ := map_eq_cons_iff.1 hnumbers
    have happ := hb.applied
    rw [happlied] at happ ⊢
    rcases mem_cons.1 happ with rfl | hrest
    · omega
    · exact hrest

theorem Settled.step (hb : d.Settled b) (h : d.Valid) (hstep : DbStep P d d') : d'.Settled b := by
  cases hstep with
  | applied hidle hblock hcs hnum =>
    refine ⟨.tail _ hb.applied, fun e he => ?_⟩
    rcases mem_cons.1 ((commit_shortens _ _).subset he) with rfl | he
    · have hle := h.blockNum_le hb.applied
      have hrevision : d.db.revision = d.headBlockNum := h.grown.tracks.revision
      change b.blockNum < d.db.revision + 1
      omega
    · exact hb.below e he
  | popped => exact hb.pop h
  | failed | opened | closed | pushed | refused => exact ⟨hb.applied, hb.below⟩

end DbState

/-- Steps of the sessions, the last first. -/
inductive Walk (P : Params) (d : DbState) : List DbState → DbState → Prop where
  | nil : Walk P d [] d
  | step {l : List DbState} {d' d'' : DbState} (h : Walk P d l d') (hstep : DbStep P d' d'') :
      Walk P d (d'' :: l) d''

namespace Walk

variable {P : Params} {d d' d'' : DbState} {l l' : List DbState} {b : SignedBlock}

theorem append (h : Walk P d l d') (h' : Walk P d' l' d'') : Walk P d (l' ++ l) d'' := by
  induction h' with
  | nil => exact h
  | step _ hstep ih => exact ih.step hstep

theorem single (hstep : DbStep P d d') : Walk P d [d'] d' := .step .nil hstep

theorem eq_cons (h : Walk P d l d') (hne : d'.headBlockNum ≠ d.headBlockNum) : ∃ l', l = d' :: l' := by
  cases h with
  | nil => exact absurd rfl hne
  | step _ _ => exact ⟨_, rfl⟩

theorem split (h : Walk P d (l' ++ d' :: l) d'') : Walk P d (d' :: l) d' ∧ Walk P d' l' d'' := by
  induction l' generalizing d'' with
  | nil =>
    cases h with
    | step h hstep => exact ⟨h.step hstep, .nil⟩
  | cons x l' ih =>
    cases h with
    | step h hstep => exact ⟨(ih h).1, (ih h).2.step hstep⟩

theorem valid (h : Walk P d l d') (hd : d.Valid) : d'.Valid := by
  induction h with
  | nil => exact hd
  | step _ hstep ih => exact ih.step hstep

theorem settled (h : Walk P d l d') (hd : d.Valid) (hb : d.Settled b) : d'.Settled b := by
  induction h with
  | nil => exact hb
  | step hwalk hstep ih => exact ih.step (hwalk.valid hd) hstep

end Walk

end Xgt
