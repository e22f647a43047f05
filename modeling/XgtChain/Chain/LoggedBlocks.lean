import XgtChain.Chain.Joined

/-!
# The block log over runs of a node

The log is always a prefix of the applied blocks (`LoggedRun.log_prefix`).
-/

namespace Xgt

open Base Chainbase Node

/-- A run of pushes with the condition `C`, beside the database it leaves: the applied blocks are those of
the calls' events. -/
inductive LoggedRun (P : Params) (B : SignedBlock → Prop)
    (C : Node P → SkipFlags → SignedBlock → Prop) : Node P → DbState → Prop where
  | init (checkpoints : List (Nat × BlockId)) :
      LoggedRun P B C { Node.init P with checkpoints := checkpoints } (.init P)
  | pushBlock {n : Node P} {l : List DbState} {d d' : DbState} {skip : SkipFlags} {budget : Nat}
      {b : SignedBlock} (h : LoggedRun P B C n d) (hb : B b) (hC : C n skip b)
      (hwalk : Walk P d l d') (hd' : d'.Holds (n.pushBlock skip budget b).1)
      (hafter : d.After P (n.pushBlockEvents skip b) d') :
      LoggedRun P B C (n.pushBlock skip budget b).1 d'
  | pushTransaction {n : Node P} {l : List DbState} {d d' : DbState} {skip : SkipFlags}
      {t : SignedTransaction} (h : LoggedRun P B C n d) (hwalk : Walk P d l d')
      (hd' : d'.Holds (n.pushTransaction skip t).1) (hafter : d.After P [] d') :
      LoggedRun P B C (n.pushTransaction skip t).1 d'

namespace LoggedRun

variable {P : Params} {B : SignedBlock → Prop} {S : SkipFlags → Prop}
  {C : Node P → SkipFlags → SignedBlock → Prop} {n : Node P} {d : DbState}

theorem mono {C' : Node P → SkipFlags → SignedBlock → Prop} (hC : ∀ n skip b, C n skip b → C' n skip b)
    (h : LoggedRun P B C n d) : LoggedRun P B C' n d := by
  induction h with
  | init checkpoints => exact .init checkpoints
  | pushBlock h hb hpush hwalk hd' hafter ih => exact ih.pushBlock hb (hC _ _ _ hpush) hwalk hd' hafter
  | pushTransaction h hwalk hd' hafter ih => exact ih.pushTransaction hwalk hd' hafter

theorem walk (h : LoggedRun P B C n d) : ∃ l, Walk P (.init P) l d := by
  induction h with
  | init checkpoints => exact ⟨[], .nil⟩
  | pushBlock h hb hpush hwalk hd' hafter ih | pushTransaction h hwalk hd' hafter ih =>
    obtain ⟨l, hl⟩ := ih
    exact ⟨_, hl.append hwalk⟩

section

variable (hB : IdsTell P.toCrypto B) (hC : ∀ n skip b, C n skip b → n.Loggable skip b)
include hB hC

theorem joined (hS : ∀ n skip b, C n skip b → ∀ skip', n.checkpointFlags skip b = .ok skip' → S skip')
    (h : LoggedRun P B C n d) : Node.Joined B S [] d n := by
  induction h with
  | init checkpoints =>
    refine ⟨⟨rfl, rfl⟩, .init P, .init P checkpoints, ⟨rfl, by simp [Node.init], trivial⟩,
      by simp [DbState.init], ?_, by simp, ?_, by simp [DbState.init], by simp [Node.init], rfl⟩
    · exact ⟨by simp [Node.init], fun x hx => by simp [ForkDatabase.Holds, Node.init] at hx⟩
    · exact ⟨by simp [Node.init], by simp [Node.init], by simp [Node.init], List.nodup_nil⟩
  | pushBlock h hb hpush hwalk hd' hafter ih =>
    obtain ⟨l, d1, -, hafter1, h1, -⟩ :=
      Node.pushBlock_joined _ hB ih hb (hC _ _ _ hpush) (hS _ _ _ hpush)
    exact (h1.of_after (hwalk.valid ih.valid) hd' hafter1 hafter).1
  | pushTransaction h hwalk hd' hafter ih =>
    obtain ⟨l, d1, -, hafter1, h1, -⟩ :=
      ih.of_idles (Node.pushTransaction_idles _ _ _) (Node.pushTransaction_chain _ _ _)
    exact (h1.of_after (hwalk.valid ih.valid) hd' hafter1 hafter).1

theorem joined_any (h : LoggedRun P B C n d) : Joined B (fun _ => True) [] d n :=
  h.joined hB hC fun _ _ _ _ _ _ => trivial

theorem anchored (hsettles : ∀ n d skip b, Joined B (fun _ => True) [] d n → B b →
      C n skip b → ∀ skip', n.checkpointFlags skip b = .ok skip' →
        n.clearPending.PushSettles skip' b) (h : LoggedRun P B C n d) : Anchored d n := by
  induction h with
  | init checkpoints => exact ⟨⟨1, Nat.one_pos, nofun, nofun⟩, .inl ⟨rfl, rfl⟩⟩
  | pushBlock h hb hpush hwalk hd' hafter ih =>
    have hjoined := h.joined_any hB hC
    obtain ⟨l, d1, -, hafter1, h1, ha⟩ :=
      pushBlock_joined _ hB hjoined hb (hC _ _ _ hpush) fun _ _ => trivial
    exact (h1.of_after (hwalk.valid hjoined.valid) hd' hafter1 hafter).2
      (ha (hsettles _ _ _ _ hjoined hb hpush) ih)
  | pushTransaction h hwalk hd' hafter ih =>
    have hjoined := h.joined_any hB hC
    obtain ⟨l, d1, -, hafter1, h1, ha⟩ := hjoined.of_idles (pushTransaction_idles _ _ _)
      (pushTransaction_chain _ _ _)
    exact (h1.of_after (hwalk.valid hjoined.valid) hd' hafter1 hafter).2 (ha ih)

/-- Every push with the condition, and every transaction, continues the run. -/
structure Continues (B : SignedBlock → Prop) (C : Node P → SkipFlags → SignedBlock → Prop) (n : Node P) :
    Prop where
  pushBlock : ∀ (skip : SkipFlags) (budget : Nat) (b : SignedBlock), B b → C n skip b →
    ∃ d', LoggedRun P B C (n.pushBlock skip budget b).1 d'
  pushTransaction : ∀ (skip : SkipFlags) (t : SignedTransaction),
    ∃ d', LoggedRun P B C (n.pushTransaction skip t).1 d'

theorem continues (h : LoggedRun P B C n d) : Continues B C n where
  pushBlock skip budget b hb hpush := by
    obtain ⟨l, d', hwalk, hafter, h', -⟩ := pushBlock_joined budget hB (h.joined_any hB hC) hb
      (hC _ _ _ hpush) fun _ _ => trivial
    exact ⟨d', h.pushBlock hb hpush hwalk h'.holds hafter⟩
  pushTransaction skip t := by
    obtain ⟨l, d', hwalk, hafter, h', -⟩ := (h.joined_any hB hC).of_idles
      (n.pushTransaction_idles skip t) (n.pushTransaction_chain skip t)
    exact ⟨d', h.pushTransaction hwalk h'.holds hafter⟩

end

theorem log_prefix (hB : IdsTell P.toCrypto B) (h : LoggedRun P B Loggable n d) :
    d.Holds n ∧ Continues B Loggable n ∧ n.blockLog <+: d.applied.reverse := by
  have hjoined := h.joined_any hB fun _ _ _ hpush => hpush
  exact ⟨hjoined.holds, h.continues hB fun _ _ _ hpush => hpush, hjoined.blockLog_prefix⟩

/-- Nodes with one head applied the same blocks, and one's log continues the other's. -/
theorem nodes_agree {n' : Node P} {d' : DbState} (hB : IdsTell P.toCrypto B) (h : LoggedRun P B Loggable n d)
    (h' : LoggedRun P B Loggable n' d') (hid : n'.headBlockId = n.headBlockId) :
    d'.applied = d.applied ∧ (n'.blockLog <+: n.blockLog ∨ n.blockLog <+: n'.blockLog) := by
  have hlength {n : Node P} {d : DbState} (h : Joined B (fun _ => True) [] d n) :
      d.applied.length = n.headBlockId.num := by
    rw [h.sound.headBlockId_num, ← h.headBlockNum]
    simpa using congrArg List.length h.valid.numbers
  have hn := h.joined_any hB fun _ _ _ => id
  have hn' := h'.joined_any hB fun _ _ _ => id
  have happlied : d'.applied = d.applied :=
    hn'.lineage.unique hB (hid ▸ hn.lineage) hn'.blocks hn.blocks (by rw [hlength hn', hlength hn, hid])
  exact ⟨happlied, List.prefix_or_prefix_of_prefix hn'.blockLog_prefix (happlied ▸ hn.blockLog_prefix)⟩

end LoggedRun

/-- A block of the idle chain. -/
def IdleBlock (b : SignedBlock) : Prop := ∃ k, k + 1 < 2 ^ 32 ∧ b = idleBlock (k + 1)

theorem idsTell_idle : IdsTell toyParams.toCrypto IdleBlock := by
  rintro _ _ ⟨k, hk, rfl⟩ ⟨j, hj, rfl⟩ hid
  rw [idleBlock_id hk, idleBlock_id hj] at hid
  have hnum := congrArg BlockId.num hid
  rw [idleId_num, idleId_num] at hnum
  rw [hnum]

theorem idleNode_loggedRun {C : Node toyParams → SkipFlags → SignedBlock → Prop} {k : Nat} (hk : k < 2 ^ 32)
    (hlog : ∀ n skip b, C n skip b → n.Loggable skip b)
    (hC : ∀ n j, n.Linear → (idleBlock (j + 1)).previous = n.headBlockId →
      C n skipNothing (idleBlock (j + 1))) :
    ∃ (n : Node toyParams) (d : DbState),
      LoggedRun toyParams IdleBlock C n d ∧ n.Linear ∧ n.objects = idleState k := by
  induction k with
  | zero => exact ⟨_, _, .init [], linear_init _, rfl⟩
  | succ k ih =>
    obtain ⟨n, d, hrun, hlinear, hobjects⟩ := ih (by omega)
    obtain ⟨-, hlinear', hdb⟩ := idleNode_push hk hlinear hobjects
    have hchild : (idleBlock (k + 1)).previous = n.headBlockId := by
      rw [headBlockId, hobjects]
      rfl
    obtain ⟨d', hrun'⟩ := (hrun.continues idsTell_idle hlog).pushBlock skipNothing 0
      (idleBlock (k + 1)) ⟨k, hk, rfl⟩ (hC n k hlinear hchild)
    refine ⟨_, d', hrun', hlinear', ?_⟩
    rw [objects, hdb]
    rfl

theorem log_prefix_idle : ∃ (n : Node toyParams) (d : DbState),
    LoggedRun toyParams IdleBlock Loggable n d ∧ n.logHeadNum = 2 ∧ d.headBlockNum = 12 ∧
      n.blockLog <+: d.applied.reverse := by
  obtain ⟨n, d, hrun, hlinear, hobjects⟩ := idleNode_loggedRun (C := Loggable) (k := 12) (by decide)
    (fun _ _ _ hpush => hpush) fun n j _ hchild => ⟨rfl, rfl, .inl hchild⟩
  obtain ⟨hholds, -, hpre⟩ := hrun.log_prefix idsTell_idle
  refine ⟨n, d, hrun, ?_, hholds.headBlockNum hobjects, hpre⟩
  rw [hlinear.written, hobjects]
  rfl

theorem nodes_agree_idle : ∃ (n : Node toyParams) (d : DbState), LoggedRun toyParams IdleBlock Loggable n d ∧
    n.objects = idleState 12 ∧ ∀ t, ∃ d', d'.applied = d.applied ∧
      LoggedRun toyParams IdleBlock Loggable (n.pushTransaction skipNothing t).1 d' := by
  obtain ⟨n, d, hrun, -, hobjects⟩ := idleNode_loggedRun (C := Loggable) (k := 12) (by decide)
    (fun _ _ _ => id) fun n j _ hchild => ⟨rfl, rfl, .inl hchild⟩
  refine ⟨n, d, hrun, hobjects, fun t => ?_⟩
  obtain ⟨d', hrun'⟩ := (hrun.continues idsTell_idle fun _ _ _ => id).pushTransaction skipNothing t
  obtain ⟨hdb, -⟩ := Prod.mk.inj (n.pushTransaction_chain skipNothing t)
  refine ⟨d', (hrun.nodes_agree idsTell_idle hrun' ?_).1, hrun'⟩
  rw [headBlockId, objects, hdb]
  rfl

theorem log_of_stranger :
    ∃ (first sibling rejected : SignedBlock) (blocks : List SignedBlock) (n : Node toyParams),
      n = (init toyParams).pushBlocks (first :: sibling :: rejected :: blocks) ∧
      n.objects.headBlockNum = 11 ∧ n.blockLog = [sibling] ∧ sibling ≠ first ∧
      ∀ p ∈ n.handed, p.2 ≠ sibling := by
  let first := toyBlock .zero 1
  let sibling := toyBlock .zero 2
  let rejected := toyBlock (toyId first) 3 [] xgtTempWallet
  refine ⟨first, sibling, rejected, toyChain (toyId sibling) 4 10, _, rfl, ?_⟩
  decide +kernel

end Xgt
