import XgtChain.Chain.Joined
import XgtChain.Chain.PendingQueue
import XgtChain.Chain.XttSupply

/-!
# A node and its chain

A node applies blocks, pops them and applies others. Its state is always that of one chain of accepted blocks
(`refines_chain`), so what every such chain keeps, every node keeps.
-/

namespace Xgt

open Base List

variable {P : Params} {u : UndoStack Objects}

/-- Every state of the stack is the one after a chain of accepted blocks. -/
def Chained (P : Params) (u : UndoStack Objects) : Prop :=
  ∀ s ∈ u.states, ∃ blocks, AcceptedChain P blocks s ∧ blocks.length = s.headBlockNum

/-- Blocks are applied with every check. -/
def ChainEvent.Checked : ChainEvent → Prop
  | .apply env _ _ => env.skip = skipNothing
  | .pop => True

theorem Chained.step {e : ChainEvent} (h : Chained P u) (hnext : e.IsNext P u)
    (hchecked : e.Checked) : Chained P (chainStep P u e) := by
  match e with
  | .pop => exact fun s hs => h s (u.undo_states_suffix.subset hs)
  | .apply env b false => exact h
  | .apply env b true =>
    obtain ⟨hnum, s, hs⟩ := hnext rfl
    simp only [chainStep, hs]
    intro t ht
    rcases mem_cons.1 ((UndoStack.commit_states_prefix _ _).subset ht) with rfl | ht
    · obtain ⟨blocks, hchain, hlength⟩ := h u.state (.head _)
      refine ⟨_, hchain.block hchecked (by omega) hs, ?_⟩
      rw [length_append, hlength]
      exact hnum.symm.trans (congrArg Prod.fst (Objects.applyBlock_tip hs)).symm
    · exact h t ht

theorem Chained.foldl {events : List ChainEvent} (h : Chained P u)
    (hnext : ∀ p ∈ Run.states (chainStep P) u events, p.2.IsNext P p.1) (hchecked : ∀ e ∈ events, e.Checked) :
    Chained P (events.foldl (chainStep P) u) := by
  induction events generalizing u with
  | nil => exact h
  | cons e events ih =>
    exact ih (h.step (hnext _ (.head _)) (hchecked e (.head _))) (fun p hp => hnext p (.tail _ hp))
      fun e he => hchecked e (.tail _ he)

namespace Node

variable {n n' : Node P} {pinned : List ForkItem} {b : SignedBlock} {events : List ChainEvent}

theorem applyBlockEvents_checked : ∀ e ∈ n.applyBlockEvents skipNothing pinned b, e.Checked := by
  simp [applyBlockEvents, ChainEvent.Checked, env]

theorem Switches.checked {point : BlockId} {reached : Bool}
    (h : Switches skipNothing pinned point reached n events n') : ∀ e ∈ events, e.Checked := by
  induction h with
  | refl => exact forall_mem_nil _
  | pop _ _ ih =>
    refine forall_mem_append.2 ⟨?_, ih⟩
    unfold popBlockEvents
    split_ifs <;> simp [ChainEvent.Checked]
  | apply _ _ _ _ ih => exact forall_mem_append.2 ⟨applyBlockEvents_checked, ih⟩
  | reach _ _ ih | remove _ ih => exact ih

theorem Pushes.checked (h : Pushes skipNothing b n events n') : ∀ e ∈ events, e.Checked := by
  cases h with
  | kept => exact forall_mem_nil _
  | extended => exact applyBlockEvents_checked
  | switched _ _ hswitch => exact hswitch.checked

theorem pushBlockEvents_checked {skip : SkipFlags}
    (hflags : ∀ flags, n.checkpointFlags skip b = .ok flags → flags = skipNothing) :
    ∀ e ∈ n.pushBlockEvents skip b, e.Checked := by
  unfold pushBlockEvents
  split
  · exact forall_mem_nil _
  · next flags hok =>
    cases hflags flags hok
    exact (pushBlockCore_pushes _ skipNothing b).checked

theorem QueueStep.chained {e : QueueEvent} (hstep : QueueStep (· = skipNothing) n e n')
    (h : n.Sound [] ∧ Chained P n.db) : n'.Sound [] ∧ Chained P n'.db := by
  cases e with
  | pushBlock skip budget b =>
    obtain ⟨hflags, rfl⟩ := hstep
    cases hok : n.checkpointFlags skip b with
    | error e => rwa [pushBlock_of_error hok]
    | ok flags =>
      have hskip : skip.skipForkDb = false := by
        rcases checkpointFlags_eq hok with rfl | rfl
        · rw [hflags _ hok]
          rfl
        · cases hflags _ hok
      obtain ⟨hsound, -, horder⟩ := pushBlock_leads h.1 hskip budget b
      rw [← show _ = _ from n.pushBlock_leadsBy skip budget b]
      exact ⟨hsound, h.2.foldl horder (pushBlockEvents_checked hflags)⟩
  | pushTransaction skip t =>
    obtain ⟨-, rfl⟩ := hstep
    have hdb : (n.pushTransaction skip t).1.db = n.db := congrArg Prod.fst (n.pushTransaction_chain skip t)
    exact ⟨(pushTransaction_leads h.1 skip t).1, hdb ▸ h.2⟩

variable {events : List (Node P × QueueEvent)} (h : Run (QueueStep (· = skipNothing)) (init P) events n)
include h

theorem run_chained : Chained P n.db := by
  have hinit : Chained P (init P).db := fun s hs => by
    cases mem_singleton.1 hs
    exact ⟨[], .genesis, rfl⟩
  exact (h.invariant ⟨.init P [], hinit⟩ fun _ hn hstep => hstep.chained hn).1.2

theorem refines_chain : ∃ blocks, AcceptedChain P blocks n.objects ∧ blocks.length = n.objects.headBlockNum :=
  run_chained h _ (.head _)

theorem invariants_kept : ∀ s ∈ n.db.states,
    s.Ledger ∧ s.UniqueKeys ∧ s.XttBacked ∧ s.validateXttInvariants = .ok () := by
  intro s hs
  obtain ⟨blocks, hchain, -⟩ := run_chained h s hs
  obtain ⟨steps, hrun⟩ := hchain.operationRun
  have hunique := uniqueKeys_genesis P.initPublicKey
  have hgenesis : (genesis P.initPublicKey).XttBooks :=
    ⟨hunique.xttTokens, fun _ => rfl, nofun, nofun, nofun, nofun⟩
  obtain ⟨hbooks, -⟩ := hrun.invariant hgenesis (fun _ hs hv hop => hs.step hv hop) fun hs hother =>
    hs.outside hother
  exact ⟨hchain.ledger, (hrun.uniqueKeys hunique).1, hbooks.xttBacked, hbooks.validate⟩

omit h

/-- The first block, with a payment in it, is popped for a fork of two blocks. -/
def switched : Node toyParams := (forked.pushBlock skipNothing 1 secondBlock).1

theorem switched_run : ∃ events, Run (QueueStep (· = skipNothing)) (init toyParams) events switched := by
  have hstep (n : Node toyParams) (budget : Nat) (b : SignedBlock) (hnone : n.checkpoints = []) :
      QueueStep (· = skipNothing) n (.pushBlock skipNothing budget b) (n.pushBlock skipNothing budget b).1 :=
    ⟨fun flags hok => Except.ok.inj (hok.symm.trans (checkpointFlags_of_nil _ _ hnone)), rfl⟩
  exact ⟨_, ((Run.nil.snoc (hstep _ 0 _ rfl)).snoc (hstep _ 0 firstBlock (by decide +kernel))).snoc
    (hstep forked 1 secondBlock (by decide +kernel))⟩

theorem refines_chain_switched : ∃ blocks, AcceptedChain toyParams blocks switched.objects ∧
    blocks.length = 2 ∧ switched.handed.length = 3 := by
  obtain ⟨events, hrun⟩ := switched_run
  obtain ⟨blocks, hchain, hlength⟩ := refines_chain hrun
  exact ⟨blocks, hchain, hlength.trans (by decide +kernel), by decide +kernel⟩

theorem invariants_kept_switched : switched.db.states.length = 3 ∧ switched.pendingTx.length = 1 ∧
    ∀ s ∈ switched.db.states, s.Ledger ∧ s.UniqueKeys ∧ s.XttBacked ∧ s.validateXttInvariants = .ok () := by
  obtain ⟨events, hrun⟩ := switched_run
  exact ⟨by decide +kernel, by decide +kernel, invariants_kept hrun⟩

end Node

end Xgt
