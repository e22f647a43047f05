import Mathlib.Logic.Relation
import XgtChain.Chain.PushEvents

/-!
# Which blocks are applied on which head

`_push_block` compares the parent of the fork database's head, not of the new block, with the chain's
head.
-/

namespace Xgt

open Base Relation

namespace Node

variable {P : Params} {n n' : Node P} {skip : SkipFlags} {pinned : List ForkItem} {b : SignedBlock}
  {events : List ChainEvent}

def HandsChildren (n : Node P) : Prop := ∀ p ∈ n.handed, p.2.previous = p.1

theorem HandsChildren.of_handed (h : n.HandsChildren) (heq : n'.handed = n.handed) :
    n'.HandsChildren := by
  intro p hp
  rw [heq] at hp
  exact h p hp

theorem applyBlock_children {r : Result Unit} (h : n.HandsChildren) (hb : b.previous = n.headBlockId)
    (hstep : n.applyBlock skip pinned b = (n', r)) : n'.HandsChildren := by
  intro p hp
  rw [applyBlock_handed hstep] at hp
  rcases List.mem_cons.1 hp with rfl | hp
  · exact hb
  · exact h p hp

theorem Switches.children {point : BlockId} {reached : Bool}
    (h : Switches skip pinned point reached n events n') (hn : n.HandsChildren) : n'.HandsChildren := by
  induction h with
  | refl => exact hn
  | pop hstep _ ih => exact ih (hn.of_handed (popBlock_handed hstep))
  | reach _ _ ih | remove _ ih => exact ih hn
  | @apply n _ _ x _ _ _ hchild hstep _ ih =>
    have h0 : ({ n with forkDb := n.forkDb.setHead x } : Node P).HandsChildren := hn
    exact ih (applyBlock_children h0 hchild hstep)

def Unmistakable (n : Node P) (b : SignedBlock) : Prop :=
  b.previous = n.headBlockId ∨
    (∀ x ∈ n.forkDb.head, x.data.previous ≠ n.headBlockId) ∧
      ∀ x ∈ n.forkDb.unlinked, x.data.previous ≠ n.headBlockId

theorem Unmistakable.previous_eq {F : ForkDatabase P.toCrypto} {newHead : ForkItem}
    (hb : n.Unmistakable b) (hpush : n.forkDb.pushBlock b = (F, .ok newHead))
    (hchild : newHead.data.previous = n.headBlockId) : b.previous = n.headBlockId := by
  rcases hb with hb | ⟨hhead, hcache⟩
  · exact hb
  · rcases (ForkDatabase.pushBlock_head hpush).2 with hx | hx | hx
    · exact absurd hchild (hhead newHead hx)
    · rw [← hx]
      exact hchild
    · exact absurd hchild (hcache newHead hx)

theorem Pushes.children (h : Pushes skip b n events n') (hn : n.HandsChildren)
    (hskip : skip.skipForkDb = false) (hb : n.Unmistakable b) : n'.HandsChildren := by
  cases h with
  | kept => exact hn
  | @extended F _ _ _ hpush hstep =>
    obtain ⟨newHead, hpush, hchild⟩ := hpush hskip
    have h0 : ({ n with forkDb := F } : Node P).HandsChildren := hn
    exact (applyBlock_children h0 (hb.previous_eq hpush hchild) hstep :)
  | switched _ _ hswitch => exact hswitch.children hn

theorem checkpointFlags_skipForkDb {skip' : SkipFlags} (h : n.checkpointFlags skip b = .ok skip')
    (hskip : skip.skipForkDb = false) : skip'.skipForkDb = false := by
  obtain rfl | rfl := checkpointFlags_eq h
  · exact hskip
  · rfl

theorem pushBlock_children {budget : Nat} (h : n.HandsChildren) (hskip : skip.skipForkDb = false)
    (hb : n.Unmistakable b) : (n.pushBlock skip budget b).1.HandsChildren := by
  unfold pushBlock
  split
  · exact h
  · next skip' hflags =>
    have hcore := (n.clearPending.pushBlockCore_pushes skip' b).children h
      (checkpointFlags_skipForkDb hflags hskip) hb
    exact hcore.of_handed restorePending_handed

/-- A push of a block whose id is its own, or a step that hands over nothing. -/
inductive PushStep : Node P → Node P → Prop
  | push {n : Node P} {skip : SkipFlags} {budget : Nat} {b : SignedBlock}
      (hskip : skip.skipForkDb = false) (hb : n.Unmistakable b) :
      PushStep n (n.pushBlock skip budget b).1
  | other {n n' : Node P} (h : n'.handed = n.handed) : PushStep n n'

theorem handed_children {n n' : Node P} (h : n.handed = [])
    (hrun : ReflTransGen PushStep n n') : ∀ p ∈ n'.handed, p.2.previous = p.1 := by
  have hstart : n.HandsChildren := by
    intro p hp
    rw [h] at hp
    cases hp
  suffices hend : n'.HandsChildren from hend
  induction hrun with
  | refl => exact hstart
  | tail _ hstep ih =>
    cases hstep with
    | push hskip hb => exact pushBlock_children ih hskip hb
    | other heq => exact ih.of_handed heq

theorem handed_children_two :
    ∃ n : Node toyParams, n.handed.length = 2 ∧ ∀ p ∈ n.handed, p.2.previous = p.1 := by
  let b1 := toyBlock .zero 1
  let b2 := toyBlock (toyId b1) 2
  let n1 := ((init toyParams).pushBlock skipNothing 0 b1).1
  have h1 : (init toyParams).Unmistakable b1 := .inl (by decide +kernel)
  have h2 : n1.Unmistakable b2 := .inl (by decide +kernel)
  exact ⟨(n1.pushBlock skipNothing 0 b2).1, by decide +kernel,
    handed_children (rfl : (init toyParams).handed = []) (.tail (.single (.push rfl h1)) (.push rfl h2))⟩

theorem extend_takes_stranger :
    ∃ (first sibling rejected stranger : SignedBlock) (n1 n2 n3 : Node toyParams),
      n1 = ((init toyParams).pushBlock skipNothing 0 first).1 ∧
      n2 = (n1.pushBlock skipNothing 0 sibling).1 ∧
      n3 = (n2.pushBlock skipNothing 0 rejected).1 ∧
      n3.headBlockId = toyId first ∧ stranger.previous = toyId sibling ∧
      toyId sibling ≠ toyId first ∧
      (n3.pushBlock skipNothing 0 stranger).2.toOption = some false ∧
      (n3.pushBlock skipNothing 0 stranger).1.handed.head? = some (n3.headBlockId, stranger) ∧
      (n3.pushBlock skipNothing 0 stranger).1.headBlockId = toyId stranger := by
  let first := toyBlock .zero 1
  let sibling := toyBlock .zero 2
  let rejected := toyBlock (toyId first) 3 [] xgtTempWallet
  let stranger := toyBlock (toyId sibling) 4
  refine ⟨first, sibling, rejected, stranger, _, _, _, rfl, rfl, rfl, ?_⟩
  decide +kernel

end Node

end Xgt
