import XgtChain.Chain.SkipSignatures

/-!
# Blocks from a peer

`handle_block` of the p2p plugin hands a block to the chain plugin, with the checks of transactions only
if the node produces blocks or is told to validate.
-/

namespace Xgt

open Base

def checkTimeInBlock (now : TimePointSec) (allowFutureTime : Nat) (b : SignedBlock) : Result Unit :=
  fcAssert (b.timestamp ≤ now + allowFutureTime)
    "block.timestamp.sec_since_epoch() <= max_accept_time"

def acceptBlock {P : Params} (n : Node P) (now : TimePointSec) (allowFutureTime budget : Nat)
    (b : SignedBlock) (skip : SkipFlags) : Node P × Result Bool :=
  match checkTimeInBlock now allowFutureTime b with
  | .error e => (n, .error e)
  | .ok _ => n.pushBlock skip budget b

def skipTransactionSignatures : SkipFlags := { skipTransactionSignatures := true }

structure P2pPlugin (P : Params) where
  node : Node P
  running : Bool := true
  blockProducer : Bool := false
  forceValidate : Bool := false
  readyToMine : Bool := false
  allowFutureTime : Nat := 5

namespace P2pPlugin

variable {P : Params} (p : P2pPlugin P) (now : TimePointSec) (budget : Nat) (b : SignedBlock)
  (syncMode : Bool)

def skip : SkipFlags :=
  if p.blockProducer || p.forceValidate then skipNothing else skipTransactionSignatures

def netException (e : Exc) : Exc :=
  match e.kind with
  | .unlinkableBlock => ⟨.netUnlinkableBlock, "unlinkable block"⟩
  | .blockTooOld => ⟨.netBlockOlderThanUndoHistory, "old block"⟩
  | _ => e

def handleBlock : P2pPlugin P × Result Bool :=
  if p.running then
    match acceptBlock p.node now p.allowFutureTime budget b p.skip with
    | (n, .ok result) => ({ p with
        node := n
        readyToMine := p.readyToMine || (!syncMode && result) }, .ok result)
    | (n, .error e) => ({ p with node := n }, .error (netException e))
  else (p, .error ⟨.other, "Preventing further processing of ignored block..."⟩)

def withSettings (blockProducer forceValidate : Bool) : P2pPlugin P :=
  { p with blockProducer := blockProducer, forceValidate := forceValidate }

/-! ## What the settings change -/

def outcome : Result Bool × Node.Chain P :=
  ((p.handleBlock now budget b syncMode).2, (p.handleBlock now budget b syncMode).1.node.chain)

def pushOutcome (n : Node P) (skip : SkipFlags) (budget : Nat) (b : SignedBlock) :
    Result Bool × Node.Chain P :=
  ((n.pushBlock skip budget b).2, (n.pushBlock skip budget b).1.chain)

def ofPush (push : Result Bool × Node.Chain P) : Result Bool × Node.Chain P :=
  if p.running then
    match checkTimeInBlock now p.allowFutureTime b with
    | .error e => (.error (netException e), p.node.chain)
    | .ok _ => (push.1.mapError netException, push.2)
  else (.error ⟨.other, "Preventing further processing of ignored block..."⟩, p.node.chain)

section Settings

variable {now} {b} {syncMode}

theorem outcome_eq_ofPush (budget : Nat) :
    p.outcome now budget b syncMode = p.ofPush now b (pushOutcome p.node p.skip budget b) := by
  unfold outcome handleBlock acceptBlock ofPush pushOutcome
  by_cases hrunning : p.running = true
  · simp only [if_pos hrunning]
    cases checkTimeInBlock now p.allowFutureTime b with
    | error e => rfl
    | ok _ =>
      rcases p.node.pushBlock p.skip budget b with ⟨n, result⟩
      cases result <;> rfl
  · simp only [if_neg hrunning]

theorem ofPush_ok {push : Result Bool × Node.Chain P} {r : Bool}
    (h : (p.ofPush now b push).1 = .ok r) : push.1 = .ok r := by
  unfold ofPush at h
  split_ifs at h
  · split at h
    · cases h
    · rcases hpush : push.1 with e | r'
      · rw [hpush] at h
        cases h
      · rw [hpush] at h
        cases h
        rfl

theorem handleBlock_settings (now : TimePointSec) (budget budget' : Nat) (b : SignedBlock)
    (syncMode blockProducer forceValidate blockProducer' forceValidate' : Bool)
    (h : (blockProducer || forceValidate) = (blockProducer' || forceValidate') ∨
      (blockProducer || forceValidate) = true ∧
        ∃ r, ((p.withSettings blockProducer forceValidate).outcome now budget b syncMode).1 = .ok r) :
    (p.withSettings blockProducer' forceValidate').outcome now budget' b syncMode =
      (p.withSettings blockProducer forceValidate).outcome now budget b syncMode := by
  let flags (checks : Bool) : SkipFlags := if checks then skipNothing else skipTransactionSignatures
  have hpush : pushOutcome p.node (flags (blockProducer' || forceValidate')) budget' b =
      pushOutcome p.node (flags (blockProducer || forceValidate)) budget b := by
    by_cases hsame : (blockProducer || forceValidate) = (blockProducer' || forceValidate')
    · rw [hsame]
      exact Prod.ext_iff.2 (Node.pushBlock_budget budget' budget)
    · obtain ⟨hon, r, hr⟩ := h.resolve_left hsame
      have hoff : (blockProducer' || forceValidate') = false := by
        rw [hon] at hsame
        exact Bool.eq_false_iff.2 (Ne.symm hsame)
      rw [outcome_eq_ofPush] at hr
      have haccepted : (pushOutcome p.node (flags (blockProducer || forceValidate)) budget b).1 = .ok r :=
        ofPush_ok _ hr
      rw [hon] at haccepted ⊢
      rw [hoff]
      obtain ⟨hresult, hchain⟩ := Node.pushBlock_unsigned budget' haccepted
      exact Prod.ext (hresult.trans haccepted.symm) hchain
  rw [outcome_eq_ofPush, outcome_eq_ofPush]
  change p.ofPush now b (pushOutcome p.node (flags (blockProducer' || forceValidate')) budget' b) =
    p.ofPush now b (pushOutcome p.node (flags (blockProducer || forceValidate)) budget b)
  rw [hpush]

end Settings

theorem handleBlock_takes_signed :
    ∃ (p : P2pPlugin toyParams) (b : SignedBlock), b.transactions ≠ [] ∧
      ((p.withSettings true false).outcome b.timestamp 0 b false).1 = .ok false ∧
      (p.withSettings false false).outcome b.timestamp 0 b false =
        (p.withSettings true false).outcome b.timestamp 0 b false := by
  let p : P2pPlugin toyParams := { node := .init toyParams }
  let t := toyTransaction 0 [.transfer toyTransfer] [1]
  let b := toyBlock .zero 1 [t]
  have hok : ((p.withSettings true false).outcome b.timestamp 0 b false).1 = .ok false := by
    decide +kernel
  exact ⟨p, b, by decide +kernel, hok, handleBlock_settings p b.timestamp 0 0 b false true false false
    false (.inr ⟨rfl, false, hok⟩)⟩

theorem handleBlock_takes_unsigned :
    ∃ (p : P2pPlugin toyParams) (b : SignedBlock) (t : SignedTransaction),
      b.transactions = [t] ∧ t.operations = [.transfer toyTransfer] ∧ t.signatures = [] ∧
      ((p.withSettings false false).handleBlock b.timestamp 0 b false).2 = .ok false ∧
      ((p.withSettings false false).handleBlock b.timestamp 0 b false).1.node.headBlockId =
        toyId b ∧
      ((p.withSettings true false).handleBlock b.timestamp 0 b false).2.toOption = none ∧
      ((p.withSettings true false).handleBlock b.timestamp 0 b false).1.node.headBlockId = .zero := by
  let t := toyTransaction 0 [.transfer toyTransfer] []
  let b := toyBlock .zero 1 [t]
  refine ⟨{ node := .init toyParams }, b, t, rfl, rfl, rfl, ?_⟩
  decide +kernel

end P2pPlugin

end Xgt
