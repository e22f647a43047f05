import XgtChain.Chain.PushEvents
import XgtChain.Chain.TransactionTable

/-!
# The pending queue

`push_block` sets the pending transactions aside and hands the block to `_push_block`, which may pop
blocks.
-/

namespace Xgt

open Base List Objects

namespace Node

variable {P : Params}

/-! ## Applying a queue -/

def txId (P : Params) (t : SignedTransaction) : TransactionId := P.transactionId t.toTransaction

/-- The transactions are applied one after the other, with flags from `F` and what the node's blocks give. -/
inductive AppliesQueue (n : Node P) (F : SkipFlags → Prop) : Objects → List SignedTransaction →
    Objects → Prop where
  | nil {s : Objects} : AppliesQueue n F s [] s
  | cons {s s1 s' : Objects} {t : SignedTransaction} {ts : List SignedTransaction} {skip : SkipFlags}
      {pending : Bool} {draws : Nat} (hskip : F skip)
      (h : s.applyTransaction P.toCrypto t (({ n with draws := draws } : Node P).env skip pending) = .ok s1)
      (hrest : AppliesQueue n F s1 ts s') : AppliesQueue n F s (t :: ts) s'

/-- The pending session is the state after the queue. -/
structure PendingApplied (F : SkipFlags → Prop) (n : Node P) : Prop where
  session : ∀ s, n.pendingState = some s → n.AppliesQueue F n.objects n.pendingTx s
  empty : n.pendingState = none → n.pendingTx = []

variable {n n' : Node P} {F : SkipFlags → Prop} {s s' : Objects} {ts : List SignedTransaction}
  {t : SignedTransaction} {skip : SkipFlags} {pending : Bool}

theorem AppliesQueue.append {s1 : Objects} {ts' : List SignedTransaction} (h : n.AppliesQueue F s ts s1)
    (h' : n.AppliesQueue F s1 ts' s') : n.AppliesQueue F s (ts ++ ts') s' := by
  induction h with
  | nil => exact h'
  | cons hskip hstep _ ih => exact .cons hskip hstep (ih h')

theorem env_of_chain (h : n'.chain = n.chain) :
    n'.env skip pending = ({ n with draws := n'.draws } : Node P).env skip pending := by
  have hfork : n'.forkDb = n.forkDb := congrArg (fun c => c.2.1) h
  have hlog : n'.blockLog = n.blockLog := congrArg (fun c => c.2.2.1) h
  unfold env
  congr 1
  · funext id
    unfold fetchBlockById readBlockByNum
    rw [hfork, hlog]
  · funext num
    unfold fetchPriorBlock readBlockByNum
    rw [hfork, hlog]

theorem AppliesQueue.congr (hchain : n'.chain = n.chain) (h : n.AppliesQueue F s ts s') :
    n'.AppliesQueue F s ts s' := by
  induction h with
  | nil => exact .nil
  | @cons s s1 s' t ts skip pending draws hskip hstep _ ih =>
    have hsame : ({ n with draws := draws } : Node P).chain = n'.chain := hchain.symm
    have henv : ({ n with draws := draws } : Node P).env skip pending =
        ({ n' with draws := draws } : Node P).env skip pending := env_of_chain hsame
    exact .cons hskip (henv ▸ hstep) ih

theorem objects_of_chain (h : n'.chain = n.chain) : n'.objects = n.objects := congrArg (fun c => c.1.state) h

theorem AppliesQueue.known_iff (hF : ∀ f, F f → f.skipTransactionDupeCheck = false)
    (h : n.AppliesQueue F s ts s') :
    (∀ id, s'.isKnownTransaction id = true ↔ s.isKnownTransaction id = true ∨ id ∈ ts.map (txId P)) ∧
      (ts.map (txId P)).Nodup ∧ ∀ id ∈ ts.map (txId P), s.isKnownTransaction id = false := by
  induction h with
  | nil =>
    exact ⟨fun id => ⟨.inl, fun h => h.resolve_right not_mem_nil⟩, nodup_nil, nofun⟩
  | @cons s s1 s' t ts skip pending draws hskip hstep _ ih =>
    obtain ⟨hnew, hnow⟩ := applyTransaction_known hstep (hF _ hskip)
    obtain ⟨hknown, hnodup, hunknown⟩ := ih
    have hfresh {id : TransactionId} (hid : id ∈ ts.map (txId P)) :
        s.isKnownTransaction id = false ∧ txId P t ≠ id := by
      have hno := hunknown id hid
      constructor
      · exact eq_false_of_ne_true fun hyes => Bool.eq_false_iff.1 hno ((hnow id).2 (.inl hyes))
      · exact fun heq => Bool.eq_false_iff.1 hno ((hnow id).2 (.inr heq))
    refine ⟨fun id => ?_, nodup_cons.2 ⟨fun hmem => (hfresh hmem).2 rfl, hnodup⟩, fun id hid => ?_⟩
    · rw [hknown, hnow, map_cons, mem_cons, or_assoc, eq_comm (a := id) (b := txId P t)]
      rfl
    · rcases mem_cons.1 hid with rfl | hid
      · exact hnew
      · exact (hfresh hid).1

theorem AppliesQueue.unrecorded (hF : ∀ f, F f → f.skipTransactionDupeCheck = true)
    (h : n.AppliesQueue F s ts s') :
    s'.transactions = s.transactions := by
  induction h with
  | nil => rfl
  | cons hskip hstep _ ih => exact ih.trans (applyTransaction_unrecorded hstep (hF _ hskip))

theorem AppliesQueue.remembers {id : TransactionId} (h : n.AppliesQueue F s ts s')
    (hid : s.isKnownTransaction id = true) : s'.isKnownTransaction id = true := by
  induction h with
  | nil => exact hid
  | cons _ hstep _ ih => exact ih (applyTransaction_remembers hstep hid)

theorem AppliesQueue.chainPart (h : n.AppliesQueue F s ts s') : s'.chainPart = s.chainPart := by
  induction h with
  | nil => rfl
  | cons _ hstep _ ih => exact ih.trans (applyTransaction_chainPart hstep)

theorem PendingApplied.applies (h : n.PendingApplied F) :
    n.AppliesQueue F n.objects n.pendingTx n.pendingObjects := by
  unfold pendingObjects
  cases hstate : n.pendingState with
  | none =>
    rw [h.empty hstate]
    exact .nil
  | some s => exact h.session s hstate

theorem pushTransactionCore_cases (n : Node P) (skip : SkipFlags) (pending : Bool) (t : SignedTransaction) :
    (∃ s', n.pendingObjects.applyTransaction P.toCrypto t (n.env skip pending) = .ok s' ∧
      n.pushTransactionCore skip pending t =
        ({ n with pendingState := some s', draws := n.draws + 1, pendingTx := n.pendingTx ++ [t] }, .ok ())) ∨
    ∃ e, n.pendingObjects.applyTransaction P.toCrypto t (n.env skip pending) = .error e ∧
      n.pushTransactionCore skip pending t =
        ({ n with pendingState := some n.pendingObjects, draws := n.draws + 1 }, .error e) := by
  unfold pushTransactionCore
  dsimp only
  rcases n.pendingObjects.applyTransaction P.toCrypto t (n.env skip pending) with e | s'
  · exact .inr ⟨e, rfl, rfl⟩
  · exact .inl ⟨s', rfl, rfl⟩

theorem PendingApplied.pushTransactionCore (h : n.PendingApplied F) (hskip : F skip) :
    (n.pushTransactionCore skip pending t).1.PendingApplied F := by
  have hchain : (n.pushTransactionCore skip pending t).1.chain = n.chain := pushTransactionCore_chain
  rcases pushTransactionCore_cases n skip pending t with ⟨s', hok, heq⟩ | ⟨e, -, heq⟩
  all_goals
    rw [heq] at hchain ⊢
    refine ⟨?_, nofun⟩
    rintro _ ⟨⟩
  · exact (h.applies.append (.cons hskip hok .nil)).congr hchain
  · exact h.applies.congr hchain

/-! ## How a transaction fares -/

inductive Fate where
  | dropped
  | refused
  | applied
  | postponed
  deriving DecidableEq

open Fate

def Fate.kept (f : Fate) : Bool := f = .applied || f = .postponed

/-- A pow after the last block that takes one. -/
def LatePow (s : Objects) (t : SignedTransaction) : Prop := 2116800 < s.headBlockNum ∧ t.hasPowOp

instance {s : Objects} {t : SignedTransaction} : Decidable (LatePow s t) := by
  unfold LatePow
  infer_instance

def Drops (P : Params) (s : Objects) (t : SignedTransaction) : Prop :=
  LatePow s t ∨ s.isKnownTransaction (P.transactionId t.toTransaction)

instance {s : Objects} {t : SignedTransaction} : Decidable (Drops P s t) := by
  unfold Drops
  infer_instance

/-- How `restoreTransaction` deals with a transaction. -/
def fate (skip : SkipFlags) (r : Node P × Nat) (t : SignedTransaction) : Fate :=
  if Drops P r.1.pendingObjects t then .dropped
  else if r.2 = 0 then .postponed
  else if (r.1.pendingObjects.applyTransaction P.toCrypto t (r.1.env skip false)).isOk then .applied
  else .refused

def fates (skip : SkipFlags) : Node P × Nat → List SignedTransaction → List (SignedTransaction × Fate)
  | _, [] => []
  | r, t :: ts => (t, fate skip r t) :: fates skip (restoreTransaction skip r t) ts

def withFate (p : Fate → Bool) (fs : List (SignedTransaction × Fate)) : List SignedTransaction :=
  (fs.filter fun f => p f.2).map Prod.fst

inductive Requeues (skip : SkipFlags) (r : Node P × Nat) (t : SignedTransaction) : Fate →
    Node P × Nat → Prop where
  | dropped (h : Drops P r.1.pendingObjects t) : Requeues skip r t .dropped r
  | postponed (h : ¬ Drops P r.1.pendingObjects t) (hbudget : r.2 = 0) :
      Requeues skip r t .postponed ({ r.1 with pendingTx := r.1.pendingTx ++ [t] }, 0)
  | applied {budget : Nat} {s' : Objects} (h : ¬ Drops P r.1.pendingObjects t) (hbudget : r.2 = budget + 1)
      (hok : r.1.pendingObjects.applyTransaction P.toCrypto t (r.1.env skip false) = .ok s') :
      Requeues skip r t .applied
        ({ r.1 with pendingState := some s', draws := r.1.draws + 1, pendingTx :=
          r.1.pendingTx ++ [t] }, budget)
  | refused {budget : Nat} {e : Exc} (h : ¬ Drops P r.1.pendingObjects t) (hbudget : r.2 = budget + 1)
      (herror : r.1.pendingObjects.applyTransaction P.toCrypto t (r.1.env skip false) = .error e) :
      Requeues skip r t .refused
        ({ r.1 with pendingState := some r.1.pendingObjects, draws := r.1.draws + 1 }, budget)

theorem requeues (skip : SkipFlags) (r : Node P × Nat) (t : SignedTransaction) :
    Requeues skip r t (fate skip r t) (restoreTransaction skip r t) := by
  unfold fate
  by_cases hdrop : Drops P r.1.pendingObjects t
  · rw [if_pos hdrop, restoreTransaction, if_pos (c := _ ∧ _ ∨ _) hdrop]
    exact .dropped hdrop
  rw [if_neg hdrop, restoreTransaction, if_neg (c := _ ∧ _ ∨ _) hdrop]
  obtain ⟨m, budget⟩ := r
  cases budget with
  | zero => exact .postponed hdrop rfl
  | succ budget =>
    rw [if_neg (Nat.succ_ne_zero budget)]
    dsimp only
    rcases pushTransactionCore_cases m skip false t with ⟨s', hok, heq⟩ | ⟨e, herror, heq⟩
    · rw [hok, heq]
      exact .applied hdrop rfl hok
    · rw [herror, heq]
      exact .refused hdrop rfl herror

variable {r : Node P × Nat}

@[simp]
theorem withFate_cons (p : Fate → Bool) (f : SignedTransaction × Fate) (fs : List (SignedTransaction × Fate)) :
    withFate p (f :: fs) = if p f.2 then f.1 :: withFate p fs else withFate p fs := by
  unfold withFate
  rw [filter_cons]
  split_ifs <;> rfl

theorem fates_fst (skip : SkipFlags) (r : Node P × Nat) (ts : List SignedTransaction) :
    (fates skip r ts).map Prod.fst = ts := by
  induction ts generalizing r with
  | nil => rfl
  | cons t ts ih => rw [fates, map_cons, ih]

def restoreAll (skip : SkipFlags) (r : Node P × Nat) (ts : List SignedTransaction) : Node P × Nat :=
  ts.foldl (restoreTransaction skip) r

theorem restoreAll_chain (skip : SkipFlags) (r : Node P × Nat) (ts : List SignedTransaction) :
    (restoreAll skip r ts).1.chain = r.1.chain := by
  induction ts generalizing r with
  | nil => rfl
  | cons t ts ih => exact (ih _).trans restoreTransaction_chain

theorem restoreAll_exhausted (skip : SkipFlags) (ts : List SignedTransaction) (hbudget : r.2 = 0) :
    withFate (· = .applied) (fates skip r ts) = [] ∧
      (restoreAll skip r ts).1.pendingState = r.1.pendingState ∧ (restoreAll skip r ts).2 = 0 := by
  induction ts generalizing r with
  | nil => exact ⟨rfl, rfl, hbudget⟩
  | cons t ts ih =>
    have hone := requeues skip r t
    rw [fates, withFate_cons]
    change _ ∧ (restoreAll skip (restoreTransaction skip r t) ts).1.pendingState = _ ∧
      (restoreAll skip (restoreTransaction skip r t) ts).2 = 0
    generalize fate skip r t = f, restoreTransaction skip r t = r' at hone
    cases hone with
    | dropped _ => exact ih hbudget
    | postponed _ _ => exact ih rfl
    | applied _ hmore _ | refused _ hmore _ => exact absurd (hbudget.symm.trans hmore) (Nat.succ_ne_zero _).symm

/-- What the queue and the session are once the transactions have met their fates. -/
structure Restored (skip : SkipFlags) (r : Node P × Nat) (fs : List (SignedTransaction × Fate))
    (r' : Node P × Nat) :
    Prop where
  order : withFate kept fs = withFate (· = .applied) fs ++ withFate (· = .postponed) fs
  queue : r'.1.pendingTx = r.1.pendingTx ++ withFate kept fs
  session : r.1.AppliesQueue (· = skip) r.1.pendingObjects (withFate (· = .applied) fs) r'.1.pendingObjects
  none : r'.1.pendingState = none → r.1.pendingState = none ∧ withFate (· = .applied) fs = []
  unknown : ∀ t ∈ withFate (· = .postponed) fs, ¬ Drops P r'.1.pendingObjects t

theorem restore_spec (skip : SkipFlags) (r : Node P × Nat) (ts : List SignedTransaction) :
    Restored skip r (fates skip r ts) (restoreAll skip r ts) := by
  induction ts generalizing r with
  | nil => exact ⟨rfl, (append_nil _).symm, .nil, fun hnone => ⟨hnone, rfl⟩, nofun⟩
  | cons t ts ih =>
    have hone := requeues skip r t
    have hchain : (restoreTransaction skip r t).1.chain = r.1.chain := restoreTransaction_chain
    change Restored skip r (_ :: _) (restoreAll skip (restoreTransaction skip r t) ts)
    generalize fate skip r t = f, restoreTransaction skip r t = r' at hone hchain
    obtain ⟨horder, hqueue, hsession, hnone, hunknown⟩ := ih r'
    have hsession := hsession.congr hchain.symm
    cases hone with
    | dropped _ => exact ⟨horder, hqueue, hsession, hnone, hunknown⟩
    | postponed hdrop hbudget =>
      -- nothing is applied after it
      obtain ⟨hidle, hstate, -⟩ := restoreAll_exhausted (r :=
        ({ r.1 with pendingTx := r.1.pendingTx ++ [t] }, 0))
        skip ts rfl
      have hsame : (restoreAll skip ({ r.1 with pendingTx := r.1.pendingTx ++ [t] }, 0) ts).1.pendingObjects =
          r.1.pendingObjects := by
        unfold pendingObjects
        rw [hstate, objects_of_chain ((restoreAll_chain skip _ ts).trans hchain)]
      refine ⟨?_, ?_, hsession, hnone, fun t' ht' => ?_⟩
      · simp [kept, horder, hidle]
      · rw [hqueue, append_assoc]
        rfl
      · rcases mem_cons.1 ht' with rfl | ht'
        · rwa [hsame]
        · exact hunknown t' ht'
    | applied hdrop hbudget hok =>
      refine ⟨?_, ?_, ?_, fun hstate => ?_, hunknown⟩
      · exact congrArg (t :: ·) horder
      · rw [hqueue, append_assoc]
        rfl
      · exact .cons rfl hok hsession
      · cases (hnone hstate).1
    | refused hdrop hbudget herror =>
      refine ⟨horder, hqueue, hsession, fun hstate => ?_, hunknown⟩
      cases (hnone hstate).1

theorem restoreTransaction_poppedTx (skip : SkipFlags) (r : Node P × Nat) (t : SignedTransaction)
    (x : List SignedTransaction) :
    restoreTransaction skip ({ r.1 with poppedTx := x }, r.2) t =
      ({ (restoreTransaction skip r t).1 with poppedTx := x }, (restoreTransaction skip r t).2) := by
  obtain ⟨m, budget⟩ := r
  have henv : ({ m with poppedTx := x } : Node P).env skip false = m.env skip false := rfl
  unfold restoreTransaction pushTransactionCore pendingObjects objects
  dsimp only
  rw [henv]
  split_ifs
  · rfl
  · cases budget with
    | zero => rfl
    | succ budget => rcases (m.pendingState.getD m.db.state).applyTransaction P.toCrypto t _ with e | s <;> rfl

theorem restoreAll_poppedTx (skip : SkipFlags) (r : Node P × Nat) (ts x : List SignedTransaction) :
    restoreAll skip ({ r.1 with poppedTx := x }, r.2) ts =
      ({ (restoreAll skip r ts).1 with poppedTx := x }, (restoreAll skip r ts).2) := by
  induction ts generalizing r with
  | nil => rfl
  | cons t ts ih =>
    change restoreAll skip (restoreTransaction skip _ t) ts = _
    rw [restoreTransaction_poppedTx, ih]
    rfl

theorem restorePending_eq (n : Node P) (skip : SkipFlags) (budget : Nat) (pending : List SignedTransaction) :
    n.restorePending skip budget pending =
      { (restoreAll skip (n, budget) (n.poppedTx ++ pending)).1 with poppedTx := [] } := by
  have htwo : n.restorePending skip budget pending = (restoreAll skip
      ({ (restoreAll skip (n, budget) n.poppedTx).1 with poppedTx := [] },
        (restoreAll skip (n, budget) n.poppedTx).2) pending).1 := rfl
  rw [htwo, restoreAll_poppedTx]
  unfold restoreAll
  rw [foldl_append]

/-- The blocks that are popped on the way from `n`, the last one first. -/
inductive Pops (n : Node P) : List SignedBlock → Node P → Prop where
  | refl : Pops n [] n
  | pop {m m' : Node P} {b : SignedBlock} {bs : List SignedBlock} {pinned : List ForkItem} {u : Unit}
      (h : Pops n bs m) (hb : m.fetchBlockById m.headBlockId = some b)
      (hpop : m.popBlock pinned = (m', .ok u)) : Pops n (b :: bs) m'
  | other {m m' : Node P} {bs : List SignedBlock} (h : Pops n bs m) (hpending : m'.pendingTx = m.pendingTx)
      (hpopped : m'.poppedTx = m.poppedTx) (hstate : m.pendingState = none → m'.pendingState = none) :
      Pops n bs m'

variable {m m' : Node P} {b : SignedBlock} {bs : List SignedBlock} {pinned : List ForkItem}
  {events : List ChainEvent}

theorem Pops.trans {bs' : List SignedBlock} (h : n.Pops bs m) (h' : m.Pops bs' m') :
    n.Pops (bs' ++ bs) m' := by
  induction h' with
  | refl => exact h
  | pop _ hb hpop ih => exact .pop ih hb hpop
  | other _ hpending hpopped hstate ih => exact .other ih hpending hpopped hstate

theorem Pops.queues (h : n.Pops bs m) :
    m.poppedTx = bs.flatMap (fun b => b.transactions) ++ n.poppedTx ∧ m.pendingTx = n.pendingTx ∧
      (n.pendingState = none → m.pendingState = none) := by
  induction h with
  | refl => exact ⟨rfl, rfl, id⟩
  | @pop m m' b bs pinned u _ hb hpop ih =>
    rcases popBlock_cases hpop with ⟨_, hr, -⟩ | ⟨c, p, -, hc, -, rfl⟩
    · cases hr
    · cases hb.symm.trans hc
      refine ⟨?_, ih.2.1, fun _ => rfl⟩
      rw [flatMap_cons, append_assoc, ← ih.1]
  | other _ hpending hpopped hstate ih => exact ⟨hpopped.trans ih.1, hpending.trans ih.2.1, fun h =>
      hstate (ih.2.2 h)⟩

theorem Pops.still (hpending : m.pendingTx = n.pendingTx) (hpopped : m.poppedTx = n.poppedTx)
    (hstate : m.pendingState = n.pendingState) : n.Pops [] m :=
  .other .refl hpending hpopped fun h => hstate.trans h

theorem applyBlock_pops {r : Result Unit} (hrun : n.applyBlock skip pinned b = (m, r)) : n.Pops [] m := by
  cases r with
  | error e =>
    rw [applyBlock_error hrun]
    exact .still rfl rfl rfl
  | ok u =>
    obtain ⟨s, -, hmigrate⟩ := applyBlock_ok hrun
    obtain ⟨blocks, -, -, rfl⟩ := migrateIrreversibleState_ok hmigrate
    exact .still rfl rfl rfl

theorem popBlock_pops (n : Node P) (pinned : List ForkItem) : ∃ bs, n.Pops bs (n.popBlock pinned).1 := by
  rcases hrun : n.popBlock pinned with ⟨m, r⟩
  rcases popBlock_cases hrun with ⟨_, -, rfl⟩ | ⟨b, p, rfl, hb, -, -⟩
  · exact ⟨[], .other .refl rfl rfl fun _ => rfl⟩
  · exact ⟨[b], .pop .refl hb hrun⟩

theorem Switches.pops {point : BlockId} {reached : Bool}
    (h : Switches skip pinned point reached n events m) : ∃ bs, n.Pops bs m := by
  induction h with
  | refl => exact ⟨[], .refl⟩
  | @pop _ n _ _ _ _ hstep _ ih =>
    obtain ⟨bs, hpop⟩ := popBlock_pops n pinned
    obtain ⟨bs', hrest⟩ := ih
    rw [hstep] at hpop
    exact ⟨bs' ++ bs, hpop.trans hrest⟩
  | reach _ _ ih => exact ih
  | @apply n _ _ x _ _ _ _ hstep _ ih =>
    obtain ⟨bs, hrest⟩ := ih
    have hset : n.Pops [] { n with forkDb := n.forkDb.setHead x } := .still rfl rfl rfl
    exact ⟨_, (hset.trans (applyBlock_pops hstep)).trans hrest⟩
  | @remove _ n _ xs _ _ ih =>
    obtain ⟨bs, hrest⟩ := ih
    have hremove : n.Pops [] (n.removeItems xs) := .still rfl rfl rfl
    exact ⟨_, hremove.trans hrest⟩

theorem Pushes.pops (h : Pushes skip b n events m) : ∃ bs, n.Pops bs m := by
  have hfork (F : ForkDatabase P.toCrypto) : n.Pops [] { n with forkDb := F } := .still rfl rfl rfl
  cases h with
  | kept => exact ⟨[], hfork _⟩
  | extended _ hstep => exact ⟨[], .other ((hfork _).trans (applyBlock_pops hstep)) rfl rfl id⟩
  | switched _ _ hswitch =>
    obtain ⟨bs, hpops⟩ := hswitch.pops
    exact ⟨_, (hfork _).trans hpops⟩

variable {flags : SkipFlags} {budget : Nat}

def unwound (n : Node P) (flags : SkipFlags) (b : SignedBlock) : Node P :=
    (n.clearPending.pushBlockCore flags b).1

def backlog (n : Node P) (flags : SkipFlags) (b : SignedBlock) : List SignedTransaction :=
  (n.unwound flags b).poppedTx ++ n.pendingTx

def backlogFates (n : Node P) (flags : SkipFlags) (budget : Nat) (b : SignedBlock) :
    List (SignedTransaction × Fate) :=
  fates flags (n.unwound flags b, budget) (n.backlog flags b)

theorem unwound_pops (n : Node P) (flags : SkipFlags) (b : SignedBlock) :
    ∃ bs, n.clearPending.Pops bs (n.unwound flags b) := (pushBlockCore_pushes _ flags b).pops

theorem unwound_idle (n : Node P) (flags : SkipFlags) (b : SignedBlock) :
    (n.unwound flags b).pendingTx = [] ∧ (n.unwound flags b).pendingState = none := by
  obtain ⟨bs, hbs⟩ := n.unwound_pops flags b
  exact ⟨hbs.queues.2.1, hbs.queues.2.2 rfl⟩

section

variable (budget) (hflags : n.checkpointFlags skip b = .ok flags)
include hflags

theorem pushBlock_of_flags :
    (n.pushBlock skip budget b).1 =
      { (restoreAll flags (n.unwound flags b, budget) (n.backlog flags b)).1 with poppedTx := [] } := by
  unfold pushBlock
  rw [hflags]
  exact restorePending_eq _ _ _ _

theorem pushBlock_restored :
    Restored flags (n.unwound flags b, budget) (n.backlogFates flags budget b)
      ((n.pushBlock skip budget b).1, 0) := by
  have hspec := restore_spec flags (n.unwound flags b, budget) (n.backlog flags b)
  rw [pushBlock_of_flags budget hflags]
  exact ⟨hspec.order, hspec.queue, hspec.session, hspec.none, hspec.unknown⟩

theorem pushBlock_chain :
    (n.pushBlock skip budget b).1.chain = (n.unwound flags b).chain := by
  rw [pushBlock_of_flags budget hflags]
  exact restoreAll_chain _ _ _

theorem pushBlock_pendingTx :
    (n.pushBlock skip budget b).1.pendingTx = withFate kept (n.backlogFates flags budget b) := by
  have hqueue := (pushBlock_restored budget hflags).queue
  rwa [(n.unwound_idle flags b).1, nil_append] at hqueue

end

theorem pushBlock_of_error {e : Exc} (h : n.checkpointFlags skip b = .error e) :
    (n.pushBlock skip budget b).1 = n := by
  unfold pushBlock
  rw [h]

/-! ## The session over runs -/

inductive QueueEvent where
  | pushBlock (skip : SkipFlags) (budget : Nat) (b : SignedBlock)
  | pushTransaction (skip : SkipFlags) (t : SignedTransaction)

/-- A push under flags in `F`. -/
def QueueStep (F : SkipFlags → Prop) (n : Node P) (e : QueueEvent) (n' : Node P) : Prop :=
  match e with
  | .pushBlock skip budget b => (∀ flags, n.checkpointFlags skip b = .ok flags → F flags) ∧
      n' = (n.pushBlock skip budget b).1
  | .pushTransaction skip t => F skip ∧ n' = (n.pushTransaction skip t).1

/-- No transaction is put off to a later block. -/
def Prompt (event : Node P × QueueEvent) : Prop :=
  match event.2 with
  | .pushBlock skip budget b => ∀ flags, event.1.checkpointFlags skip b = .ok flags →
      withFate (· = .postponed) (event.1.backlogFates flags budget b) = []
  | .pushTransaction _ _ => True

theorem AppliesQueue.mono {F' : SkipFlags → Prop} (h : n.AppliesQueue F s ts s') (himp : ∀ f, F f → F' f) :
    n.AppliesQueue F' s ts s' := by
  induction h with
  | nil => exact .nil
  | cons hskip hstep _ ih => exact .cons (himp _ hskip) hstep ih

theorem PendingApplied.of_restored (hflags : n.checkpointFlags skip b = .ok flags) (hF : F flags)
    (hprompt : withFate (· = .postponed) (n.backlogFates flags budget b) = []) :
    (n.pushBlock skip budget b).1.PendingApplied F := by
  have hspec := pushBlock_restored budget hflags
  have hqueue := pushBlock_pendingTx budget hflags
  rw [hspec.order, hprompt, append_nil] at hqueue
  refine ⟨fun s hs => ?_, fun hnone => hqueue.trans (hspec.none hnone).2⟩
  have hsession := (hspec.session.congr (pushBlock_chain budget hflags)).mono fun f (hf : f = flags) => hf ▸ hF
  have hstart : (n.unwound flags b).pendingObjects = (n.pushBlock skip budget b).1.objects := by
    unfold pendingObjects
    rw [(n.unwound_idle flags b).2, objects_of_chain (pushBlock_chain budget hflags)]
    rfl
  have hend : (n.pushBlock skip budget b).1.pendingObjects = s := by
    unfold pendingObjects
    rw [hs]
    rfl
  rw [hqueue, ← hstart, ← hend]
  exact hsession

theorem PendingApplied.prompt (hnodupe : ∀ f, F f → f.skipTransactionDupeCheck = false)
    (hflags : n.checkpointFlags skip b = .ok flags) (h : (n.pushBlock skip budget b).1.PendingApplied F) :
    withFate (· = .postponed) (n.backlogFates flags budget b) = [] := by
  have hspec := pushBlock_restored budget hflags
  refine eq_nil_iff_forall_not_mem.2 fun t ht => ?_
  have hmem : t ∈ (n.pushBlock skip budget b).1.pendingTx := by
    rw [pushBlock_pendingTx budget hflags, hspec.order]
    exact mem_append_right _ ht
  exact hspec.unknown t ht (.inr (((h.applies.known_iff hnodupe).1 _).2 (.inr (mem_map_of_mem hmem))))

theorem pending_applied_iff {n0 : Node P} {events : List (Node P × QueueEvent)} (h0 : n0.PendingApplied F)
    (h : Run (QueueStep F) n0 events n) :
    ((∀ event ∈ events, Prompt event) → (∀ event ∈ events, event.1.PendingApplied F) ∧ n.PendingApplied F) ∧
    ((∀ f, F f → f.skipTransactionDupeCheck = false) →
      (∀ event ∈ events, event.1.PendingApplied F) ∧ n.PendingApplied F → ∀ event ∈ events, Prompt event) := by
  have hkept {n n' : Node P} {e : QueueEvent} (hn : n.PendingApplied F) (hstep : QueueStep F n e n')
      (hprompt : Prompt (n, e)) : n'.PendingApplied F := by
    cases e with
    | pushBlock skip budget b =>
      obtain ⟨hF, rfl⟩ := hstep
      cases hflags : n.checkpointFlags skip b with
      | ok flags => exact .of_restored hflags (hF flags hflags) (hprompt flags hflags)
      | error e => rwa [pushBlock_of_error hflags]
    | pushTransaction skip t =>
      obtain ⟨hF, rfl⟩ := hstep
      unfold pushTransaction
      split_ifs
      · exact hn.pushTransactionCore hF
      · exact hn
  refine ⟨fun hprompt => ?_, fun hnodupe => ?_⟩
  · exact (h.invariant h0 fun hmem hn hstep => hkept hn hstep (hprompt _ hmem)).symm
  · refine (h.invariant_iff h0 id fun hn hstep => ⟨hkept hn hstep, fun hn' => ?_⟩).1
    rename_i n n' e
    cases e with
    | pushBlock skip budget b =>
      obtain ⟨hF, rfl⟩ := hstep
      exact fun flags hflags => hn'.prompt hnodupe hflags
    | pushTransaction skip t => trivial

def toyPayment : SignedTransaction := toyTransaction 0 [.transfer toyTransfer] [1] (xgtGenesisTime + 600)

def firstBlock : SignedBlock := toyBlock .zero 3

def secondBlock : SignedBlock := toyBlock (toyId firstBlock) 6

def paid : Node toyParams := ((init toyParams).pushTransaction skipNothing toyPayment).1

theorem pendingApplied_init (F : SkipFlags → Prop) : (init P).PendingApplied F :=
  ⟨fun s hsome => absurd hsome (Option.some_ne_none s).symm, fun _ => rfl⟩

theorem pending_applied_payment : ∃ (events : List (Node toyParams × QueueEvent)) (n : Node toyParams),
    Run (QueueStep fun f => f.skipTransactionDupeCheck = false) (init toyParams) events n ∧
      n.pendingTx.length = 1 ∧ n.pendingState.isSome = true ∧
      (∀ event ∈ events, event.1.PendingApplied fun f => f.skipTransactionDupeCheck = false) ∧
      n.PendingApplied fun f => f.skipTransactionDupeCheck = false := by
  have hflags := checkpointFlags_of_nil skipNothing firstBlock (show paid.checkpoints = [] by decide +kernel)
  have hrun : Run (QueueStep fun f => f.skipTransactionDupeCheck = false) (init toyParams)
      [(init toyParams, .pushTransaction skipNothing toyPayment), (paid, .pushBlock skipNothing 1 firstBlock)]
      (paid.pushBlock skipNothing 1 firstBlock).1 := by
    refine .snoc (.snoc .nil ⟨rfl, rfl⟩) ⟨fun flags h => ?_, rfl⟩
    cases hflags.symm.trans h
    rfl
  have hprompt : withFate (· = .postponed) (paid.backlogFates skipNothing 1 firstBlock) = [] :=
    eq_nil_of_length_eq_zero (by decide +kernel)
  refine ⟨_, _, hrun, by decide +kernel, by decide +kernel, ?_⟩
  refine (pending_applied_iff (pendingApplied_init _) hrun).1 fun event hevent => ?_
  rcases mem_cons.1 hevent with rfl | hevent
  · trivial
  · cases mem_singleton.1 hevent
    intro flags h
    cases hflags.symm.trans h
    exact hprompt

theorem pending_postponed : ∃ (events : List (Node toyParams × QueueEvent)) (n : Node toyParams),
    Run (QueueStep fun _ => True) (init toyParams) events n ∧ n.pendingTx.length = 1 ∧
      n.pendingState.isNone = true ∧
      ¬ n.PendingApplied fun _ => True := by
  have hrun : Run (QueueStep fun _ => True) (init toyParams)
      [(init toyParams, .pushTransaction skipNothing toyPayment), (paid, .pushBlock skipNothing 0 firstBlock)]
      (paid.pushBlock skipNothing 0 firstBlock).1 :=
    .snoc (.snoc .nil ⟨trivial, rfl⟩) ⟨fun _ _ => trivial, rfl⟩
  have hqueue : (paid.pushBlock skipNothing 0 firstBlock).1.pendingTx.length = 1 := by decide +kernel
  have hnone : (paid.pushBlock skipNothing 0 firstBlock).1.pendingState.isNone = true := by decide +kernel
  refine ⟨_, _, hrun, hqueue, hnone, fun h => ?_⟩
  rw [h.empty (Option.isNone_iff_eq_none.1 hnone)] at hqueue
  cases hqueue

/-! ## The queue after `push_block` -/

theorem fates_append (skip : SkipFlags) (r : Node P × Nat) (ts ts' : List SignedTransaction) :
    fates skip r (ts ++ ts') = fates skip r ts ++ fates skip (restoreAll skip r ts) ts' := by
  induction ts generalizing r with
  | nil => rfl
  | cons t ts ih =>
    rw [cons_append, fates, ih]
    rfl

theorem mem_fates {f : SignedTransaction × Fate} (h : f ∈ fates skip r ts) :
    ∃ before after, ts = before ++ f.1 :: after ∧ f.2 = fate skip (restoreAll skip r before) f.1 := by
  induction ts generalizing r with
  | nil => exact absurd h not_mem_nil
  | cons t ts ih =>
    rcases mem_cons.1 h with rfl | h
    · exact ⟨[], ts, rfl, rfl⟩
    · obtain ⟨before, after, rfl, hf⟩ := ih h
      exact ⟨t :: before, after, rfl, hf⟩

theorem mem_withFate {p : Fate → Bool} {fs : List (SignedTransaction × Fate)} :
    t ∈ withFate p fs ↔ ∃ f, (t, f) ∈ fs ∧ p f = true := by
  simp [withFate]

/-- The transaction is no late pow, is not on the chain, and is valid in its turn or comes after
the time limit. -/
structure Qualifies (n : Node P) (flags : SkipFlags) (budget : Nat) (before : List SignedTransaction)
    (t : SignedTransaction) : Prop where
  early : ¬ LatePow n.objects t
  new : n.objects.isKnownTransaction (txId P t) = false
  valid : (restoreAll flags (n, budget) before).2 = 0 ∨
    ∃ s', (restoreAll flags (n, budget) before).1.pendingObjects.applyTransaction P.toCrypto t
      ((restoreAll flags (n, budget) before).1.env flags false) = .ok s'

/-- A transaction with the id qualifies before the time limit. -/
def QualifiesInTime (n : Node P) (flags : SkipFlags) (budget : Nat) (ts : List SignedTransaction)
    (id : TransactionId) : Prop :=
  ∃ before t after, ts = before ++ t :: after ∧ txId P t = id ∧ n.Qualifies flags budget before t ∧
    (restoreAll flags (n, budget) before).2 ≠ 0

theorem pair_sublist_fates {t' : SignedTransaction} {f f' : Fate} : [(t, f), (t', f')] <+ fates skip r ts ↔
    ∃ before mid after, ts = before ++ t :: (mid ++ t' :: after) ∧ f = fate skip (restoreAll skip r before) t ∧
      f' = fate skip (restoreAll skip r (before ++ t :: mid)) t' := by
  constructor
  · intro h
    induction ts generalizing r with
    | nil => cases h
    | cons u ts ih =>
      rcases cons_sublist_cons'.1 h with hrest | ⟨heq, hrest⟩
      · obtain ⟨before, mid, after, rfl, hf, hf'⟩ := ih hrest
        exact ⟨u :: before, mid, after, rfl, hf, hf'⟩
      · cases heq
        obtain ⟨mid, after, rfl, hf'⟩ := mem_fates (singleton_sublist.1 hrest)
        exact ⟨[], mid, after, rfl, rfl, hf'⟩
  · rintro ⟨before, mid, after, rfl, rfl, rfl⟩
    rw [fates_append, fates, fates_append, fates]
    refine Sublist.trans (cons_sublist_cons.2 (singleton_sublist.2 ?_)) (sublist_append_right _ _)
    unfold restoreAll
    rw [foldl_append]
    exact mem_append_right _ (.head _)

theorem two_kept_iff {id : TransactionId} : 2 ≤ ((withFate kept (fates skip r ts)).map (txId P)).count id ↔
    ∃ before t mid t' after, ts = before ++ t :: (mid ++ t' :: after) ∧ txId P t = id ∧ txId P t' = id ∧
      (fate skip (restoreAll skip r before) t).kept = true ∧
      (fate skip (restoreAll skip r (before ++ t :: mid)) t').kept = true := by
  rw [← replicate_sublist_iff, withFate, map_map]
  constructor
  · intro h
    obtain ⟨l, hl, hids⟩ := sublist_map_iff.1 h
    obtain ⟨⟨t, f⟩, ⟨t', f'⟩, rfl⟩ : ∃ f f', l = [f, f'] :=
      length_eq_two.1 (by simpa using (congrArg length hids).symm)
    obtain ⟨ht, ht', -⟩ : id = txId P t ∧ id = txId P t' ∧ True := by simpa [replicate] using hids
    obtain ⟨before, mid, after, hts, rfl, rfl⟩ := pair_sublist_fates.1 (hl.trans filter_sublist)
    refine ⟨before, t, mid, t', after, hts, ht.symm, ht'.symm, ?_, ?_⟩
    · exact (mem_filter.1 (hl.subset (.head _))).2
    · exact (mem_filter.1 (hl.subset (.tail _ (.head _)))).2
  · rintro ⟨before, t, mid, t', after, hts, rfl, ht', hkept, hkept'⟩
    have hpair : [(t, fate skip (restoreAll skip r before) t),
        (t', fate skip (restoreAll skip r (before ++ t :: mid)) t')] <+ fates skip r ts :=
      pair_sublist_fates.2 ⟨before, mid, after, hts, rfl, rfl⟩
    replace hpair := hpair.filter fun f => f.2.kept
    simp only [filter_cons, hkept, hkept', if_true, filter_nil] at hpair
    simpa [replicate, ht'] using hpair.map (txId P ∘ Prod.fst)

section Requeue

variable {before : List SignedTransaction}

section

variable (hidle : n.pendingState = none)
include hidle

theorem session_before (flags : SkipFlags) (budget : Nat) (before : List SignedTransaction) :
    n.AppliesQueue (· = flags) n.objects (withFate (· = .applied) (fates flags (n, budget) before))
      (restoreAll flags (n, budget) before).1.pendingObjects := by
  have hsession := (restore_spec flags (n, budget) before).session
  have hstart : n.pendingObjects = n.objects := by
    unfold pendingObjects
    rw [hidle]
    rfl
  rwa [hstart] at hsession

theorem latePow_before (t : SignedTransaction) :
    LatePow (restoreAll flags (n, budget) before).1.pendingObjects t ↔ LatePow n.objects t := by
  have hnum : (restoreAll flags (n, budget) before).1.pendingObjects.headBlockNum = n.objects.headBlockNum :=
    congrArg ChainPart.headBlockNumber (session_before hidle flags budget before).chainPart
  unfold LatePow
  rw [hnum]

theorem qualifies_of_fate (h : (fate flags (restoreAll flags (n, budget) before) t).kept = true) :
    n.Qualifies flags budget before t := by
  set r := restoreAll flags (n, budget) before
  have hone := requeues flags r t
  have hmore {id : TransactionId} (hknown : n.objects.isKnownTransaction id = true) :
      r.1.pendingObjects.isKnownTransaction id = true :=
    (session_before hidle flags budget before).remembers hknown
  have hstay (hdrop : ¬ Drops P r.1.pendingObjects t) :
      ¬ LatePow n.objects t ∧ n.objects.isKnownTransaction (txId P t) = false :=
    ⟨fun hlate => hdrop (.inl ((latePow_before hidle t).2 hlate)),
      eq_false_of_ne_true fun hknown => hdrop (.inr (hmore hknown))⟩
  generalize fate flags r t = f, restoreTransaction flags r t = r' at hone h
  cases hone with
  | dropped _ | refused _ _ _ => cases h
  | applied hdrop _ hok => exact ⟨(hstay hdrop).1, (hstay hdrop).2, .inr ⟨_, hok⟩⟩
  | postponed hdrop hbudget => exact ⟨(hstay hdrop).1, (hstay hdrop).2, .inl hbudget⟩

variable {id : TransactionId}

theorem qualifiesInTime_of_applied
    (h : id ∈ (withFate (· = .applied) (fates flags (n, budget) ts)).map (txId P)) :
    n.QualifiesInTime flags budget ts id := by
  obtain ⟨t, ht, rfl⟩ := mem_map.1 h
  obtain ⟨f, hf, happlied⟩ := mem_withFate.1 ht
  obtain ⟨before, after, hts, hfate⟩ := mem_fates hf
  obtain rfl : f = .applied := of_decide_eq_true happlied
  let r := restoreAll flags (n, budget) before
  have hone := requeues flags r t
  have hfate : applied = fate flags r t := hfate
  refine ⟨before, t, after, hts, rfl, qualifies_of_fate hidle (hfate ▸ rfl), fun hzero => ?_⟩
  rw [← hfate] at hone
  generalize restoreTransaction flags r t = r' at hone
  cases hone with
  | applied _ hbudget _ => exact absurd (hzero.symm.trans hbudget) (Nat.succ_ne_zero _).symm

/-- A transaction that qualifies is kept in its place, unless an earlier copy of it has been recorded. -/
theorem Qualifies.kept_or (h : n.Qualifies flags budget before t) :
    (fate flags (restoreAll flags (n, budget) before) t).kept = true ∨
      flags.skipTransactionDupeCheck = false ∧
        txId P t ∈ (withFate (· = .applied) (fates flags (n, budget) before)).map (txId P) := by
  have hsession := session_before hidle flags budget before
  set r := restoreAll flags (n, budget) before
  have hone := requeues flags r t
  generalize fate flags r t = f, restoreTransaction flags r t = r' at hone
  cases hone with
  | applied _ _ _ | postponed _ _ => exact .inl rfl
  | refused _ hbudget herror =>
    rcases h.valid with hzero | ⟨s', hok⟩
    · exact absurd (hzero.symm.trans hbudget) (Nat.succ_ne_zero _).symm
    · cases herror.symm.trans hok
  | dropped hdrop =>
    rcases hdrop with hlate | hknown
    · exact absurd ((latePow_before hidle t).1 hlate) h.early
    cases hskip : flags.skipTransactionDupeCheck with
    | true =>
      have hsame := hsession.unrecorded fun f (hf : f = flags) => hf ▸ hskip
      have hnew := h.new
      unfold isKnownTransaction at hknown hnew
      rw [hsame] at hknown
      exact absurd hknown (Bool.eq_false_iff.1 hnew)
    | false =>
      have hiff := (hsession.known_iff fun f (hf : f = flags) => hf ▸ hskip).1 (txId P t)
      exact .inr ⟨rfl, (hiff.1 hknown).resolve_left (Bool.eq_false_iff.1 h.new)⟩

theorem Qualifies.mem (h : n.Qualifies flags budget before t) (after : List SignedTransaction) :
    txId P t ∈ (withFate kept (fates flags (n, budget) (before ++ t :: after))).map (txId P) := by
  rw [fates_append, fates]
  rcases h.kept_or hidle with hkept | ⟨-, happlied⟩
  · exact mem_map_of_mem (mem_withFate.2 ⟨_, mem_append_right _ (.head _), hkept⟩)
  · obtain ⟨t', ht', hid⟩ := mem_map.1 happlied
    obtain ⟨f', hf', hfate⟩ := mem_withFate.1 ht'
    refine mem_map.2 ⟨t', mem_withFate.2 ⟨f', mem_append_left _ hf', ?_⟩, hid⟩
    rw [of_decide_eq_true hfate]
    rfl

theorem QualifiesInTime.count_le (h : n.QualifiesInTime flags budget ts id)
    (hskip : flags.skipTransactionDupeCheck = false) :
    ((withFate kept (fates flags (n, budget) ts)).map (txId P)).count id ≤ 1 := by
  obtain ⟨hknown, hnodup, -⟩ := (session_before hidle flags budget ts).known_iff
    fun f (hf : f = flags) => hf ▸ hskip
  have hspec := restore_spec flags (n, budget) ts
  -- the copy in time is applied, and so known at the end
  have hid : (restoreAll flags (n, budget) ts).1.pendingObjects.isKnownTransaction id = true := by
    obtain ⟨before, t, after, rfl, rfl, hqualifies, htime⟩ := h
    refine (hknown _).2 (.inr (mem_map_of_mem (mem_withFate.2 ⟨.applied, ?_, rfl⟩)))
    rw [fates_append, fates]
    set r := restoreAll flags (n, budget) before
    have hfate := requeues flags r t
    generalize fate flags r t = f, restoreTransaction flags r t = r' at hfate
    obtain ⟨s', hok⟩ := hqualifies.valid.resolve_left htime
    cases hfate with
    | applied _ _ _ => exact mem_append_right _ (.head _)
    | postponed _ hzero => exact absurd hzero htime
    | refused _ _ herror => cases herror.symm.trans hok
    | dropped hdrop =>
      have hnew := (applyTransaction_known hok hskip).1
      rcases hdrop with hlate | hknown'
      · exact absurd ((latePow_before hidle t).1 hlate) hqualifies.early
      · exact absurd hknown' (Bool.eq_false_iff.1 hnew)
  have hnone : id ∉ (withFate (· = .postponed) (fates flags (n, budget) ts)).map (txId P) := fun hmem => by
    obtain ⟨t, ht, rfl⟩ := mem_map.1 hmem
    exact hspec.unknown t ht (.inr hid)
  rw [hspec.order, map_append, count_append, count_eq_zero_of_not_mem hnone]
  exact nodup_iff_count_le_one.1 hnodup id

end

end Requeue

theorem pushBlock_requeues (n : Node P) (skip : SkipFlags) (budget : Nat) (b : SignedBlock) :
    (∀ e, n.checkpointFlags skip b = .error e → (n.pushBlock skip budget b).1 = n) ∧
    ∀ flags, n.checkpointFlags skip b = .ok flags →
      (∃ popped, n.clearPending.Pops popped (n.unwound flags b) ∧
        n.backlog flags b = popped.flatMap (fun c => c.transactions) ++ n.poppedTx ++ n.pendingTx) ∧
      (n.pushBlock skip budget b).1.pendingTx.Sublist (n.backlog flags b) ∧
      ((∀ before t after, n.backlog flags b = before ++ t :: after →
          (n.unwound flags b).Qualifies flags budget before t →
          ((n.pushBlock skip budget b).1.pendingTx.map (txId P)).count (txId P t) = 1) ↔
        ∀ before t mid t' after, n.backlog flags b = before ++ t :: (mid ++ t' :: after) →
          txId P t' = txId P t →
          (n.unwound flags b).Qualifies flags budget before t →
          (n.unwound flags b).Qualifies flags budget (before ++ t :: mid) t' →
          flags.skipTransactionDupeCheck = false ∧
            (n.unwound flags b).QualifiesInTime flags budget (n.backlog flags b) (txId P t)) := by
  refine ⟨fun e => pushBlock_of_error, fun flags hflags => ⟨?_, ?_, ?_⟩⟩
  · obtain ⟨popped, hpopped⟩ := n.unwound_pops flags b
    refine ⟨popped, hpopped, ?_⟩
    unfold backlog
    rw [hpopped.queues.1]
    rfl
  · rw [pushBlock_pendingTx budget hflags]
    unfold withFate
    have hsub := (filter_sublist (p := fun f : SignedTransaction × Fate => f.2.kept)
      (l := n.backlogFates flags budget b)).map Prod.fst
    rwa [backlogFates, fates_fst] at hsub
  · have hidle := (n.unwound_idle flags b).2
    rw [pushBlock_pendingTx budget hflags]
    constructor
    · intro honce before t mid t' after hsplit hid hfirst hsecond
      by_contra hnot
      -- neither copy is recorded before the other, so both are kept
      have hearlier : ∀ {prior rest}, n.backlog flags b = prior ++ rest →
        flags.skipTransactionDupeCheck = false →
          txId P t ∉ (withFate (· = .applied) (fates flags (n.unwound flags b, budget) prior)).map
            (txId P) := by
        intro prior rest hprior hskip happlied
        obtain ⟨before, u, after, rfl, hu, hqualifies, htime⟩ := qualifiesInTime_of_applied hidle happlied
        exact hnot ⟨hskip, before, u, after ++
          rest, by rw [hprior, append_assoc, cons_append], hu, hqualifies, htime⟩
      have hkept := (hfirst.kept_or hidle).resolve_right fun h => hearlier hsplit h.1 h.2
      have hkept' := (hsecond.kept_or hidle).resolve_right fun h =>
        hearlier (by rw [hsplit, append_assoc, cons_append]) h.1 (hid ▸ h.2)
      have htwo := two_kept_iff.2 ⟨before, t, mid, t', after, hsplit, rfl, hid, hkept, hkept'⟩
      exact absurd (honce before t _ hsplit hfirst) (Nat.ne_of_gt htwo)
    · intro hcond before t after hsplit hqualifies
      have hmem := hqualifies.mem hidle after
      rw [← hsplit] at hmem
      refine le_antisymm (not_lt.1 fun htwo => ?_) (count_pos_iff.2 hmem)
      obtain ⟨before, u, mid, u', after, hpair, hu, hu', hkept, hkept'⟩ := two_kept_iff.1 htwo
      obtain ⟨hskip, htime⟩ := hcond before u mid u' after hpair (hu'.trans hu.symm)
        (qualifies_of_fate hidle hkept)
        (qualifies_of_fate hidle hkept')
      have hle := (hu ▸ htime).count_le hidle hskip
      exact absurd htwo (not_lt.2 hle)

def forked : Node toyParams :=
  (init toyParams).pushBlocks [toyBlock .zero 2 [toyPayment], firstBlock]

theorem requeued_after_switch : (forked.unwound skipNothing secondBlock).objects.headBlockNum = 2 ∧
    ((forked.pushBlock skipNothing 1 secondBlock).1.pendingTx.map (txId toyParams)).count
      (txId toyParams toyPayment) = 1 := by
  have hflags := checkpointFlags_of_nil skipNothing secondBlock (show forked.checkpoints = [] by decide +kernel)
  obtain ⟨s', hok, -⟩ := exists_ok_of_any (p := fun _ => true)
    (x := (forked.unwound skipNothing secondBlock).pendingObjects.applyTransaction toyParams.toCrypto toyPayment
      ((forked.unwound skipNothing secondBlock).env skipNothing false)) (by decide +kernel)
  have hlength : (forked.backlog skipNothing secondBlock).length = 1 := by decide +kernel
  refine ⟨by decide +kernel,
    (((pushBlock_requeues forked skipNothing 1 secondBlock).2 skipNothing hflags).2.2).2 ?_ [] toyPayment [] (by decide +kernel) ⟨by decide +kernel, by decide +kernel, .inr ⟨s', hok⟩⟩⟩
  intro before t mid t' after hsplit
  rw [hsplit, length_append, length_cons, length_append, length_cons] at hlength
  omega

def paidTwice : Node toyParams :=
  ((paid.pushBlock skipNothing 0 firstBlock).1.pushTransaction skipNothing toyPayment).1

theorem requeued_twice : ∃ (events : List (Node toyParams × QueueEvent)) (n : Node toyParams) (b : SignedBlock)
    (t : SignedTransaction), Run (QueueStep fun _ => True) (init toyParams) events n ∧
      n.checkpointFlags skipNothing b = .ok skipNothing ∧ t ∈ n.pendingTx ∧
      ¬ LatePow (n.unwound skipNothing b).objects t ∧
      (n.unwound skipNothing b).objects.isKnownTransaction (txId toyParams t) = false ∧
      ((n.pushBlock skipNothing 0 b).1.pendingTx.map (txId toyParams)).count (txId toyParams t) = 2 := by
  have hrun : Run (QueueStep fun _ => True) (init toyParams)
      [(init toyParams, .pushTransaction skipNothing toyPayment), (paid, .pushBlock skipNothing 0 firstBlock),
       ((paid.pushBlock skipNothing 0 firstBlock).1, .pushTransaction skipNothing toyPayment)] paidTwice :=
    .snoc (.snoc (.snoc .nil ⟨trivial, rfl⟩) ⟨fun _ _ => trivial, rfl⟩) ⟨trivial, rfl⟩
  have hflags := checkpointFlags_of_nil skipNothing secondBlock
    (show paidTwice.checkpoints = [] by decide +kernel)
  exact ⟨_, paidTwice, secondBlock, toyPayment, hrun, hflags, by decide +kernel, by decide +kernel,
    by decide +kernel, by decide +kernel⟩

end Node

end Xgt
