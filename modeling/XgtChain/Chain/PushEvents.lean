import XgtChain.Base.Run
import XgtChain.Chain.PushBlock

/-!
# The events of `push_block`

A call of `push_block` applies blocks and pops blocks. Handlers of the chain's signals run in the middle of an
application, and what they do outside of the objects stays when the application is taken back.
-/

namespace Xgt

open Base List ForkDatabase

inductive ChainEvent where
  | apply (env : Env) (b : SignedBlock) (accepted : Bool)
  | pop

namespace Node

variable {P : Params} (n : Node P) (skip : SkipFlags) (pinned : List ForkItem) (b : SignedBlock)

def applyBlockEvents : List ChainEvent :=
  [.apply (n.env skip false) b (n.applyBlock skip pinned b).2.isOk]

def popBlockEvents : List ChainEvent :=
  if (n.popBlock pinned).2.isOk then [.pop] else []

def popUntilEvents (pinned : List ForkItem) (id : BlockId) : Nat → Node P → List ChainEvent
  | 0, _ => []
  | fuel + 1, n =>
    if n.headBlockId = id then []
    else n.popBlockEvents pinned ++ match n.popBlock pinned with
      | (_, .error _) => []
      | (n, .ok _) => popUntilEvents pinned id fuel n

def applyBranchEvents (skip : SkipFlags) (pinned : List ForkItem) :
    List ForkItem → Node P → List ChainEvent
  | [], _ => []
  | x :: xs, n =>
    { n with forkDb := n.forkDb.setHead x }.applyBlockEvents skip pinned x.data ++
      match { n with forkDb := n.forkDb.setHead x }.applyBlock skip pinned x.data with
      | (n, .ok _) => applyBranchEvents skip pinned xs n
      | (_, .error _) => []

def restoreBranchEvents (pinned second : List ForkItem) (point : BlockId) : List ChainEvent :=
  popUntilEvents pinned point n.popFuel n ++ match popUntil pinned point n.popFuel n with
    | (_, .error _) => []
    | (n, .ok _) => applyBranchEvents skip pinned second.reverse n

def switchBranchEvents (pinned first second : List ForkItem) (point : BlockId) : List ChainEvent :=
  popUntilEvents pinned point n.popFuel n ++ match popUntil pinned point n.popFuel n with
    | (_, .error _) => []
    | (n, .ok _) =>
      applyBranchEvents skip pinned first.reverse n ++ match applyBranch skip pinned first.reverse n with
        | (_, none) => []
        | (n, some (_, rest)) => (n.removeItems rest).restoreBranchEvents skip pinned second point

def switchForksEvents (newHead : ForkItem) : List ChainEvent :=
  match n.forkDb.fetchBranchFrom (newHead.id P.toCrypto) n.headBlockId with
  | .error _ => []
  | .ok (first, second) =>
    n.switchBranchEvents skip (newHead :: first ++ second) first second (branchPoint second)

def pushBlockCoreEvents : List ChainEvent :=
  if skip.skipForkDb then n.applyBlockEvents skip [] b
  else match n.forkDb.pushBlock b with
    | (_, .error _) => []
    | (forkDb, .ok newHead) =>
      let n := { n with forkDb := forkDb }
      if newHead.data.previous = n.headBlockId then n.applyBlockEvents skip [] b
      else if n.objects.headBlockNum < newHead.num then n.switchForksEvents skip newHead
      else []

def pushBlockEvents : List ChainEvent :=
  match n.checkpointFlags skip b with
  | .error _ => []
  | .ok skip => n.clearPending.pushBlockCoreEvents skip b

/-! ## The steps of a fork switch -/

inductive Switches (skip : SkipFlags) (pinned : List ForkItem) (point : BlockId) :
    Bool → Node P → List ChainEvent → Node P → Prop where
  | refl {reached : Bool} {n : Node P} : Switches skip pinned point reached n [] n
  | pop {reached : Bool} {n m n' : Node P} {r : Result Unit} {events : List ChainEvent}
      (hstep : n.popBlock pinned = (m, r)) (rest : Switches skip pinned point reached m events n') :
      Switches skip pinned point reached n (n.popBlockEvents pinned ++ events) n'
  | reach {n n' : Node P} {events : List ChainEvent} (hpoint : n.headBlockId = point)
      (rest : Switches skip pinned point true n events n') : Switches skip pinned point false n events n'
  | apply {n m n' : Node P} {x : ForkItem} {r : Result Unit} {events : List ChainEvent} (hx : x ∈ pinned)
      (hchild : x.data.previous = n.headBlockId)
      (hstep : { n with forkDb := n.forkDb.setHead x }.applyBlock skip pinned x.data = (m, r))
      (rest : Switches skip pinned point true m events n') :
      Switches skip pinned point true n
        ({ n with forkDb := n.forkDb.setHead x }.applyBlockEvents skip pinned x.data ++ events) n'
  | remove {reached : Bool} {n n' : Node P} {xs : List ForkItem} {events : List ChainEvent}
      (rest : Switches skip pinned point reached (n.removeItems xs) events n') :
      Switches skip pinned point reached n events n'

variable {n} {n' : Node P} {skip} {pinned} {first second : List ForkItem} {point : BlockId}
  {reached : Bool} {events : List ChainEvent}

theorem popUntil_switches {id : BlockId} {fuel : Nat}
    (hrest : Switches skip pinned point reached (popUntil pinned id fuel n).1 events n') :
    Switches skip pinned point reached n (popUntilEvents pinned id fuel n ++ events) n' := by
  induction fuel generalizing n with
  | zero => exact hrest
  | succ fuel ih =>
    unfold popUntilEvents
    unfold popUntil at hrest
    split_ifs at hrest ⊢
    · exact hrest
    · rw [append_assoc]
      rcases hpop : n.popBlock pinned with ⟨m, e | u⟩ <;> rw [hpop] at hrest
      · exact .pop hpop hrest
      · exact .pop hpop (ih hrest)

theorem applyBranch_switches {xs : List ForkItem} (hxs : BuildsOn P.toCrypto n.headBlockId xs)
    (hpinned : ∀ x ∈ xs, x ∈ pinned)
    (hrest : Switches skip pinned point true (applyBranch skip pinned xs n).1 events n') :
    Switches skip pinned point true n (applyBranchEvents skip pinned xs n ++ events) n' := by
  induction xs generalizing n with
  | nil => exact hrest
  | cons x xs ih =>
    unfold applyBranchEvents
    unfold applyBranch at hrest
    rw [append_assoc]
    have hx := hpinned x (.head _)
    rcases hblock : ({ n with forkDb := n.forkDb.setHead x } : Node P).applyBlock skip pinned x.data with
      ⟨m, e | u⟩ <;> rw [hblock] at hrest
    · exact .apply hx hxs.1 hblock hrest
    · refine .apply hx hxs.1 hblock (ih ?_ (fun y hy => hpinned y (.tail _ hy)) hrest)
      rw [applyBlock_headBlockId hblock]
      exact hxs.2

theorem restoreBranch_switches (e : Exc) (hsecond : BuildsOn P.toCrypto point second.reverse)
    (hpinned : ∀ x ∈ second, x ∈ pinned) :
    Switches skip pinned point true n (n.restoreBranchEvents skip pinned second point)
      (n.restoreBranch skip pinned second point e).1 := by
  unfold restoreBranchEvents restoreBranch
  refine popUntil_switches ?_
  rcases hpop : popUntil pinned point n.popFuel n with ⟨m, e | u⟩
  · exact .refl
  · rw [← popUntil_headBlockId hpop] at hsecond
    dsimp only
    rw [← append_nil (applyBranchEvents ..)]
    refine applyBranch_switches hsecond (fun x hx => hpinned x (mem_reverse.1 hx)) ?_
    rcases applyBranch skip pinned second.reverse m with ⟨m', _ | _⟩ <;> exact .refl

theorem switchBranch_switches (hfirst : BuildsOn P.toCrypto point first.reverse)
    (hsecond : BuildsOn P.toCrypto point second.reverse) (hpinned1 : ∀ x ∈ first, x ∈ pinned)
    (hpinned2 : ∀ x ∈ second, x ∈ pinned) :
    Switches skip pinned point false n (n.switchBranchEvents skip pinned first second point)
      (n.switchBranch skip pinned first second point).1 := by
  unfold switchBranchEvents switchBranch
  refine popUntil_switches ?_
  rcases hpop : popUntil pinned point n.popFuel n with ⟨m, e | u⟩
  · exact .refl
  · have hhead := popUntil_headBlockId hpop
    rw [← hhead] at hfirst
    refine .reach hhead (applyBranch_switches hfirst (fun x hx => hpinned1 x (mem_reverse.1 hx)) ?_)
    dsimp only
    rcases applyBranch skip pinned first.reverse m with ⟨m', _ | ⟨e, rest⟩⟩
    · exact .refl
    · exact @Switches.remove _ _ _ _ _ _ _ rest _ (restoreBranch_switches e hsecond hpinned2)

theorem fetchBranchFrom_buildsOn {F : ForkDatabase P.toCrypto} {id id' : BlockId}
    (h : F.fetchBranchFrom id id' = .ok (first, second)) :
    BuildsOn P.toCrypto (branchPoint second) first.reverse ∧
      BuildsOn P.toCrypto (branchPoint second) second.reverse := by
  obtain ⟨hfirst, hsecond, -, -, -, ⟨x, y, hx, hy, hpoint⟩, -⟩ := fetchBranchFrom_ok h
  have hbranch : branchPoint second = y.data.previous := by rw [branchPoint, hy]; rfl
  rw [hbranch]
  exact ⟨hpoint ▸ hfirst.buildsOn hx, hsecond.buildsOn hy⟩

/-- What `_push_block` does to a node: the block is only kept, it is applied on the head, or the node
switches to the branch of the fork database's new head. -/
inductive Pushes (skip : SkipFlags) (b : SignedBlock) (n : Node P) : List ChainEvent → Node P → Prop where
  | kept {F : ForkDatabase P.toCrypto} {r : Result ForkItem} (hpush : n.forkDb.pushBlock b = (F, r)) :
      Pushes skip b n [] { n with forkDb := F }
  | extended {F F' : ForkDatabase P.toCrypto} {m : Node P} {r : Result Unit}
      (hpush : skip.skipForkDb = false → ∃ newHead, n.forkDb.pushBlock b = (F, .ok newHead) ∧
        newHead.data.previous = n.headBlockId)
      (hstep : { n with forkDb := F }.applyBlock skip [] b = (m, r))
      (hF' : F' = m.forkDb ∨ F' = m.forkDb.remove (P.blockId b.toSignedBlockHeader)) :
      Pushes skip b n ({ n with forkDb := F }.applyBlockEvents skip [] b) { m with forkDb := F' }
  | switched {F : ForkDatabase P.toCrypto} {newHead : ForkItem} {first second : List ForkItem}
      {events : List ChainEvent} {n' : Node P} (hpush : n.forkDb.pushBlock b = (F, .ok newHead))
      (hbranches : F.fetchBranchFrom (newHead.id P.toCrypto) n.headBlockId = .ok (first, second))
      (hswitch : Switches skip (newHead :: first ++ second) (branchPoint second) false { n with forkDb := F }
        events n') : Pushes skip b n events n'

theorem pushBlockCore_pushes (n : Node P) (skip : SkipFlags) (b : SignedBlock) :
    Pushes skip b n (n.pushBlockCoreEvents skip b) (n.pushBlockCore skip b).1 := by
  have hextend (F : ForkDatabase P.toCrypto) (hpush : skip.skipForkDb = false →
      ∃ newHead, n.forkDb.pushBlock b = (F, .ok newHead) ∧ newHead.data.previous = n.headBlockId) :
      Pushes skip b n ({ n with forkDb := F }.applyBlockEvents skip [] b)
        ({ n with forkDb := F }.extend skip b).1 := by
    unfold extend
    rcases hstep : ({ n with forkDb := F } : Node P).applyBlock skip [] b with ⟨m, e | u⟩
    · exact .extended hpush hstep (.inr rfl)
    · exact .extended hpush hstep (.inl rfl)
  unfold pushBlockCoreEvents pushBlockCore
  split_ifs with hskip
  · exact hextend n.forkDb (by simp [hskip])
  · rcases hpush : n.forkDb.pushBlock b with ⟨F, e | newHead⟩
    · exact .kept hpush
    · dsimp only
      split_ifs with hchild
      · exact hextend F fun _ => ⟨newHead, hpush, hchild⟩
      · unfold switchForksEvents switchForks
        dsimp only
        rcases hbranches : F.fetchBranchFrom (newHead.id P.toCrypto) _ with e | ⟨first, second⟩
        · exact .kept hpush
        · obtain ⟨hfirst, hsecond⟩ := fetchBranchFrom_buildsOn hbranches
          exact .switched hpush hbranches (switchBranch_switches hfirst hsecond
            (fun z hz => .tail _ (mem_append_left _ hz))
            (fun z hz => .tail _ (mem_append_right _ hz)))
      · exact .kept hpush

end Node

def chainStep (P : Params) (u : UndoStack Objects) : ChainEvent → UndoStack Objects
  | .apply env b true =>
    match u.state.applyBlock P env b with
    | .ok s => (u.start.set s).commit s.lib
    | .error _ => u
  | .apply _ _ false => u
  | .pop => u.undo

/-- An accepted block has the number after the head's. -/
def ChainEvent.IsNext (P : Params) (u : UndoStack Objects) : ChainEvent → Prop
  | .apply env b accepted => accepted = true →
    b.blockNum = u.state.headBlockNum + 1 ∧ ∃ s, u.state.applyBlock P env b = .ok s
  | .pop => True

namespace Node

variable {P : Params} {n n' n'' : Node P} {skip : SkipFlags} {pinned : List ForkItem}
  {events events' : List ChainEvent} {r : Result Unit} {b : SignedBlock}

/-- The events take the objects of `n` to those of `n'`. -/
def LeadsBy (n : Node P) (events : List ChainEvent) (n' : Node P) : Prop :=
  events.foldl (chainStep P) n.db = n'.db

theorem LeadsBy.trans (h : n.LeadsBy events n') (h' : n'.LeadsBy events' n'') :
    n.LeadsBy (events ++ events') n'' := by
  unfold LeadsBy at *
  rw [foldl_append, h, h']

theorem applyBlock_leadsBy (hstep : n.applyBlock skip pinned b = (n', r)) :
    n.LeadsBy (n.applyBlockEvents skip pinned b) n' := by
  unfold LeadsBy applyBlockEvents
  rw [hstep]
  cases r with
  | error e =>
    rw [applyBlock_error hstep]
    rfl
  | ok u =>
    obtain ⟨s, hs, hmigrate⟩ := applyBlock_ok hstep
    obtain ⟨blocks, -, -, rfl⟩ := migrateIrreversibleState_ok hmigrate
    have hs : n.db.state.applyBlock P (n.env skip false) b = .ok s := hs
    change chainStep P n.db (.apply _ _ true) = _
    simp only [chainStep, hs]
    rfl

theorem popBlock_leadsBy (hstep : n.popBlock pinned = (n', r)) : n.LeadsBy (n.popBlockEvents pinned) n' := by
  unfold LeadsBy popBlockEvents
  rw [hstep]
  rcases popBlock_cases hstep with ⟨_, rfl, rfl⟩ | ⟨_, _, rfl, -, -, rfl⟩ <;> rfl

theorem Switches.leadsBy {point : BlockId} {reached : Bool}
    (h : Switches skip pinned point reached n events n') :
    n.LeadsBy events n' := by
  induction h with
  | refl => exact rfl
  | pop hstep _ ih => exact (popBlock_leadsBy hstep).trans ih
  | reach _ _ ih | remove _ ih => exact ih
  | apply _ _ hstep _ ih =>
    have happly : LeadsBy _ _ _ := applyBlock_leadsBy hstep
    exact happly.trans ih

theorem Pushes.leadsBy (h : Pushes skip b n events n') : n.LeadsBy events n' := by
  cases h with
  | kept => exact rfl
  | extended _ hstep => exact (applyBlock_leadsBy hstep :)
  | switched _ _ hswitch => exact (hswitch.leadsBy :)

theorem pushBlock_leadsBy (n : Node P) (skip : SkipFlags) (budget : Nat) (b : SignedBlock) :
    n.LeadsBy (n.pushBlockEvents skip b) (n.pushBlock skip budget b).1 := by
  unfold pushBlockEvents pushBlock
  rcases n.checkpointFlags skip b with e | skip'
  · exact rfl
  · have hcore : n.LeadsBy _ _ := (n.clearPending.pushBlockCore_pushes skip' b).leadsBy
    exact (Eq.trans hcore (congrArg Prod.fst restorePending_chain).symm :)

def InOrder (n : Node P) (events : List ChainEvent) : Prop :=
  ∀ p ∈ Run.states (chainStep P) n.db events, p.2.IsNext P p.1

theorem InOrder.nil : n.InOrder [] := fun _ hp => absurd hp not_mem_nil

theorem InOrder.append (h : n.InOrder events) (hleads : n.LeadsBy events n') (h' : n'.InOrder events') :
    n.InOrder (events ++ events') := by
  intro p hp
  rw [Run.states_append, hleads] at hp
  exact (mem_append.1 hp).elim (h p) (h' p)

theorem popBlock_inOrder (n : Node P) (pinned : List ForkItem) : n.InOrder (n.popBlockEvents pinned) := by
  unfold popBlockEvents
  split_ifs
  · intro p hp
    rw [mem_singleton.1 hp]
    trivial
  · exact .nil

end Node

end Xgt
