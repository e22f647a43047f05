import XgtChain.Chain.HandedBlocks
import XgtChain.Chain.IdleChain
import XgtChain.Chain.Sessions

/-!
# Sessions over runs of a node

The database follows a node through every call of `push_block` and `push_transaction`.
-/

namespace Xgt

open Base Chainbase ForkDatabase List Node Objects

/-- The database and the pending session are the node's. -/
structure DbState.Holds {P : Params} (d : DbState) (n : Node P) : Prop where
  db : d.db = n.db
  pending : d.pending = n.pendingState

def DbState.Reaches {P : Params} (d : DbState) (n : Node P) : Prop :=
  ∃ l d', Walk P d l d' ∧ d'.Holds n

namespace ForkDatabase

variable {cr : Crypto} {db : ForkDatabase cr} {x h : ForkItem} {xs : List ForkItem} {size : Nat}

theorem holds_of_setMaxSize (hhead : db.head = some h) (hx : (db.setMaxSize size).Holds x) :
    db.Holds x ∧ h.num - size ≤ x.num := by
  unfold setMaxSize Holds at hx
  unfold Holds
  simp only [hhead, mem_append, mem_filter, decide_eq_true_iff, Option.mem_toList] at hx ⊢
  rcases hx with (⟨hx, hnum⟩ | ⟨hx, hnum⟩) | hx
  · exact ⟨.inl (.inl hx), hnum⟩
  · exact ⟨.inl (.inr hx), hnum⟩
  · cases hx
    exact ⟨.inr rfl, Nat.sub_le _ _⟩

theorem holds_of_remove {id : BlockId} (hx : (db.remove id).Holds x) : db.Holds x := by
  unfold remove Holds at hx
  unfold Holds
  simp only [mem_append] at hx ⊢
  exact hx.imp_left fun hx => hx.imp_left mem_of_mem_filter

theorem holds_of_setHead {y : ForkItem} (hx : (db.setHead y).Holds x) : db.Holds x ∨ x = y := by
  unfold setHead Holds at hx
  unfold Holds
  simp only [mem_append, Option.toList_some, mem_singleton] at hx ⊢
  tauto

theorem Branch.getLast?_of_prev (hxs : db.Branch xs) (hx : x ∈ xs) (hprev : db.prev x = none) :
    xs.getLast? = some x := by
  obtain ⟨l, l', rfl⟩ := append_of_mem hx
  cases l' with
  | nil => exact getLast?_concat
  | cons y l' =>
    have hlink := (isChain_cons_cons.1 (isChain_append.1 hxs).2.1).1
    rw [hprev] at hlink
    cases hlink

end ForkDatabase

namespace Node

variable {P : Params} {n n' n'' : Node P} {skip : SkipFlags} {pinned pinned' : List ForkItem}
  {b : SignedBlock} {x h : ForkItem} {r : Result Unit} {events events' : List ChainEvent}

def Leads (n n' : Node P) : Prop := ∀ d : DbState, d.Holds n → d.Reaches n'

theorem Leads.of_eq (hdb : n'.db = n.db) (hpending : n'.pendingState = n.pendingState) :
    n.Leads n' := fun d hd => ⟨[], d, .nil, hd.db.trans hdb.symm, hd.pending.trans hpending.symm⟩

theorem Leads.trans (h : n.Leads n') (h' : n'.Leads n'') : n.Leads n'' := by
  intro d hd
  obtain ⟨l, d1, hwalk, hd1⟩ := h d hd
  obtain ⟨l', d2, hwalk', hd2⟩ := h' d1 hd1
  exact ⟨l' ++ l, d2, hwalk.append hwalk', hd2⟩

theorem Leads.of_step (h : ∀ d : DbState, d.Holds n → ∃ d', DbStep P d d' ∧ d'.Holds n') :
    n.Leads n' := by
  intro d hd
  obtain ⟨d', hstep, hd'⟩ := h d hd
  exact ⟨[d'], d', .single hstep, hd'⟩

def Counted (n : Node P) (x : ForkItem) : Prop :=
  n.objects.headBlockNum ≤ xgtMaxWitnesses + 1 ∨ 0 < x.num

structure Sound (pinned : List ForkItem) (n : Node P) : Prop where
  grown : Grown n.db
  sane : n.forkDb.Sane n.Counted
  pinned : ∀ x ∈ pinned, n.Counted x
  started : n.forkDb.head = none → n.objects.headBlockNum = 0

theorem Counted.of_le (h : n.Counted x)
    (hle : n'.objects.headBlockNum ≤ n.objects.headBlockNum) : n'.Counted x :=
  h.imp_left hle.trans

theorem Sound.of_le (h : n.Sound pinned) (hgrown : Grown n'.db)
    (hle : n'.objects.headBlockNum ≤ n.objects.headBlockNum) (hprev : n'.forkDb.prev = n.forkDb.prev)
    (hheld : ∀ x, n'.forkDb.Holds x → n.forkDb.Holds x ∨ x ∈ pinned)
    (hstarted : n'.forkDb.head = none → n'.objects.headBlockNum = 0) : n'.Sound pinned where
  grown := hgrown
  sane := ⟨hprev ▸ h.sane.links, fun x hx =>
    ((hheld x hx).elim (h.sane.held x) (h.pinned x)).of_le hle⟩
  pinned x hx := (h.pinned x hx).of_le hle
  started := hstarted

theorem Sound.of_eq (h : n.Sound pinned) (hdb : n'.db = n.db) (hforkDb : n'.forkDb = n.forkDb) :
    n'.Sound pinned := by
  have hobjects : n'.objects = n.objects := congrArg UndoStack.state hdb
  refine h.of_le (hdb ▸ h.grown) (by rw [hobjects]) (by rw [hforkDb]) (fun x hx => .inl ?_) ?_
  · rwa [hforkDb] at hx
  · rw [hforkDb, hobjects]
    exact h.started

theorem Sound.pin (h : n.Sound pinned) (hpinned : ∀ x ∈ pinned', n.Counted x) : n.Sound pinned' :=
  ⟨h.grown, h.sane, hpinned, h.started⟩

theorem Sound.unpin (h : n.Sound pinned) : n.Sound [] := h.pin (by simp)

structure Moves (pinned : List ForkItem) (n : Node P) (events : List ChainEvent) (n' : Node P) : Prop where
  sound : n'.Sound pinned
  idle : n'.pendingState = none
  leads : n.Leads n'
  leadsBy : n.LeadsBy events n'
  inOrder : n.InOrder events

theorem Moves.still (hn' : n'.Sound pinned) (hidle : n'.pendingState = none) (hdb : n'.db = n.db)
    (hpending : n'.pendingState = n.pendingState) : Moves pinned n [] n' :=
  ⟨hn', hidle, .of_eq hdb hpending, hdb.symm, .nil⟩

theorem Moves.trans (h : Moves pinned n events n') (h' : Moves pinned' n' events' n'') :
    Moves pinned' n (events ++ events') n'' :=
  ⟨h'.sound, h'.idle, h.leads.trans h'.leads, h.leadsBy.trans h'.leadsBy, h.inOrder.append h.leadsBy h'.inOrder⟩

theorem Moves.unpin (h : Moves pinned n events n') : Moves [] n events n' := { h with sound := h.sound.unpin }

theorem Sound.moves_forkDb {F : ForkDatabase P.toCrypto} (h : n.Sound pinned)
    (hidle : n.pendingState = none) (hprev : F.prev = n.forkDb.prev)
    (hheld : ∀ x, F.Holds x → n.forkDb.Holds x ∨ x ∈ pinned)
    (hhead : F.head = none → n.forkDb.head = none) : Moves pinned n [] { n with forkDb := F } :=
  .still (h.of_le h.grown le_rfl hprev hheld fun hnone => h.started (hhead hnone)) hidle rfl rfl

theorem Sound.moves_setHead (h : n.Sound pinned) (hidle : n.pendingState = none)
    (hx : x ∈ pinned) : Moves pinned n [] { n with forkDb := n.forkDb.setHead x } := by
  refine h.moves_forkDb hidle rfl (fun y hy => ?_) nofun
  rcases holds_of_setHead hy with hy | rfl
  · exact .inl hy
  · exact .inr hx

/-! ## One block -/

theorem Sound.num_of_child (h : n.Sound pinned) (hx : n.Counted x)
    (hchild : x.data.previous = n.headBlockId) : x.num = n.objects.headBlockNum + 1 := by
  obtain ⟨htip, hlow⟩ := h.grown.tip
  have hnum : x.num = (n.objects.headBlockNum + 1) % 2 ^ 32 := by
    change (x.data.previous.num + 1) % 2 ^ 32 = _
    rw [hchild, objects, htip.1]
    rfl
  have hlow : n.objects.headBlockNum < 2 ^ 32 := hlow
  have hten : xgtMaxWitnesses = 10 := rfl
  rcases hx with hx | hx <;> omega

section

variable (hn : n.Sound pinned)
include hn

theorem Sound.trimmed (hpos : ∀ x ∈ pinned, 0 < x.num) (hgrown : Grown n'.db)
    (hhead : n.forkDb.head = some h) (hnum : h.num = n'.objects.headBlockNum)
    (hforkDb : n'.forkDb = (n.forkDb.setMaxSize ((n'.objects.headBlockNum + 2 ^ 32 -
      n'.objects.lib + 1) % 2 ^ 32)).setMaxSize xgtForkDbMaxSize) : n'.Sound pinned := by
  have hhead1 (size : Nat) : (n.forkDb.setMaxSize size).head = some h := by
    rw [setMaxSize_head, hhead]
  refine ⟨hgrown, ⟨?_, fun x hx => ?_⟩, fun x hx => .inr (hpos x hx), fun hnone => ?_⟩
  · rw [hforkDb, setMaxSize_prev, setMaxSize_prev]
    exact hn.sane.links
  · rw [hforkDb] at hx
    obtain ⟨hx, -⟩ := holds_of_setMaxSize (hhead1 _) hx
    obtain ⟨-, hlow⟩ := holds_of_setMaxSize hhead hx
    have hlib : n'.objects.lib =
      n'.objects.headBlockNum - xgtMaxWitnesses := hgrown.tip.1.2
    have hten : xgtMaxWitnesses = 10 := rfl
    by_cases hfew : n'.objects.headBlockNum ≤ xgtMaxWitnesses + 1
    · exact .inl hfew
    · right
      omega
  · rw [hforkDb, setMaxSize_head, hhead1] at hnone
    cases hnone

section

variable (hhead : n.forkDb.head = some h) (hchild : h.data.previous = n.headBlockId)
include hhead hchild

theorem Sound.num_of_applied {s : Objects}
    (hmigrate : ({ n.hand b with db := n.db.start.set s } : Node P).migrateIrreversibleState skip pinned =
      .ok n') : h.num = s.headBlockNum ∧ s.headBlockNum = n.objects.headBlockNum + 1 := by
  obtain ⟨blocks, hcheck, -⟩ := migrateIrreversibleState_ok hmigrate
  have hassert : fcAssert (h.num = s.headBlockNum) "Fork Head" = .ok () := by
    unfold checkForkHead at hcheck
    simp only [hand, hhead] at hcheck
    exact hcheck
  have hnum : h.num = s.headBlockNum := by simpa using hassert
  have hcounted : n.Counted h := hn.sane.held h (by simp [ForkDatabase.Holds, hhead])
  exact ⟨hnum, hnum.symm.trans (hn.num_of_child hcounted hchild)⟩

theorem applyBlock_inOrder : n.InOrder (n.applyBlockEvents skip pinned b) := by
  intro p hp
  rw [mem_singleton.1 hp]
  intro haccepted
  rcases hstep : n.applyBlock skip pinned b with ⟨n', e | u⟩
  · rw [hstep] at haccepted
    cases haccepted
  · obtain ⟨s, hs, hmigrate⟩ := applyBlock_ok hstep
    have htip : s.headBlockNum = b.blockNum := congrArg Prod.fst (applyBlock_tip hs)
    exact ⟨htip.symm.trans (hn.num_of_applied hhead hchild hmigrate).2, s, hs⟩

end

theorem applyBlock_moves (hidle : n.pendingState = none) (hpos : ∀ x ∈ pinned, 0 < x.num)
    (hhead : n.forkDb.head = some h) (hchild : h.data.previous = n.headBlockId)
    (hstep : n.applyBlock skip pinned b = (n', r)) :
    Moves pinned n (n.applyBlockEvents skip pinned b) n' := by
  have hby := applyBlock_leadsBy hstep
  have horder : n.InOrder (n.applyBlockEvents skip pinned b) := applyBlock_inOrder hn hhead hchild
  cases r with
  | error e =>
    cases applyBlock_error hstep
    exact ⟨hn.of_eq rfl rfl, hidle, .of_eq rfl rfl, hby, horder⟩
  | ok u =>
    obtain ⟨s, hs, hmigrate⟩ := applyBlock_ok hstep
    obtain ⟨hnum, hnext⟩ := hn.num_of_applied hhead hchild hmigrate
    obtain ⟨blocks, -, -, rfl⟩ := migrateIrreversibleState_ok hmigrate
    have hgrown := hn.grown.apply hs hnext
    refine ⟨hn.trimmed hpos hgrown hhead hnum rfl, hidle, .of_step fun d hd => ?_, hby, horder⟩
    obtain ⟨cs, hcs, -⟩ := applyBlock_calls hs
    rw [objects, ← hd.db] at hs hcs hnext
    refine ⟨d.apply b s cs, .applied (hd.pending.trans hidle) hs hcs hnext, ?_, hd.pending⟩
    change (d.db.start.set s).commit _ = (n.db.start.set s).commit _
    rw [hd.db]
    rfl

theorem popBlock_moves (hidle : n.pendingState = none)
    (hstep : n.popBlock pinned = (n', r)) : Moves pinned n (n.popBlockEvents pinned) n' := by
  have hby := popBlock_leadsBy hstep
  have horder := popBlock_inOrder n pinned
  rcases popBlock_cases hstep with ⟨_, -, rfl⟩ | ⟨b, p, -, -, hp, rfl⟩
  · exact ⟨hn.of_eq rfl rfl, rfl, .of_eq rfl hidle.symm, hby, horder⟩
  · refine ⟨hn.of_le hn.grown.undo hn.grown.undo_le rfl (fun y hy => ?_) nofun, rfl, ?_, hby, horder⟩
    · rcases holds_of_setHead hy with hy | rfl
      · exact .inl hy
      · exact hp
    · refine .of_step fun d hd => ⟨d.pop, .popped (hd.pending.trans hidle), ?_, ?_⟩
      · change d.db.undo = n.db.undo
        rw [hd.db]
      · exact hd.pending.trans hidle

end

theorem removeItems_moves (xs : List ForkItem) (hn : n.Sound pinned) (hidle : n.pendingState = none) :
    Moves pinned n [] (n.removeItems xs) := by
  induction xs generalizing n with
  | nil => exact .still (hn.of_eq rfl rfl) hidle rfl rfl
  | cons x xs ih =>
    have h1 : Moves pinned n [] { n with forkDb := n.forkDb.remove (x.id P.toCrypto) } :=
      hn.moves_forkDb hidle rfl (fun y hy => .inl (holds_of_remove hy)) id
    exact h1.trans (ih h1.sound h1.idle)

section Switch

variable {first second : List ForkItem} {point : BlockId} {newHead : ForkItem}

theorem Sound.pos_of_head (hn : n.Sound pinned) (hhead : n.headBlockId = point)
    (hpoint : ∀ x ∈ pinned, 0 < x.num ∨ (point.num + 1) % 2 ^ 32 = 0) : ∀ x ∈ pinned, 0 < x.num := by
  intro x hx
  rcases hpoint x hx with hpos | hlast
  · exact hpos
  · obtain ⟨htip, hlow⟩ := hn.grown.tip
    have hnum : n.objects.headBlockNum = point.num := by
      rw [objects, htip.1]
      exact congrArg BlockId.num hhead
    have hlow : n.objects.headBlockNum < 2 ^ 32 := hlow
    have hten : xgtMaxWitnesses = 10 := rfl
    rcases hn.pinned x hx with hfew | hpos
    · omega
    · exact hpos

theorem Switches.moves {reached : Bool}
    (h : Switches skip pinned point reached n events n') (hn : n.Sound pinned) (hidle : n.pendingState = none)
    (hpoint : ∀ x ∈ pinned, 0 < x.num ∨ (point.num + 1) % 2 ^ 32 = 0)
    (hpos : reached = true → ∀ x ∈ pinned, 0 < x.num) : Moves pinned n events n' := by
  induction h with
  | refl => exact .still hn hidle rfl rfl
  | pop hstep _ ih =>
    have h1 := popBlock_moves hn hidle hstep
    exact h1.trans (ih h1.sound h1.idle hpos)
  | reach hhead _ ih => exact ih hn hidle fun _ => hn.pos_of_head hhead hpoint
  | apply hx hchild hstep _ ih =>
    have h0 := hn.moves_setHead hidle hx
    have h1 := h0.trans (applyBlock_moves h0.sound h0.idle (hpos rfl) rfl hchild hstep)
    exact h1.trans (ih h1.sound h1.idle hpos)
  | @remove _ _ _ xs _ _ ih =>
    have h1 := removeItems_moves xs hn hidle
    exact h1.trans (ih h1.sound h1.idle hpos)

theorem pos_or_point {xs : List ForkItem} {x z : ForkItem} (hn : n.Sound pinned)
    (hxs : n.forkDb.Branch xs) (hlast : xs.getLast? = some z) (hx : x ∈ xs) :
    0 < x.num ∨ (z.data.previous.num + 1) % 2 ^ 32 = 0 := by
  rcases Nat.eq_zero_or_pos x.num with hzero | hpos
  · have hprev : n.forkDb.prev x = none := by
      cases hp : n.forkDb.prev x with
      | none => rfl
      | some p => exact absurd (hn.sane.links x p hp) (by omega)
    rw [hxs.getLast?_of_prev hx hprev] at hlast
    cases hlast
    exact .inr hzero
  · exact .inl hpos

theorem Sound.branches (hn : n.Sound []) (hhead : n.forkDb.head = some newHead)
    (hbranches : n.forkDb.fetchBranchFrom (newHead.id P.toCrypto) n.headBlockId = .ok (first, second)) :
    n.Sound (newHead :: first ++ second) ∧
      ∀ x ∈ newHead :: first ++ second, 0 < x.num ∨ ((branchPoint second).num + 1) % 2 ^ 32 = 0 := by
  obtain ⟨hfirst, hsecond, ⟨w, -, hw, hwhead⟩, -, hheld, ⟨x, y, hx, hy, hpoint⟩, -⟩ :=
    fetchBranchFrom_ok hbranches
  have hbranch : branchPoint second = y.data.previous := by rw [branchPoint, hy]; rfl
  have hpos1 (z : ForkItem) (hz : z ∈ first) :
      0 < z.num ∨ ((branchPoint second).num + 1) % 2 ^ 32 = 0 := by
    rw [hbranch, ← hpoint]
    exact pos_or_point hn hfirst hx hz
  refine ⟨hn.pin fun z hz => ?_, fun z hz => ?_⟩
  · rcases mem_cons.1 hz with rfl | hz
    · exact hn.sane.held z (by simp [ForkDatabase.Holds, hhead])
    · exact hn.sane.held z (hheld z hz)
  · rcases mem_cons.1 hz with rfl | hz
    · -- The first item of the new branch has the id of the new head.
      have hnum : w.num = z.num := congrArg BlockId.num hw
      rw [← hnum]
      exact hpos1 w (mem_of_head? hwhead)
    · refine (mem_append.1 hz).elim (hpos1 z) fun hz => ?_
      rw [hbranch]
      exact pos_or_point hn hsecond hy hz

end Switch

theorem Sound.pushBlock_forkDb {F : ForkDatabase P.toCrypto} {r : Result ForkItem} (hn : n.Sound [])
    (hidle : n.pendingState = none) (hpush : n.forkDb.pushBlock b = (F, r)) :
    Moves [] n [] { n with forkDb := F } := by
  have hb : (n.forkDb.head.isSome → 0 < b.blockNum) → n.Counted ⟨n.forkDb.nextSerial, b⟩ := by
    intro hpos
    cases hhead : n.forkDb.head with
    | none =>
      left
      rw [hn.started hhead]
      exact Nat.zero_le _
    | some h => exact .inr (hpos (by rw [hhead]; rfl))
  obtain ⟨hsane, hhead⟩ := pushBlock_sane hn.sane hb hpush
  refine .still ⟨hn.grown, hsane, by simp, fun hnone => hn.started ?_⟩ hidle rfl rfl
  by_contra hsome
  have hhead' : F.head.isSome := hhead (Option.isSome_iff_ne_none.2 hsome)
  rw [show F.head = none from hnone] at hhead'
  cases hhead'

theorem Pushes.moves (h : Pushes skip b n events n') (hn : n.Sound []) (hidle : n.pendingState = none)
    (hskip : skip.skipForkDb = false) : Moves [] n events n' := by
  cases h with
  | kept hpush => exact hn.pushBlock_forkDb hidle hpush
  | extended hpush hstep hF' =>
    obtain ⟨newHead, hpush, hchild⟩ := hpush hskip
    have h1 := hn.pushBlock_forkDb hidle hpush
    have h2 := applyBlock_moves h1.sound h1.idle (by simp) (pushBlock_head hpush).1 hchild hstep
    rcases hF' with rfl | rfl
    · exact h1.trans h2
    · exact h1.trans (h2.trans (h2.sound.moves_forkDb h2.idle rfl (fun y hy => .inl (holds_of_remove hy)) id))
  | switched hpush hbranches hswitch =>
    have h1 := hn.pushBlock_forkDb hidle hpush
    obtain ⟨hsound, hpoint⟩ := h1.sound.branches (pushBlock_head hpush).1 hbranches
    exact h1.trans (hswitch.moves hsound h1.idle hpoint nofun).unpin

/-! ## The pending transactions -/

def Idles (n n' : Node P) : Prop := ∀ d : DbState, d.Holds n →
  ∃ l d', Walk P d l d' ∧ d'.Holds n' ∧ d'.applied = d.applied ∧ d'.committed = d.committed

theorem Idles.leads (h : n.Idles n') : n.Leads n' := by
  intro d hd
  obtain ⟨l, d', hwalk, hd', -⟩ := h d hd
  exact ⟨l, d', hwalk, hd'⟩

theorem Idles.of_eq (hdb : n'.db = n.db) (hpending : n'.pendingState = n.pendingState) : n.Idles n' :=
  fun d hd => ⟨[], d, .nil, ⟨hd.db.trans hdb.symm, hd.pending.trans hpending.symm⟩, rfl, rfl⟩

theorem Idles.trans (h : n.Idles n') (h' : n'.Idles n'') : n.Idles n'' := by
  intro d hd
  obtain ⟨l, d1, hwalk, hd1, happlied, hcommitted⟩ := h d hd
  obtain ⟨l', d2, hwalk', hd2, happlied', hcommitted'⟩ := h' d1 hd1
  exact ⟨l' ++ l, d2, hwalk.append hwalk', hd2, happlied'.trans happlied, hcommitted'.trans hcommitted⟩

theorem Idles.of_step (h : ∀ d : DbState, d.Holds n → ∃ d', DbStep P d d' ∧ d'.Holds n' ∧
    d'.applied = d.applied ∧ d'.committed = d.committed) : n.Idles n' := by
  intro d hd
  obtain ⟨d', hstep, hd'⟩ := h d hd
  exact ⟨[d'], d', .single hstep, hd'⟩

theorem clearPending_idles (n : Node P) : n.Idles n.clearPending := by
  cases hpending : n.pendingState with
  | none => exact .of_eq rfl hpending.symm
  | some s =>
    exact .of_step fun d hd => ⟨_, .closed (hd.pending.trans hpending), ⟨hd.db, rfl⟩, rfl, rfl⟩

theorem clearPending_moves (hn : n.Sound []) : Moves [] n [] n.clearPending :=
  ⟨hn.of_eq rfl rfl, rfl, n.clearPending_idles.leads, rfl, .nil⟩

theorem opened_idles (n : Node P) : n.Idles { n with pendingState := some n.pendingObjects } := by
  cases hpending : n.pendingState with
  | some s => exact .of_eq rfl (by rw [pendingObjects, hpending]; rfl)
  | none =>
    refine .of_step fun d hd => ⟨_, .opened (hd.pending.trans hpending), ⟨hd.db, ?_⟩, rfl, rfl⟩
    change some d.db.state = some n.pendingObjects
    rw [pendingObjects, hpending, hd.db]
    rfl

theorem pushTransactionCore_idles (n : Node P) (skip : SkipFlags) (pending : Bool)
    (t : SignedTransaction) : n.Idles (n.pushTransactionCore skip pending t).1 := by
  refine (opened_idles n).trans ?_
  unfold pushTransactionCore
  dsimp only
  split
  · exact .of_eq rfl rfl
  · next s hs =>
    obtain ⟨cs, hcs, -⟩ := applyTransaction_calls hs
    exact .of_step fun d hd => ⟨_, .pushed hd.pending hcs, ⟨hd.db, rfl⟩, rfl, rfl⟩

theorem restoreTransaction_idles (skip : SkipFlags) (r : Node P × Nat) (t : SignedTransaction) :
    r.1.Idles (restoreTransaction skip r t).1 := by
  unfold restoreTransaction
  split_ifs
  · exact .of_eq rfl rfl
  · split
    · exact .of_eq rfl rfl
    · exact pushTransactionCore_idles _ _ _ _

theorem restorePending_idles (n : Node P) (skip : SkipFlags) (budget : Nat)
    (pending : List SignedTransaction) : n.Idles (n.restorePending skip budget pending) := by
  have hfold (txs : List SignedTransaction) (r : Node P × Nat) :
      r.1.Idles (txs.foldl (restoreTransaction skip) r).1 := by
    induction txs generalizing r with
    | nil => exact .of_eq rfl rfl
    | cons t txs ih => exact (restoreTransaction_idles skip r t).trans (ih _)
  let r := n.poppedTx.foldl (restoreTransaction skip) (n, budget)
  have hpopped : n.Idles r.1 := hfold n.poppedTx (n, budget)
  have hemptied : r.1.Idles { r.1 with poppedTx := [] } := .of_eq rfl rfl
  exact (hpopped.trans hemptied).trans (hfold pending ({ r.1 with poppedTx := [] }, r.2))

theorem pushTransaction_idles (n : Node P) (skip : SkipFlags) (t : SignedTransaction) :
    n.Idles (n.pushTransaction skip t).1 := by
  unfold pushTransaction
  split_ifs
  · exact pushTransactionCore_idles _ _ _ _
  · exact .of_eq rfl rfl

theorem Sound.of_chain (h : n.Sound pinned) (hchain : n'.chain = n.chain) : n'.Sound pinned :=
  h.of_eq (congrArg Prod.fst hchain) (congrArg (fun c => c.2.1) hchain)

theorem pushBlock_leads (hn : n.Sound []) (hskip : skip.skipForkDb = false) (budget : Nat)
    (b : SignedBlock) : (n.pushBlock skip budget b).1.Sound [] ∧ n.Leads (n.pushBlock skip budget b).1 ∧
      n.InOrder (n.pushBlockEvents skip b) := by
  unfold pushBlock pushBlockEvents
  rcases hflags : n.checkpointFlags skip b with e | skip'
  · exact ⟨hn, .of_eq rfl rfl, .nil⟩
  · have h0 := clearPending_moves hn
    have h1 := h0.trans ((n.clearPending.pushBlockCore_pushes skip' b).moves h0.sound h0.idle
      (checkpointFlags_skipForkDb hflags hskip))
    exact ⟨h1.sound.of_chain restorePending_chain,
      h1.leads.trans (restorePending_idles _ _ _ _).leads, h1.inOrder⟩

theorem pushTransaction_leads (hn : n.Sound []) (skip : SkipFlags) (t : SignedTransaction) :
    (n.pushTransaction skip t).1.Sound [] ∧ n.Leads (n.pushTransaction skip t).1 := by
  refine ⟨?_, (n.pushTransaction_idles skip t).leads⟩
  unfold pushTransaction
  split_ifs
  · exact hn.of_chain pushTransactionCore_chain
  · exact hn

theorem Sound.init (P : Params) (checkpoints : List (Nat × BlockId)) :
    ({ init P with checkpoints := checkpoints } : Node P).Sound [] where
  grown := .init _
  sane := ⟨nofun, fun x hx => by simp [ForkDatabase.Holds, Node.init] at hx⟩
  pinned := nofun
  started _ := rfl

end Node

/-! ## Runs -/

/-- A node's pushes, with the states its sessions go through. -/
inductive SessionRun (P : Params) : Node P → List DbState → DbState → Prop where
  | init (checkpoints : List (Nat × BlockId)) :
      SessionRun P { Node.init P with checkpoints := checkpoints } [] (.init P)
  | pushBlock {n : Node P} {l l' : List DbState} {d d' : DbState} {skip : SkipFlags} {budget : Nat}
      {b : SignedBlock} (h : SessionRun P n l d) (hskip : skip.skipForkDb = false)
      (hwalk : Walk P d l' d') (hd' : d'.Holds (n.pushBlock skip budget b).1) :
      SessionRun P (n.pushBlock skip budget b).1 (l' ++ l) d'
  | pushTransaction {n : Node P} {l l' : List DbState} {d d' : DbState} {skip : SkipFlags}
      {t : SignedTransaction} (h : SessionRun P n l d) (hwalk : Walk P d l' d')
      (hd' : d'.Holds (n.pushTransaction skip t).1) :
      SessionRun P (n.pushTransaction skip t).1 (l' ++ l) d'

namespace SessionRun

variable {P : Params} {n : Node P} {states : List DbState} {d : DbState}

section

variable (h : SessionRun P n states d)
include h

theorem walk : Walk P (.init P) states d := by
  induction h with
  | init => exact .nil
  | pushBlock _ _ hwalk _ ih | pushTransaction _ hwalk _ ih => exact ih.append hwalk

theorem valid : d.Valid := h.walk.valid (.init P)

theorem holds : d.Holds n := by
  cases h with
  | init => exact ⟨rfl, rfl⟩
  | pushBlock _ _ _ hd' | pushTransaction _ _ hd' => exact hd'

theorem sound : n.Sound [] := by
  induction h with
  | init checkpoints => exact .init P checkpoints
  | pushBlock _ hskip _ _ ih => exact (pushBlock_leads ih hskip _ _).1
  | pushTransaction _ _ _ ih => exact (pushTransaction_leads ih _ _).1

/-- Every further push is again a walk of the sessions. -/
structure Continues (n : Node P) (d : DbState) : Prop where
  pushBlock : ∀ (skip : SkipFlags) (budget : Nat) (b : SignedBlock), skip.skipForkDb = false →
    d.Reaches (n.pushBlock skip budget b).1
  pushTransaction : ∀ (skip : SkipFlags) (t : SignedTransaction),
    d.Reaches (n.pushTransaction skip t).1

theorem continues : Continues n d where
  pushBlock _ budget b hskip := (pushBlock_leads h.sound hskip budget b).2.1 d h.holds
  pushTransaction skip t := (pushTransaction_leads h.sound skip t).2 d h.holds

end

theorem sessions_inStep (h : SessionRun P n states d) : d.Holds n ∧ Continues n d ∧ d.InStep :=
  ⟨h.holds, h.continues, h.valid.inStep⟩

theorem irreversible (h : SessionRun P n states d) :
    d.Holds n ∧ Continues n d ∧
      ∀ (later : List DbState) (d1 : DbState) (earlier : List DbState) (b : SignedBlock),
        states = later ++ d1 :: earlier → b ∈ d1.applied →
        b.blockNum ≤ d1.lastIrreversibleBlockNum → ∀ d2 ∈ later,
          b ∈ d2.applied ∧ (∀ c ∈ d2.applied, c.blockNum = b.blockNum → c = b) ∧
          b.blockNum ≤ d2.headBlockNum := by
  refine ⟨h.holds, h.continues, ?_⟩
  rintro later d1 earlier b rfl hb hle d2 hd2
  obtain ⟨hbefore, hafter⟩ := h.walk.split
  obtain ⟨later1, later2, rfl⟩ := append_of_mem hd2
  obtain ⟨hto, -⟩ := hafter.split
  have hvalid1 := hbefore.valid (.init P)
  have hvalid2 := hto.valid hvalid1
  have hsettled := hto.settled hvalid1 (hvalid1.settled hb hle)
  exact ⟨hsettled.applied, fun c hc hnum => hvalid2.eq_of_blockNum_eq hsettled.applied hc hnum,
    hvalid2.blockNum_le hsettled.applied⟩

theorem pushBlocks (h : SessionRun P n states d) (blocks : List SignedBlock) :
    ∃ states' d', SessionRun P (n.pushBlocks blocks) states' d' := by
  induction blocks generalizing n states d with
  | nil => exact ⟨states, d, h⟩
  | cons b blocks ih =>
    obtain ⟨l', d', hwalk, hd'⟩ := h.continues.pushBlock skipNothing 0 b rfl
    exact ih (h.pushBlock rfl hwalk hd')

end SessionRun

/-- The first block is popped for a fork of two blocks. -/
theorem inStep_switched : ∃ (n : Node toyParams) (states : List DbState) (d : DbState),
    SessionRun toyParams n states d ∧ n.handed.length = 3 ∧ d.headBlockNum = 2 ∧ d.InStep := by
  let left := toyBlock .zero 1
  let right := toyBlock .zero 2
  let tip := toyBlock (toyId right) 3
  obtain ⟨states, d, hrun⟩ := (SessionRun.init (P := toyParams) []).pushBlocks [left, right, tip]
  obtain ⟨hholds, -, hstep⟩ := hrun.sessions_inStep
  refine ⟨_, states, d, hrun, by decide +kernel, ?_, hstep⟩
  rw [DbState.headBlockNum, hholds.db]
  decide +kernel

theorem idleNode_sessionRun {k : Nat} (hk : k < 2 ^ 32) :
    ∃ (n : Node toyParams) (states : List DbState) (d : DbState),
      SessionRun toyParams n states d ∧ n.Linear ∧ n.objects = idleState k := by
  induction k with
  | zero => exact ⟨_, _, _, .init [], linear_init _, rfl⟩
  | succ k ih =>
    obtain ⟨n, states, d, hrun, hlinear, hobjects⟩ := ih (by omega)
    obtain ⟨-, hlinear', hdb⟩ := idleNode_push hk hlinear hobjects
    obtain ⟨l', d', hwalk, hd'⟩ := hrun.continues.pushBlock skipNothing 0 (idleBlock (k + 1)) rfl
    refine ⟨_, _, d', hrun.pushBlock rfl hwalk hd', hlinear', ?_⟩
    rw [objects, hdb]
    rfl

theorem DbState.Holds.headBlockNum {k : Nat} {n : Node toyParams} {d : DbState} (h : d.Holds n)
    (hobjects : n.objects = idleState k) : d.headBlockNum = k := by
  rw [DbState.headBlockNum, h.db]
  exact congrArg Objects.headBlockNum hobjects

theorem irreversible_idle : ∃ (n : Node toyParams) (later : List DbState) (d1 : DbState)
    (earlier : List DbState) (d2 : DbState) (b : SignedBlock),
    SessionRun toyParams n (later ++ d1 :: earlier) d2 ∧ d2 ∈ later ∧ b ∈ d1.applied ∧
      b.blockNum = 1 ∧ d1.lastIrreversibleBlockNum = 1 ∧ b ∈ d2.applied := by
  obtain ⟨n, states, d1, hrun, hlinear, hobjects⟩ := idleNode_sessionRun (k := 11) (by decide)
  have hhead1 := hrun.holds.headBlockNum hobjects
  have hlib1 : d1.lastIrreversibleBlockNum = 1 := by
    rw [DbState.lastIrreversibleBlockNum, hrun.holds.db]
    exact congrArg (fun s : Objects => s.lib) hobjects
  obtain ⟨-, -, hdb⟩ := idleNode_push (k := 11) (by decide) hlinear hobjects
  obtain ⟨l, d2, hwalk, hd2⟩ := hrun.continues.pushBlock skipNothing 0 (idleBlock 12) rfl
  have hhead2 : d2.headBlockNum = 12 := hd2.headBlockNum (by rw [objects, hdb]; rfl)
  obtain ⟨earlier, rfl⟩ := hrun.walk.eq_cons (by rw [hhead1]; exact Nat.succ_ne_zero _)
  obtain ⟨later, rfl⟩ := hwalk.eq_cons (by rw [hhead1, hhead2]; decide)
  obtain ⟨b, hb, hnum⟩ := hrun.valid.mem_numbers.2 ⟨le_rfl, (by omega : 1 ≤ d1.headBlockNum)⟩
  have hrun2 := hrun.pushBlock rfl hwalk hd2
  obtain ⟨-, -, hstays⟩ := hrun2.irreversible
  exact ⟨_, _, d1, earlier, d2, b, hrun2, .head _, hb, hnum, hlib1,
    (hstays _ d1 earlier b rfl hb (by omega) d2 (.head _)).1⟩

def straySkip : SkipFlags := { skipForkDb := true, skipBlockLog := true }

def strayBlock (num seconds : Nat) : SignedBlock :=
  toyBlock ⟨num - 1, 5⟩ seconds

theorem Node.pushBlock_past {P : Params} {n n' : Node P} {skip : SkipFlags} {b : SignedBlock} {u : Unit}
    (budget : Nat) (hskip : skip.skipForkDb = true) (hcheckpoints : n.checkpoints = [])
    (hblock : n.clearPending.applyBlock skip [] b = (n', .ok u)) :
    (n.pushBlock skip budget b).2 = .ok false ∧ (n.pushBlock skip budget b).1.db = n'.db := by
  have hflags := checkpointFlags_of_nil skip b hcheckpoints
  have hcore : n.clearPending.pushBlockCore skip b = (n', .ok false) := by
    rw [pushBlockCore, if_pos hskip, extend, hblock]
  unfold pushBlock
  simp only [hflags, hcore, true_and]
  exact congrArg Prod.fst (restorePending_chain (n := n'))

theorem strayBlock_out_of_step : ∃ (s : Objects) (cs : List Call),
    let b := strayBlock 7 3
    let r := (init toyParams).pushBlock straySkip 0 b
    let d := (DbState.init toyParams).apply b s cs
    Trace (genesis toyParams.initPublicKey) cs s ∧ r.2 = .ok false ∧ r.1.db = d.db ∧
      d.headBlockNum = 7 ∧ ∀ t, (d.indexes t).revision = 1 := by
  let b := strayBlock 7 3
  have hrun : ((genesis ⟨1⟩).applyBlock toyParams ((init toyParams).clearPending.env straySkip false)
      b).toOption.any (fun _ => true) = true := by decide +kernel
  obtain ⟨s, hs, -⟩ := exists_ok_of_any hrun
  obtain ⟨cs, hcs, -⟩ := applyBlock_calls hs
  obtain ⟨hok, hdb⟩ := pushBlock_past 0 rfl rfl (applyBlock_of_ok hs rfl)
  refine ⟨s, cs, hcs, hok, hdb, ?_, fun t => ?_⟩
  · exact congrArg Prod.fst (applyBlock_tip hs)
  · exact (((mirrors_session (mirrors_genesis _) hcs).commit _).refines t).revision

theorem strayBlock_replaces :
    let b1 := strayBlock 2 3
    let r1 := (init toyParams).pushBlock straySkip 0 b1
    let r2 := r1.1.pushBlock straySkip 0 (strayBlock 12 4)
    let r3 := r2.1.pushBlock straySkip 0 (strayBlock 2 5)
    r1.2 = .ok false ∧ r1.1.headBlockId = toyId b1 ∧ b1.blockNum = 2 ∧
      r2.2 = .ok false ∧ r2.1.objects.lib = 2 ∧
      r3.2 = .ok false ∧ r3.1.objects.headBlockNum = 2 ∧ r3.1.headBlockId ≠ toyId b1 := by
  decide +kernel

end Xgt
