import Mathlib.Data.Nat.Pairing
import XgtChain.Chain.EnvReads
import XgtChain.Chain.HandedBlocks
import XgtChain.Chain.LinearChain

/-!
# Failed pushes

A push that fails is unwound, in every run of pushes that can be unwound (`Unwindable`).
-/

namespace Xgt

open Base Relation List ForkDatabase UndoStack

namespace Node

variable {P : Params} {n n' : Node P} {skip : SkipFlags} {newHead : ForkItem}
  {first second : List ForkItem}

/-! ## The fork switch -/

structure Switchable (n : Node P) (skip : SkipFlags) (newHead : ForkItem)
    (first second : List ForkItem) : Prop where
  tip : first.head? = some newHead
  next : newHead.num = n.objects.headBlockNum + 1
  replays : Replays P (Sees P n.blockLog skip) second n.objects n.db.saved

def level (n : Node P) : Nat := n.objects.lib

theorem Tidy.deep (h : n.Tidy) : n.Deep n.level := by
  refine ⟨h.above, ?_, h.log⟩
  rw [h.tracks.revision, level, h.tip.2]
  exact Nat.sub_le _ _

theorem Tidy.head_le (h : n.Tidy) : n.objects.headBlockNum ≤ n.level + xgtMaxWitnesses := by
  rw [level, h.tip.2]
  omega

section Switch

variable (hids : IdsFixParents P) (h : n.Tidy) (hroom : n.objects.headBlockNum + 1 < 2 ^ 32)
  (hhead : n.forkDb.head = some newHead)
  (hbranches : n.forkDb.Branches (newHead.id P.toCrypto) n.headBlockId first second)
  (hswitch : n.Switchable skip newHead first second)

include hbranches hswitch in
theorem Switchable.first_eq (h : n.Tidy) :
    ∃ xs, first = newHead :: xs ∧ xs.length = second.length ∧ newHead ∈ n.forkDb.index := by
  obtain ⟨xs, hxs⟩ := head?_eq_some_iff.1 hswitch.tip
  obtain ⟨x, hx, -, htip⟩ := hbranches.tip1
  rw [hswitch.tip] at htip
  cases htip
  have hnum : (newHead.id P.toCrypto).num = n.headBlockId.num + 1 := by
    have hid : n.objects.headBlockNum = n.headBlockId.num := h.tip.1
    rw [← hid]
    exact hswitch.next
  have hlen := hbranches.length (by omega)
  refine ⟨xs, hxs, ?_, hx⟩
  rw [hxs, length_cons] at hlen
  omega

include hbranches hswitch in
theorem Switchable.known (h : n.Tidy) :
    ∀ x ∈ first ++ second, n.forkDb.head = some newHead → n.forkDb.Knows (x.id P.toCrypto) := by
  intro x hx hhead
  obtain ⟨-, -, -, hindex⟩ := hswitch.first_eq hbranches h
  have hheld : x ∈ n.forkDb.index ++ n.forkDb.unlinked ++ n.forkDb.head.toList :=
    hbranches.held x hx
  rw [hhead] at hheld
  rcases mem_append.1 hheld with hmem | hmem
  · exact ⟨x, hmem, rfl⟩
  · rw [mem_singleton.1 hmem]
    exact ⟨newHead, mem_append_left _ hindex, rfl⟩

include hbranches in
theorem descends_second : Descends P.toCrypto n.headBlockId second (branchPoint second) := by
  obtain ⟨y, -, hy, hyhead⟩ := hbranches.tip2
  obtain ⟨-, z, -, hz, -⟩ := hbranches.point
  have hpoint : branchPoint second = z.data.previous := by rw [branchPoint, hz]; rfl
  rw [hpoint, ← hy]
  exact descends_of_branch hbranches.branch2 hyhead hz

include hbranches in
theorem buildsOn_first : BuildsOn P.toCrypto (branchPoint second) first.reverse := by
  obtain ⟨x, z, hx, hz, hpoint⟩ := hbranches.point
  have hbranch : branchPoint second = x.data.previous := by rw [branchPoint, hz, hpoint]; rfl
  rw [hbranch]
  exact hbranches.branch1.buildsOn hx

structure Popped (n n1 : Node P) (second : List ForkItem) : Prop where
  db : n1.db = undo^[second.length] n.db
  log : n1.blockLog = n.blockLog
  keeps : Keeps n.level n.forkDb n1.forkDb
  head : n1.headBlockId = branchPoint second
  down : n.objects.headBlockNum = n1.objects.headBlockNum + second.length
  tidy : n1.Tidy
  deep : n1.Deep n.level

include hids h hhead hbranches hswitch in
theorem popUntil_second {pinned : List ForkItem} (hpinned : ∀ x ∈ first, x ∈ pinned) :
    ∃ n1, popUntil pinned (branchPoint second) n.popFuel n = (n1, .ok ()) ∧ n.Popped n1 second := by
  obtain ⟨xs, rfl, hlen, -⟩ := hswitch.first_eq hbranches h
  have hdesc := descends_second hbranches
  have hsaved := hswitch.replays.length_le
  obtain ⟨-, hdown, htracks⟩ := undo_descends hids h.tracks hdesc hsaved
  have hfuel : second.length < n.popFuel := by
    have hnum : n.objects.headBlockNum = _ + second.length := hdown
    rw [popFuel, hhead]
    change second.length < newHead.num + 1
    rw [hswitch.next]
    omega
  obtain ⟨n1, x', hrun, hdb, hfork, hlog⟩ := popUntil_branch hids h.tracks h.tips hdesc hsaved
    (fun y hy => hswitch.known hbranches h y (mem_append_right _ hy) hhead) hhead
    hbranches.branch1 hlen.ge (fun z hz => hpinned z (.tail _ hz)) hfuel
  have hobjects : n1.objects = (undo^[second.length] n.db).state := by rw [objects, hdb]
  have hdown' : n.objects.headBlockNum = n1.objects.headBlockNum + second.length := by
    rw [hobjects]
    exact hdown
  have htips : ∀ s ∈ n1.db.states, s.TipOk := fun s hs =>
    h.tips s ((undo_iterate_states_suffix second.length).subset (hdb ▸ hs))
  have hlib : n1.objects.lib ≤ n.level := by
    have htip : n1.objects.TipOk := htips _ (.head _)
    rw [htip.2, level, h.tip.2]
    omega
  obtain ⟨hrevision, habove⟩ := h.tracks.undo_iterate_above Extends.up h.deep.revision h.above
    second.length
  have hdeep : n1.Deep n.level := by
    refine ⟨hdb ▸ habove, hdb ▸ hrevision, ?_⟩
    rw [logHeadNum, hlog]
    exact h.log
  refine ⟨n1, hrun, hdb, hlog, ?_, popUntil_headBlockId hrun, hdown', ?_, hdeep⟩
  · rw [hfork]
    exact Keeps.setHead _ _ _
  · exact ⟨hdb ▸ htracks, htips, fun e he => hlib.trans_lt (hdeep.saved e he), hlib.trans hdeep.log⟩

/-! ## Going back -/

theorem removeItems_knows {m : Node P} {id : BlockId} {xs : List ForkItem} (hid : m.forkDb.Knows id)
    (hxs : ∀ x ∈ xs, id ≠ x.id P.toCrypto) : (m.removeItems xs).forkDb.Knows id := by
  have hfold (F : ForkDatabase P.toCrypto) (hF : F.Knows id) :
      (xs.foldl (fun f x => f.remove (x.id P.toCrypto)) F).Knows id := by
    induction xs generalizing F with
    | nil => exact hF
    | cons x xs ih =>
      exact ih (fun z hz => hxs z (.tail _ hz)) _
        (hF.remove (hxs x (.head _)))
  exact hfold m.forkDb hid

theorem removeItems_forkDb (m : Node P) (xs : List ForkItem) :
    (m.removeItems xs).forkDb.head = m.forkDb.head ∧
      (m.removeItems xs).forkDb.prev = m.forkDb.prev := by
  have hfold (F : ForkDatabase P.toCrypto) :
      (xs.foldl (fun f x => f.remove (x.id P.toCrypto)) F).head = F.head ∧
        (xs.foldl (fun f x => f.remove (x.id P.toCrypto)) F).prev = F.prev := by
    induction xs generalizing F with
    | nil => exact ⟨rfl, rfl⟩
    | cons x xs ih => exact ih _
  exact hfold m.forkDb

include hbranches hswitch in
theorem Switchable.pairwise (h : n.Tidy) {n1 : Node P} (hpopped : n.Popped n1 second) :
    first.Pairwise (fun a b => b.num < a.num) ∧
      ∀ x ∈ first, n1.objects.headBlockNum + 1 ≤ x.num := by
  obtain ⟨xs, rfl, hlen, -⟩ := hswitch.first_eq hbranches h
  have hdown := hpopped.down
  have hnext := hswitch.next
  obtain ⟨hpair, hlow⟩ := hbranches.branch1.pairwise (by omega)
  refine ⟨hpair, fun x hx => ?_⟩
  have hx := hlow x hx
  omega

variable {n1 n2 : Node P} {pinned done rest : List ForkItem} {f : ForkItem} {e : Exc}

include hhead hbranches hswitch in
theorem Failed.known (h : n.Tidy) (hpopped : n.Popped n1 second)
    (hfailed : Failed n.level n1 n2 done (f :: rest)) (hfirst : first = rest.reverse ++ f :: done.reverse) :
    ∀ y ∈ done.reverse, (n2.removeItems (f :: rest)).forkDb.Knows (y.id P.toCrypto) := by
  intro y hy
  obtain ⟨hpair, hlow⟩ := hswitch.pairwise hbranches h hpopped
  have hmem : y ∈ first := by
    rw [hfirst]
    exact mem_append_right _ (.tail _ hy)
  have hlevel : n.level ≤ (y.id P.toCrypto).num := by
    have hynum := hlow y hmem
    have hrevision := hpopped.deep.revision
    rw [hpopped.tidy.tracks.revision] at hrevision
    change n.level ≤ n1.objects.headBlockNum at hrevision
    rw [ForkItem.id_num]
    omega
  have hknown := hswitch.known hbranches h y (mem_append_left _ hmem) hhead
  refine removeItems_knows (hfailed.keeps.known _ hlevel (hpopped.keeps.known _ hlevel hknown)) ?_
  intro z hz heq
  have hnum : y.num = z.num := congrArg BlockId.num heq
  rw [hfirst, pairwise_append, pairwise_cons] at hpair
  have hlt : y.num < z.num := by
    rcases mem_cons.1 hz with rfl | hz
    · exact hpair.2.1.1 y hy
    · exact hpair.2.2 z (mem_reverse.2 hz) y (.tail _ hy)
  omega

include hids h hroom hhead hbranches hswitch in
theorem Failed.restores (hpinned : ∀ x ∈ first, x ∈ pinned) (hpopped : n.Popped n1 second)
    (htidy : n2.Tidy) (hfailed : Failed n.level n1 n2 done (f :: rest))
    (hfirst : first = rest.reverse ++ f :: done.reverse) :
    ∃ n3 n4, popUntil pinned (branchPoint second) (n2.removeItems (f :: rest)).popFuel
        (n2.removeItems (f :: rest)) = (n3, .ok ()) ∧
      applyBranch skip pinned second.reverse n3 = (n4, none) ∧ n4.db = n.db ∧
      n4.blockLog = n.blockLog := by
  obtain ⟨hheadEq, hprevEq⟩ := removeItems_forkDb n2 (f :: rest)
  obtain ⟨hpair, -⟩ := hswitch.pairwise hbranches h hpopped
  rw [hfirst] at hpair
  have hprev : (n2.removeItems (f :: rest)).forkDb.prev = n.forkDb.prev := by
    rw [hprevEq, hfailed.keeps.prev, hpopped.keeps.prev]
  have hbranch : (n2.removeItems (f :: rest)).forkDb.Branch (f :: done.reverse) := by
    have hchain := hbranches.branch1
    rw [Branch, hfirst] at hchain
    rw [Branch, hprev]
    exact hchain.right_of_append
  have hhead2 : (n2.removeItems (f :: rest)).forkDb.head = some f := by
    rw [hheadEq, hfailed.head]
    rfl
  have hdesc : Descends P.toCrypto n2.headBlockId done.reverse (branchPoint second) := by
    rw [← hpopped.head]
    exact hfailed.descends
  have hfuel : done.reverse.length < (n2.removeItems (f :: rest)).popFuel := by
    rw [popFuel, hhead2]
    exact Nat.lt_succ_of_le
      (length_le_of_pairwise (pairwise_append.1 hpair).2.1)
  obtain ⟨n3, x', hrun, hdb, -, hlog⟩ := popUntil_branch (n := n2.removeItems (f :: rest))
    hids htidy.tracks htidy.tips hdesc
    (by
      rw [length_reverse]
      exact hfailed.saved ▸ Nat.le_add_left _ _)
    (hfailed.known hhead hbranches hswitch h hpopped hfirst) hhead2 hbranch le_rfl
    (fun z hz => hpinned z (by
      rw [hfirst]
      exact mem_append_right _ (.tail _ hz)))
    hfuel
  have hdb3 : n3.db = undo^[second.length] n.db := by
    rw [hdb, length_reverse, ← hpopped.db]
    exact hfailed.undone
  have hlog3 : n3.blockLog = n.blockLog := by
    rw [hlog, ← hpopped.log, ← hfailed.log]
    rfl
  have hlevel : n.level ≤ n3.logHeadNum := by
    rw [logHeadNum, hlog3]
    exact h.log
  obtain ⟨n4, happly, hdb4, hlog4⟩ := applyBranch_replays pinned hids h.tracks h.tips
    (Nat.lt_of_succ_lt hroom) h.head_le h.above hlevel (descends_second hbranches)
    (hlog3 ▸ hswitch.replays) hdb3
  exact ⟨n3, n4, hrun, happly, hdb4, hlog4.trans hlog3⟩

include hroom hbranches hswitch in
theorem Switchable.builds (h : n.Tidy) (hpopped : n.Popped n1 second) :
    BuildsOn P.toCrypto n1.headBlockId first.reverse ∧
      n1.objects.headBlockNum + first.reverse.length < 2 ^ 32 := by
  obtain ⟨xs, hxs, hlen, -⟩ := hswitch.first_eq hbranches h
  have hdown := hpopped.down
  rw [hpopped.head]
  refine ⟨buildsOn_first hbranches, ?_⟩
  rw [length_reverse, hxs, length_cons]
  omega

include hids h hroom hhead hbranches hswitch in
theorem Switchable.restores (hskip : skip.skipBlockLog = false) (hpinned : ∀ x ∈ first, x ∈ pinned)
    (hpopped : n.Popped n1 second)
    (happly : applyBranch skip pinned first.reverse n1 = (n2, some (e, rest))) :
    rest ⊆ first ∧ ∃ n3 n4, popUntil pinned (branchPoint second) (n2.removeItems rest).popFuel
        (n2.removeItems rest) = (n3, .ok ()) ∧
      applyBranch skip pinned second.reverse n3 = (n4, none) ∧ n4.db = n.db ∧
      n4.blockLog = n.blockLog := by
  obtain ⟨xs, hxs, -, -⟩ := hswitch.first_eq hbranches h
  obtain ⟨hbuilds, hroom1⟩ := hswitch.builds hroom hbranches h hpopped
  have htidy := applyBranch_tidy hpopped.tidy hskip hbuilds hroom1 happly
  have hlow : ∀ x ∈ first.reverse.dropLast, x.num ≤ n.level + xgtMaxWitnesses := by
    intro x hx
    rw [hxs, reverse_cons, dropLast_concat] at hx
    have hpair := (hswitch.pairwise hbranches h hpopped).1
    rw [hxs] at hpair
    have hlt := (pairwise_cons.1 hpair).1 x (mem_reverse.1 hx)
    have hle := h.head_le
    rw [hswitch.next] at hlt
    omega
  obtain ⟨done, hdone, hne, hfailed⟩ := applyBranch_failed hpopped.deep hpopped.tidy.tip hbuilds
    hroom1 hlow happly
  refine ⟨fun x hx => mem_reverse.1 (hdone ▸ mem_append_right _ hx), ?_⟩
  obtain ⟨f, rest, rfl⟩ := exists_cons_of_ne_nil hne
  have hfirst : first = rest.reverse ++ f :: done.reverse := by
    rw [← reverse_reverse first, hdone]
    simp
  exact hfailed.restores hids h hroom hhead hbranches hswitch hpinned hpopped htidy hfirst

end Switch

/-! ## Pushes -/

theorem switchForks_unwinds (hids : IdsFixParents P) (h : n.Tidy) (hskip : skip.skipBlockLog = false)
    (hroom : n.objects.headBlockNum + 1 < 2 ^ 32) (hhead : n.forkDb.head = some newHead)
    (hswitch : ∀ first second,
      n.forkDb.fetchBranchFrom (newHead.id P.toCrypto) n.headBlockId = .ok (first, second) →
        n.Switchable skip newHead first second) {r : Result Bool}
    (hstep : n.switchForks skip newHead = (n', r)) : n'.Tidy ∧ ∀ e, r = .error e → n'.db = n.db := by
  unfold switchForks at hstep
  split at hstep
  · cases hstep
    exact ⟨h, fun _ _ => rfl⟩
  · next first second hfetch =>
    have hbranches := fetchBranchFrom_ok hfetch
    have hswitch := hswitch first second hfetch
    have hpinned : ∀ x ∈ first, x ∈ newHead :: first ++ second := fun x hx =>
      .tail _ (mem_append_left _ hx)
    obtain ⟨n1, hpop, hpopped⟩ := popUntil_second hids h hhead hbranches hswitch hpinned
    unfold switchBranch at hstep
    rw [hpop] at hstep
    dsimp only at hstep
    split at hstep
    · next n2 happly =>
      cases hstep
      obtain ⟨hbuilds, hroom1⟩ := hswitch.builds hroom hbranches h hpopped
      exact ⟨applyBranch_tidy hpopped.tidy hskip hbuilds hroom1 happly, nofun⟩
    · next n2 e rest happly =>
      obtain ⟨-, n3, n4, hback, hagain, hdb, hlog⟩ :=
        hswitch.restores hids h hroom hhead hbranches hskip hpinned hpopped happly
      unfold restoreBranch at hstep
      rw [hback] at hstep
      simp only [hagain] at hstep
      cases hstep
      exact ⟨h.of_eq hdb hlog, fun _ _ => hdb⟩

/-- A push that can be gone back on: its fork switch, if any, replays the old branch. -/
structure Unwindable (n : Node P) (skip : SkipFlags) (b : SignedBlock) : Prop where
  forkDb : skip.skipForkDb = false
  blockLog : skip.skipBlockLog = false
  room : n.objects.headBlockNum + 1 < 2 ^ 32
  unmistakable : n.Unmistakable b
  switch : ∀ F newHead first second, n.forkDb.pushBlock b = (F, .ok newHead) →
    newHead.data.previous ≠ n.headBlockId → n.objects.headBlockNum < newHead.num →
    F.fetchBranchFrom (newHead.id P.toCrypto) n.headBlockId = .ok (first, second) →
      n.Switchable skip newHead first second

variable {b : SignedBlock}

theorem unwindable_of_noSwitch (hforkDb : skip.skipForkDb = false) (hblockLog : skip.skipBlockLog = false)
    (hroom : n.objects.headBlockNum + 1 < 2 ^ 32) (hb : n.Unmistakable b)
    (hswitch : (n.forkDb.pushBlock b).2.toOption.all (fun x =>
      x.data.previous = n.headBlockId ∨ x.num ≤ n.objects.headBlockNum) = true) :
    n.Unwindable skip b := by
  refine ⟨hforkDb, hblockLog, hroom, hb, fun F newHead first second hpush hchild hhigher _ => ?_⟩
  rw [hpush] at hswitch
  have hcases : newHead.data.previous = n.headBlockId ∨ newHead.num ≤ n.objects.headBlockNum :=
    of_decide_eq_true hswitch
  rcases hcases with h | h
  · exact absurd h hchild
  · omega

theorem unwindable_of_pushed {m : Node P} {a b : SignedBlock} {s : Objects} {x y : ForkItem}
    {l : List ForkItem} (budget : Nat) (h : m.Linear) (hrevision : m.db.revision = m.objects.headBlockNum)
    (hforkDb : skip.skipForkDb = false) (hblockLog : skip.skipBlockLog = false)
    (ha : a.previous = m.headBlockId)
    (hs : ∀ env : Env, env.skip = skip → m.objects.applyBlock P env a = .ok s)
    (hdb : n.db = (m.pushBlock skip budget a).1.db) (hroom : n.objects.headBlockNum + 1 < 2 ^ 32)
    (hroom' : m.objects.headBlockNum + 1 < 2 ^ 32) (hb : n.Unmistakable b)
    (hnew : (n.forkDb.pushBlock b).2.toOption = some y) (hnext : y.num = n.objects.headBlockNum + 1)
    (hbranches : ((n.forkDb.pushBlock b).1.fetchBranchFrom (y.id P.toCrypto)
      n.headBlockId).toOption = some (y :: l, [x])) (hx : x.data = a) : n.Unwindable skip b := by
  refine ⟨hforkDb, hblockLog, hroom, hb, fun F top first' second hpush _ _ hfetch => ?_⟩
  rw [hpush] at hnew hbranches
  obtain rfl : top = y := Option.some.inj hnew
  rw [hfetch] at hbranches
  obtain ⟨rfl, rfl⟩ := Prod.mk.inj (Option.some.inj hbranches)
  refine ⟨rfl, hnext, ?_⟩
  rw [objects, hdb]
  exact replays_pushed budget n.blockLog h hrevision hforkDb hblockLog ha hroom' hs hx

theorem Unwindable.flags (h : n.Unwindable skip b) (hnone : n.checkpoints = []) :
    ∀ skip', n.checkpointFlags skip b = .ok skip' → n.Unwindable skip' b := by
  intro skip' hflags
  rw [checkpointFlags_of_nil _ _ hnone] at hflags
  cases hflags
  exact h

theorem extend_unwinds (h : n.Tidy) (hskip : skip.skipBlockLog = false)
    (hroom : n.objects.headBlockNum + 1 < 2 ^ 32) (hb : b.previous = n.headBlockId) {r : Result Bool}
    (hstep : n.extend skip b = (n', r)) : n'.Tidy ∧ ∀ e, r = .error e → n'.db = n.db := by
  unfold extend at hstep
  split at hstep
  · next hblock =>
    cases hstep
    exact ⟨applyBlock_tidy h hskip hb hroom hblock, nofun⟩
  · next hblock =>
    cases hstep
    rw [applyBlock_error hblock]
    exact ⟨h.of_eq rfl rfl, fun _ _ => rfl⟩

theorem pushBlockCore_unwinds (hids : IdsFixParents P) (h : n.Tidy)
    (hb : n.Unwindable skip b) {r : Result Bool} (hstep : n.pushBlockCore skip b = (n', r)) :
    n'.Tidy ∧ ∀ e, r = .error e → n'.db = n.db := by
  unfold pushBlockCore at hstep
  rw [if_neg (by simp [hb.forkDb])] at hstep
  split at hstep
  · cases hstep
    exact ⟨h.of_eq rfl rfl, fun _ _ => rfl⟩
  · next F newHead hpush =>
    let m : Node P := { n with forkDb := F }
    have hm : m.Tidy := h.of_eq rfl rfl
    dsimp only at hstep
    split_ifs at hstep with hchild hhigher
    · exact extend_unwinds hm hb.blockLog hb.room (hb.unmistakable.previous_eq hpush hchild) hstep
    · have hhead := (pushBlock_head hpush).1
      refine switchForks_unwinds hids hm hb.blockLog hb.room hhead ?_ hstep
      intro first second hfetch
      obtain ⟨htip, hnext, hreplays⟩ := hb.switch F newHead first second hpush hchild hhigher hfetch
      exact ⟨htip, hnext, hreplays⟩
    · cases hstep
      exact ⟨hm, fun _ _ => rfl⟩

theorem pushBlock_unwinds {budget : Nat} (hids : IdsFixParents P) (h : n.Tidy)
    (hb : ∀ skip', n.checkpointFlags skip b = .ok skip' → n.Unwindable skip' b) :
    (n.pushBlock skip budget b).1.Tidy ∧
      ∀ e, (n.pushBlock skip budget b).2 = .error e → (n.pushBlock skip budget b).1.db = n.db := by
  unfold pushBlock
  split
  · exact ⟨h, fun _ _ => rfl⟩
  · next skip' hflags =>
    rcases hcore : n.clearPending.pushBlockCore skip' b with ⟨n1, r⟩
    have h0 : n.clearPending.Tidy := h.of_eq rfl rfl
    have hb0 : n.clearPending.Unwindable skip' b := by
      obtain ⟨hforkDb, hblockLog, hroom, hmistake, hswitch⟩ := hb skip' hflags
      refine ⟨hforkDb, hblockLog, hroom, hmistake, fun F x first second h1 h2 h3 h4 => ?_⟩
      obtain ⟨htip, hnext, hreplays⟩ := hswitch F x first second h1 h2 h3 h4
      exact ⟨htip, hnext, hreplays⟩
    obtain ⟨htidy, hfail⟩ := pushBlockCore_unwinds hids h0 hb0 hcore
    have hchain : (n1.restorePending skip' budget n.pendingTx).chain = n1.chain :=
      restorePending_chain
    have hdb : (n1.restorePending skip' budget n.pendingTx).db = n1.db := congrArg Prod.fst hchain
    exact ⟨htidy.of_eq hdb (congrArg (fun c => c.2.2.1) hchain), fun e he => hdb.trans (hfail e he)⟩

/-! ## Runs -/

/-- A push that can be gone back on, or a step that leaves the chain. -/
inductive UnwindStep : Node P → Node P → Prop
  | push {n : Node P} {skip : SkipFlags} {budget : Nat} {b : SignedBlock}
      (hb : ∀ skip', n.checkpointFlags skip b = .ok skip' → n.Unwindable skip' b) :
      UnwindStep n (n.pushBlock skip budget b).1
  | other {n n' : Node P} (hdb : n'.db = n.db) (hlog : n'.blockLog = n.blockLog) : UnwindStep n n'

theorem tidy_of_run (hids : IdsFixParents P) {n0 : Node P}
    (hstart : n0.db = ⟨genesis P.initPublicKey, 0, []⟩) (hrun : ReflTransGen UnwindStep n0 n) :
    n.Tidy := by
  induction hrun with
  | refl =>
    refine ⟨hstart ▸ Tracks.init _, ?_, ?_, ?_⟩
    · rw [hstart]
      intro s hs
      rw [mem_singleton.1 hs]
      exact ⟨rfl, rfl⟩
    · rw [hstart]
      nofun
    · rw [objects, hstart]
      exact Nat.zero_le _
  | tail _ hstep ih =>
    cases hstep with
    | push hb => exact (pushBlock_unwinds hids ih hb).1
    | other hdb hlog => exact ih.of_eq hdb hlog

theorem failed_push_unwound (hids : IdsFixParents P) {n0 n : Node P}
    (hstart : n0.db = ⟨genesis P.initPublicKey, 0, []⟩) (hrun : ReflTransGen UnwindStep n0 n)
    {skip : SkipFlags} {budget : Nat} {b : SignedBlock} {e : Exc}
    (hb : ∀ skip', n.checkpointFlags skip b = .ok skip' → n.Unwindable skip' b)
    (hfail : (n.pushBlock skip budget b).2 = .error e) : (n.pushBlock skip budget b).1.db = n.db :=
  (pushBlock_unwinds hids (tidy_of_run hids hstart hrun) hb).2 e hfail

def linkParams : Params :=
  { toyParams with
    headerHash := fun h => Nat.pair (Nat.pair h.previous.num h.previous.hash) h.timestamp }

theorem linkParams_idsFixParents : IdsFixParents linkParams := by
  intro h h' hid
  obtain ⟨hparent, -⟩ := Nat.pair_eq_pair.1 (congrArg BlockId.hash hid)
  obtain ⟨hnum, hhash⟩ := Nat.pair_eq_pair.1 hparent
  cases hprevious : h.previous
  cases hprevious' : h'.previous
  simp_all

theorem failed_switch_unwound :
    ∃ (n : Node linkParams) (b : SignedBlock),
      (n.pushBlock skipNothing 0 b).2.toOption = none ∧
      (n.pushBlock skipNothing 0 b).1.handed.length = n.handed.length + 3 ∧
      n.objects.headBlockNum = 2 ∧ (n.pushBlock skipNothing 0 b).1.db = n.db := by
  let id (b : SignedBlock) := linkParams.blockId b.toSignedBlockHeader
  let a1 := toyBlock .zero 1
  let a2 := toyBlock (id a1) 2
  let b2 := toyBlock (id a1) 3
  let b3 := toyBlock (id b2) 4 [] xgtTempWallet
  let n0 := init linkParams
  let n1 := (n0.pushBlock skipNothing 0 a1).1
  let n2 := (n1.pushBlock skipNothing 0 a2).1
  let n3 := (n2.pushBlock skipNothing 0 b3).1
  have h1 : n0.Unwindable skipNothing a1 := unwindable_of_noSwitch rfl rfl (by decide +kernel)
    (.inl (by decide +kernel)) (by decide +kernel)
  have h2 : n1.Unwindable skipNothing a2 := unwindable_of_noSwitch rfl rfl (by decide +kernel)
    (.inl (by decide +kernel)) (by decide +kernel)
  have h3 : n2.Unwindable skipNothing b3 := unwindable_of_noSwitch rfl rfl (by decide +kernel)
    (.inr (by decide +kernel)) (by decide +kernel)
  obtain ⟨s1, hs1, -⟩ := exists_ok_of_any (p := fun _ => true)
    (x := n0.objects.applyBlock linkParams toyEnv a1) (by decide +kernel)
  obtain ⟨s2, hs2, -⟩ := exists_ok_of_any (p := fun _ => true)
    (x := n1.objects.applyBlock linkParams toyEnv a2) (by decide +kernel)
  have hlinear : n1.Linear := (pushBlock_linear (b := a1) 0 (linear_init linkParams)
    (rfl : skipNothing.skipForkDb = false) rfl rfl (by decide +kernel) fun env henv =>
      (Objects.applyBlock_empty henv.skip rfl (by decide +kernel)).trans hs1).2.1
  have hrun : ReflTransGen UnwindStep n0 n2 :=
    .tail (.single (.push (h1.flags rfl))) (.push (h2.flags (by decide +kernel)))
  have hfail : (n2.pushBlock skipNothing 0 b3).2.toOption = none := by decide +kernel
  have hdb : n3.db = n2.db := by
    obtain ⟨e, he⟩ := exists_error_of_toOption hfail
    exact failed_push_unwound linkParams_idsFixParents rfl hrun (h3.flags (by decide +kernel)) he
  have h : n3.Unwindable skipNothing b2 := by
    refine unwindable_of_pushed (m := n1) (x := ⟨1, a2⟩) (y := ⟨2, b3⟩) (l := [⟨3, b2⟩]) 0
      hlinear ?_ rfl rfl ?_
      (fun env henv => (Objects.applyBlock_empty henv rfl (by decide +kernel)).trans hs2) hdb ?_ ?_
      (.inr ?_) ?_ ?_ ?_ rfl
    all_goals decide +kernel
  have hfail' : (n3.pushBlock skipNothing 0 b2).2.toOption = none := by decide +kernel
  obtain ⟨e, he⟩ := exists_error_of_toOption hfail'
  have hrun' : ReflTransGen UnwindStep n0 n3 := hrun.tail (.push (h3.flags (by decide +kernel)))
  have hflags := h.flags (by decide +kernel)
  have hdb' := failed_push_unwound linkParams_idsFixParents rfl hrun' hflags he
  exact ⟨n3, b2, hfail', by decide +kernel, by decide +kernel, hdb'⟩

theorem switch_below_irreversible :
    ∃ (trunk branch : List SignedBlock) (last : SignedBlock) (n : Node toyParams),
      n = (init toyParams).pushBlocks (trunk ++ branch) ∧
      n.objects.headBlockNum = 12 ∧ n.objects.lib = 2 ∧
      n.db.revision = 12 ∧ n.db.saved.length = 10 ∧
      (n.pushBlock skipNothing 0 last).2.toOption = none ∧
      (n.pushBlock skipNothing 0 last).1.objects.headBlockNum = 2 ∧
      (n.pushBlock skipNothing 0 last).1.db.revision = 2 ∧
      (n.pushBlock skipNothing 0 last).1.db.saved.length = 0 := by
  let first := toyBlock .zero 1
  let trunk := first :: toyChain (toyId first) 2 11
  let branch := toyChain (toyId first) 100 12
  refine ⟨trunk, branch.dropLast, branch.getLast?.getD first, _, rfl, ?_⟩
  decide +kernel

end Node

end Xgt
