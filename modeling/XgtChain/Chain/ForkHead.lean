import XgtChain.Chain.FailedPush
import XgtChain.Chain.LoggedBlocks

/-!
# The fork database's head

`_push_block` relies on the fork database's head being the item of the chain's head: a new head is a child
of the chain's head or leads to a fork switch.
-/

namespace Xgt

open Base List Node ForkDatabase BlockId

theorem Traced.extends {P : Params} {B : SignedBlock → Prop} {S : SkipFlags → Prop}
    {states : List Objects} {blocks : List SignedBlock} (h : Traced P B S states blocks)
    (hup : states.IsChain fun new old => new.headBlockNum = old.headBlockNum + 1) :
    states.IsChain fun new old => Extends P old new := by
  induction states generalizing blocks with
  | nil => exact .nil
  | cons s states ih =>
    cases states with
    | nil => exact .singleton _
    | cons old states =>
      obtain ⟨hnum, hrest⟩ := isChain_cons_cons.1 hup
      obtain ⟨b, hb, -⟩ := h.2.1 old rfl
      obtain ⟨blocks, rfl⟩ := head?_eq_some_iff.1 hb
      have hprevious : b.previous = old.headBlockId := h.1.2.id_eq h.2.2.1
      exact isChain_cons_cons.2 ⟨⟨hnum, _, h.1.1.symm, hprevious⟩, ih h.2.2 hrest⟩

namespace Node

variable {P : Params} {B : SignedBlock → Prop} {S : SkipFlags → Prop} {n : Node P} {d : DbState} {x : ForkItem}
  {b : SignedBlock}

/-- The fork database's head is the chain's, and its main branch is applied. -/
structure HeadKept (d : DbState) (n : Node P) : Prop where
  head : ∀ b ∈ d.applied.head?, ∃ x ∈ n.forkDb.index, n.forkDb.head = some x ∧ x.data = b
  empty : d.applied = [] → n.forkDb.head = none
  main : ∀ num x, n.forkDb.fetchBlockOnMainBranchByNumber [] num = some x → x.data ∈ d.applied

theorem Anchored.pos (ha : Anchored d n) (hx : x ∈ n.forkDb.index) : 0 < x.num := by
  obtain ⟨low, hpos, hlow, -⟩ := ha.covers
  exact hpos.trans_le (hlow x hx)

section

variable (hB : IdsTell P.toCrypto B) (ha : Anchored d n) (h : Joined B S [] d n)
include hB ha h

theorem Anchored.head_eq (hb : b ∈ d.applied.head?) :
    ∃ x ∈ n.forkDb.index, n.forkDb.head = some x ∧ x.data = b := by
  obtain ⟨blocks, happlied⟩ := List.head?_eq_some_iff.1 hb
  have hline := h.lineage
  have hblocks := h.blocks
  rw [happlied] at hline hblocks
  rcases ha.top with ⟨hnone, -⟩ | ⟨x, hx, hsome, hid⟩
  · have hnil := h.applied_eq_nil (h.sound.started hnone)
    rw [happlied] at hnil
    cases hnil
  · refine ⟨x, hx, hsome, hB _ _ (h.items.held x ?_) (hblocks b (.head _)) (hid.trans hline.1.symm)⟩
    simp [Holds, hx]

theorem Anchored.main_mem {num : Nat} (hfetch : n.forkDb.fetchBlockOnMainBranchByNumber [] num = some x) :
    x.data ∈ d.applied := by
  rcases ha.top with ⟨hnone, -⟩ | ⟨t, -, hhead, hid⟩
  · rw [fetchBlockOnMainBranchByNumber, hnone] at hfetch
    cases hfetch
  · have htop : t.num = d.headBlockNum := by
      rw [h.headBlockNum, ← h.sound.headBlockId_num]
      exact congrArg BlockId.num hid
    have hheld (z : ForkItem) (hz : n.forkDb.Holds z ∨ z ∈ ([] : List ForkItem)) : B z.data :=
      h.items.held z (hz.resolve_right (by simp))
    obtain ⟨low, hpos, hlow, hkept⟩ := ha.covers
    have hnum : low ≤ num := by
      obtain ⟨z, hz, hznum⟩ := exists_of_fetchBlockOnMainBranchByNumber hfetch
      exact hznum ▸ hlow z hz
    refine fetchBlockOnMainBranchByNumber_mem hB h.blocks hheld (hpos.trans_le hnum) hhead
      (hid ▸ h.lineage) (fun _ hle => ?_) hfetch
    obtain ⟨c, hc, hcnum⟩ := h.valid.mem_numbers.2 ⟨hpos.trans_le hnum, htop ▸ hle⟩
    exact ⟨c, hc, hcnum, hkept c hc (hcnum ▸ hnum)⟩

theorem Anchored.headKept : HeadKept d n where
  head _ hb := ha.head_eq hB h hb
  empty hnil := by
    rcases ha.top with ⟨hnone, -⟩ | ⟨x, hx, -, hid⟩
    · exact hnone
    · -- The genesis state has no block.
      have hline := h.lineage
      rw [hnil] at hline
      have hzero : x.num = 0 := congrArg num (hid.trans hline)
      exact absurd hzero (ha.pos hx).ne'
  main _ _ hfetch := ha.main_mem hB h hfetch

end

/-! ## The condition of a push -/

theorem Joined.tidy {S : SkipFlags → Prop} (h : Joined B S [] d n) : n.Tidy where
  tracks := ⟨h.sound.grown.tracks.revision, h.sound.grown.tracks.levels,
    h.traced.extends h.sound.grown.tracks.chain⟩
  tips s hs := (h.sound.grown.tips s hs).1
  above := h.sound.grown.above
  log := by
    have hlib := h.valid.lastIrreversible_le
    unfold DbState.lastIrreversibleBlockNum at hlib
    rw [h.logHeadNum, objects, ← h.holds.db]
    exact hlib

/-- What the push finds: a first block has no parent, a block that links brings no cached block that does not,
a block on the chain's head is valid, and the branches of a fork switch meet and can be gone back on. -/
structure Settling (n : Node P) (skip : SkipFlags) (b : SignedBlock) : Prop where
  first : n.forkDb.head = none → b.previous = .zero
  root : b.previous = .zero → n.forkDb.head = none ∨ ∃ x ∈ n.forkDb.index, x.num = 1
  refused : ∀ e, (n.forkDb.pushBlock b).2 = .error e →
    ∃ e', n.forkDb.counted.attach (n.forkDb.newItem b) = .error e'
  accepted : ∀ F newHead, n.forkDb.pushBlock b = (F, .ok newHead) →
    newHead.data.previous = n.headBlockId → newHead ∈ F.index ∧
    ∃ s, n.objects.applyBlock P (({ n with forkDb := F } : Node P).env skip false) b = .ok s ∧
      ∀ num, n.logHeadNum < num → num ≤ s.lib →
        (F.fetchBlockOnMainBranchByNumber [] num).isSome
  switches : ∀ F newHead, n.forkDb.pushBlock b = (F, .ok newHead) →
    newHead.data.previous ≠ n.headBlockId → n.objects.headBlockNum < newHead.num →
    ∃ first second, F.fetchBranchFrom (newHead.id P.toCrypto) n.headBlockId = .ok (first, second) ∧
      n.Switchable skip newHead first second

section Settling

variable {skip : SkipFlags} {F : ForkDatabase P.toCrypto} {newHead : ForkItem} {S : SkipFlags → Prop}

theorem pushBlock_refused {e e' : Exc} (hpush : n.forkDb.pushBlock b = (F, .error e))
    (hattach : n.forkDb.counted.attach (n.forkDb.newItem b) = .error e') : F.head = n.forkDb.head := by
  rcases pushBlock_cases hpush with ⟨e, -, -, rfl⟩ | ⟨db1, r, hok, -, -⟩
  · split_ifs <;> rfl
  · cases hattach.symm.trans hok

theorem applyBlock_accepted {s : Objects} (hhead : n.forkDb.head = some newHead)
    (hnum : newHead.num = b.blockNum) (hs : n.objects.applyBlock P (n.env skip false) b = .ok s)
    (hfound : ∀ num, n.logHeadNum < num → num ≤ s.lib →
      (n.forkDb.fetchBlockOnMainBranchByNumber [] num).isSome) :
    ∃ n', n.applyBlock skip [] b = (n', .ok ()) := by
  let m : Node P := { n.hand b with db := n.db.start.set s }
  have htip : s.headBlockNum = b.blockNum := congrArg Prod.fst (Objects.applyBlock_tip hs)
  have hcheck : m.checkForkHead = .ok () := by
    rw [checkForkHead, show m.forkDb.head = some newHead from hhead]
    exact fcAssert_ok (hnum.trans htip.symm)
  obtain ⟨blocks, hblocks⟩ : ∃ blocks, m.blocksToWrite skip [] = .ok blocks := by
    unfold blocksToWrite
    split_ifs
    · exact ⟨[], rfl⟩
    · obtain ⟨blocks, hblocks, -⟩ := mapM_ok_of_forall (f := m.mainBranchBlock [])
        (Q := fun _ _ => True) (fun num hrange => by
          rw [mem_range'_1] at hrange
          have hlow : n.logHeadNum + 1 ≤ num := hrange.1
          have hhigh : num < n.logHeadNum + 1 + (s.lib - n.logHeadNum) := hrange.2
          obtain ⟨x, hx⟩ := Option.isSome_iff_exists.1 (hfound num (by omega) (by omega))
          have hx' : m.forkDb.fetchBlockOnMainBranchByNumber [] num = some x := hx
          exact ⟨x.data, by rw [mainBranchBlock, hx'], trivial⟩)
      exact ⟨blocks, hblocks⟩
  obtain ⟨n', hmigrate⟩ : ∃ n', m.migrateIrreversibleState skip [] = .ok n' := by
    rw [migrateIrreversibleState, hcheck, hblocks]
    exact ⟨_, rfl⟩
  exact ⟨n', applyBlock_of_ok hs hmigrate⟩

variable (hids : IdsFixParents P) (h : Joined B S [] d n) (hblockLog : skip.skipBlockLog = false)
include hids h hblockLog

theorem Switchable.settles {first second : List ForkItem} (hhead : n.forkDb.head = some newHead)
    (hchild : newHead.data.previous ≠ n.headBlockId)
    (hfetch : n.forkDb.fetchBranchFrom (newHead.id P.toCrypto) n.headBlockId = .ok (first, second))
    (hswitch : n.Switchable skip newHead first second) :
    n.SwitchSettles skip newHead (n.switchForks skip newHead).2 := by
  have hbranches := fetchBranchFrom_ok hfetch
  have htidy := h.tidy
  have hroom : n.objects.headBlockNum + 1 < 2 ^ 32 := by
    rw [← hswitch.next]
    exact Nat.mod_lt _ (by decide)
  have hpinned : ∀ x ∈ first, x ∈ newHead :: first ++ second := fun x hx => .tail _ (mem_append_left _ hx)
  obtain ⟨n1, hpop, hpopped⟩ := popUntil_second hids htidy hhead hbranches hswitch hpinned
  unfold switchForks
  rw [hfetch]
  simp only [switchBranch, hpop]
  rcases hap : applyBranch skip (newHead :: first ++ second) first.reverse n1 with ⟨n2, _ | ⟨e, rest⟩⟩
  · exact .inl ⟨true, rfl⟩
  · obtain ⟨hsub, n3, n4, hback, hagain, -⟩ :=
      hswitch.restores hids htidy hroom hhead hbranches hblockLog hpinned hpopped hap
    refine .inr ⟨first, second, hfetch, n1, n2, (), e, rest, hpop, hap, fun x hx hid => ?_,
      n3, n4, (), hback, hagain⟩
    -- An item of the new branch with the id of the old tip is the parent of the new head.
    obtain ⟨xs, rfl, -, -⟩ := hswitch.first_eq hbranches htidy
    have hnum : x.num = n.objects.headBlockNum := by
      rw [← h.sound.headBlockId_num, ← hid]
      rfl
    have hnext := hswitch.next
    have hfalling := hbranches.branch1.falling h.sound.sane
    rcases mem_cons.1 (hsub hx) with rfl | hx
    · omega
    · obtain ⟨p, xs, rfl⟩ := exists_cons_of_ne_nil (ne_nil_of_mem hx)
      obtain ⟨hprev, -⟩ := isChain_cons_cons.1 hbranches.branch1
      have hup := num_of_prev hprev (by omega)
      rcases mem_cons.1 hx with rfl | hx
      · exact hchild ((n.forkDb.linked _ _ hprev).symm.trans hid)
      · have hlt := (pairwise_cons.1 (pairwise_cons.1 hfalling).2).1 x hx
        omega

theorem Settling.pushSettles (hidle : n.pendingState = none) (hB : B b) (hforkDb : skip.skipForkDb = false)
    (hunmistakable : n.Unmistakable b) (hb : n.Settling skip b) : n.PushSettles skip b where
  first := hb.first
  root := hb.root
  refused F e hpush := by
    obtain ⟨e', hattach⟩ := hb.refused e (by rw [hpush])
    exact pushBlock_refused hpush hattach
  accepted F newHead hpush hchild := by
    obtain ⟨hmem, s, hs, hfound⟩ := hb.accepted F newHead hpush hchild
    have hparent := hunmistakable.previous_eq hpush hchild
    have hnum : newHead.num = b.blockNum :=
      congrArg (fun id : BlockId => (id.num + 1) % 2 ^ 32) (hchild.trans hparent.symm)
    obtain ⟨n', hstep⟩ := applyBlock_accepted (n := { n with forkDb := F })
      (pushBlock_head hpush).1 hnum hs hfound
    refine ⟨hmem, false, ?_⟩
    unfold pushBlockCore
    rw [if_neg (by simp [hforkDb]), hpush]
    refine (congrArg Prod.snd (if_pos (show newHead.data.previous = _ from hchild))).trans ?_
    rw [extend, hstep]
  switches F newHead hpush hchild hhigher := by
    obtain ⟨first, second, hfetch, hswitch⟩ := hb.switches F newHead hpush hchild hhigher
    have h1 := h.pushBlock_forkDb hidle hB hpush
    have hsettles := Switchable.settles hids h1 hblockLog (pushBlock_head hpush).1 hchild hfetch
      ⟨hswitch.tip, hswitch.next, hswitch.replays⟩
    have hcore : (n.pushBlockCore skip b).2 =
      (({ n with forkDb := F } : Node P).switchForks skip newHead).2 := by
      unfold pushBlockCore
      rw [if_neg (by simp [hforkDb]), hpush]
      refine congrArg Prod.snd ((if_neg hchild).trans (if_pos hhigher))
    rw [hcore]
    exact hsettles

end Settling

/-- A push that uses the fork database and the log and meets the condition. -/
structure Orderly (n : Node P) (skip : SkipFlags) (b : SignedBlock) : Prop where
  loggable : n.Loggable skip b
  settling : ∀ skip', n.checkpointFlags skip b = .ok skip' → n.Settling skip' b

end Node

theorem LoggedRun.head_kept {P : Params} {B : SignedBlock → Prop} {n : Node P} {d : DbState}
    (hids : IdsFixParents P) (hB : IdsTell P.toCrypto B) (h : LoggedRun P B Orderly n d) :
    d.Holds n ∧ Continues B Orderly n ∧ HeadKept d n := by
  have hC (n : Node P) (skip : SkipFlags) (b : SignedBlock) (hpush : n.Orderly skip b) : n.Loggable skip b :=
    hpush.loggable
  have hjoined := h.joined_any hB hC
  have hanchored : Anchored d n := by
    refine h.anchored hB hC fun n d skip b hjoined hb hpush skip' hflags => ?_
    obtain ⟨l, d0, -, -, h0, -⟩ := hjoined.of_idles n.clearPending_idles rfl
    obtain ⟨hfirst, hroot, hrefused, haccepted, hswitches⟩ := hpush.settling skip' hflags
    refine Settling.pushSettles hids h0 (checkpointFlags_skipBlockLog hflags hpush.loggable.blockLog)
      rfl hb (checkpointFlags_skipForkDb hflags hpush.loggable.forkDb) hpush.loggable.unmistakable
      ⟨hfirst, hroot, hrefused, haccepted, fun F newHead hpush hchild hhigher => ?_⟩
    obtain ⟨first, second, hfetch, hswitch⟩ := hswitches F newHead hpush hchild hhigher
    exact ⟨first, second, hfetch, hswitch.tip, hswitch.next, hswitch.replays⟩
  exact ⟨hjoined.holds, h.continues hB hC, hanchored.headKept hB hjoined⟩

theorem Node.settling_of_pushed {P : Params} {n : Node P} {skip : SkipFlags} {b : SignedBlock}
    {x : ForkItem} (hfirst : n.forkDb.head = none → b.previous = .zero)
    (hroot : b.previous = .zero → n.forkDb.head = none ∨ ∃ x ∈ n.forkDb.index, x.num = 1)
    (hpush : (n.forkDb.pushBlock b).2.toOption = some x)
    (haccepted : x.data.previous = n.headBlockId → x ∈ (n.forkDb.pushBlock b).1.index ∧
      ∃ s, n.objects.applyBlock P ((n.received b).env skip false) b = .ok s ∧
        s.lib ≤ n.logHeadNum) (hswitches : x.data.previous ≠ n.headBlockId → n.Unwindable skip b ∧
      ((n.forkDb.pushBlock b).1.fetchBranchFrom (x.id P.toCrypto) n.headBlockId).toOption.isSome) :
    n.Settling skip b := by
  refine ⟨hfirst, hroot, fun e herror => ?_, fun F newHead heq hchild => ?_,
    fun F newHead heq hchild hhigher => ?_⟩
  · rw [herror] at hpush
    cases hpush
  · rw [received, heq] at haccepted
    rw [heq] at hpush
    cases hpush
    obtain ⟨hmem, s, hs, hlib⟩ := haccepted hchild
    exact ⟨hmem, s, hs, fun num hlow hhigh => absurd (hlow.trans_le hhigh) (not_lt.2 hlib)⟩
  · rw [heq] at hpush hswitches
    cases hpush
    obtain ⟨hunwindable, hmeet⟩ := hswitches hchild
    rcases hfetch : F.fetchBranchFrom (x.id P.toCrypto) n.headBlockId with e | ⟨first, second⟩
    · rw [hfetch] at hmeet
      cases hmeet
    · exact ⟨first, second, rfl, hunwindable.switch F x first second heq hchild hhigher hfetch⟩

theorem Node.settling_of_refused {P : Params} {n : Node P} {skip : SkipFlags} {b : SignedBlock}
    (hfirst : n.forkDb.head = none → b.previous = .zero)
    (hroot : b.previous = .zero → n.forkDb.head = none ∨ ∃ x ∈ n.forkDb.index, x.num = 1)
    (hattach : (n.forkDb.counted.attach (n.forkDb.newItem b)).toOption = none) : n.Settling skip b := by
  obtain ⟨e, he⟩ := exists_error_of_toOption hattach
  have hnever {F : ForkDatabase P.toCrypto} {x : ForkItem}
    (heq : n.forkDb.pushBlock b = (F, .ok x)) : False := by
    rcases pushBlock_cases heq with ⟨_, -, hr, -⟩ | ⟨_, _, hok, -, -⟩
    · cases hr
    · cases he.symm.trans hok
  exact ⟨hfirst, hroot, fun _ _ => ⟨e, he⟩, fun _ _ heq => (hnever heq).elim, fun _ _ heq => (hnever heq).elim⟩

theorem head_kept_switch : ∃ (blocks : List SignedBlock) (n : Node linkParams) (d : DbState),
    LoggedRun linkParams (· ∈ blocks) Orderly n d ∧ blocks.length = 4 ∧
      n.objects.headBlockNum = 3 ∧ n.handed.length = 4 ∧ HeadKept d n := by
  let id (b : SignedBlock) := linkParams.blockId b.toSignedBlockHeader
  let a1 := toyBlock .zero 1
  let a2 := toyBlock (id a1) 2
  let b2 := toyBlock (id a1) 3
  let b3 := toyBlock (id b2) 4
  let n0 := init linkParams
  let n1 := (n0.pushBlock skipNothing 0 a1).1
  let n2 := (n1.pushBlock skipNothing 0 a2).1
  let n3 := (n2.pushBlock skipNothing 0 b3).1
  obtain ⟨s1, hs1, hlib1⟩ := exists_ok_of_any (p := fun s => decide (s.lib = 0))
    (x := n0.objects.applyBlock linkParams toyEnv a1) (by decide +kernel)
  obtain ⟨s2, hs2, hlib2⟩ := exists_ok_of_any (p := fun s => decide (s.lib = 0))
    (x := n1.objects.applyBlock linkParams toyEnv a2) (by decide +kernel)
  have happly1 (env : Env) (henv : env.skip = skipNothing) :
      n0.objects.applyBlock linkParams env a1 = .ok s1 :=
    (Objects.applyBlock_empty henv rfl (by decide +kernel)).trans hs1
  have happly2 (env : Env) (henv : env.skip = skipNothing) :
      n1.objects.applyBlock linkParams env a2 = .ok s2 :=
    (Objects.applyBlock_empty henv rfl (by decide +kernel)).trans hs2
  have horderly {n : Node linkParams} {b : SignedBlock} (hnone : n.checkpoints = [])
      (hb : n.Unmistakable b) (h : n.Settling skipNothing b) : n.Orderly skipNothing b := by
    refine ⟨⟨rfl, rfl, hb⟩, fun skip' hflags => ?_⟩
    rw [checkpointFlags_of_nil _ _ hnone] at hflags
    cases hflags
    exact h
  have h1 : n0.Settling skipNothing a1 := by
    refine settling_of_pushed (x := ⟨0, a1⟩) (by decide +kernel) (by decide +kernel) (by decide +kernel)
      (fun _ => ⟨by decide +kernel, s1, happly1 _ rfl, ?_⟩) (fun hne => absurd (by decide +kernel) hne)
    exact (of_decide_eq_true hlib1).le.trans (Nat.zero_le _)
  have h2 : n1.Settling skipNothing a2 := by
    refine settling_of_pushed (x := ⟨1, a2⟩) (by decide +kernel) (by decide +kernel) (by decide +kernel)
      (fun _ => ⟨by decide +kernel, s2, happly2 _ rfl, ?_⟩) (fun hne => absurd (by decide +kernel) hne)
    exact (of_decide_eq_true hlib2).le.trans (Nat.zero_le _)
  have h3 : n2.Settling skipNothing b3 :=
    settling_of_refused (by decide +kernel) (by decide +kernel) (by decide +kernel)
  have hdb : n3.db = n2.db := by
    have hleads : n2.LeadsBy _ n3 := n2.pushBlock_leadsBy skipNothing 0 b3
    rw [isEmpty_iff.1 (show (n2.pushBlockEvents skipNothing b3).isEmpty = true by decide +kernel)] at hleads
    exact hleads.symm
  have hlinear : n1.Linear := (pushBlock_linear (b := a1) 0 (linear_init linkParams)
    (rfl : skipNothing.skipForkDb = false) rfl rfl (by decide +kernel) fun env henv =>
      happly1 env henv.skip).2.1
  have h4 : n3.Settling skipNothing b2 := by
    refine settling_of_pushed (x := ⟨2, b3⟩) (by decide +kernel) (by decide +kernel) (by decide +kernel)
      (fun heq => absurd heq (by decide +kernel)) fun _ => ⟨?_, by decide +kernel⟩
    refine unwindable_of_pushed (m := n1) (x := ⟨1, a2⟩) (y := ⟨2, b3⟩) (l := [⟨3, b2⟩]) 0
      hlinear ?_ rfl rfl ?_ happly2 hdb ?_ ?_ (.inr ?_) ?_ ?_ ?_ rfl
    all_goals decide +kernel
  have hids := linkParams_idsFixParents
  have htell : IdsTell linkParams.toCrypto (· ∈ [a1, a2, b2, b3]) := by
    have hall : ∀ b ∈ [a1, a2, b2, b3], ∀ c ∈ [a1, a2, b2, b3], id b = id c → b = c := by decide +kernel
    exact fun b c hb hc => hall b hb c hc
  obtain ⟨d1, hrun1⟩ := ((LoggedRun.init []).head_kept hids htell).2.1.pushBlock skipNothing 0 a1
    (by simp) (horderly rfl (.inl (by decide +kernel)) h1)
  obtain ⟨d2, hrun2⟩ := (hrun1.head_kept hids htell).2.1.pushBlock skipNothing 0 a2
    (by simp) (horderly (by decide +kernel) (.inl (by decide +kernel)) h2)
  obtain ⟨d3, hrun3⟩ := (hrun2.head_kept hids htell).2.1.pushBlock skipNothing 0 b3
    (by simp) (horderly (by decide +kernel) (.inr (by decide +kernel)) h3)
  obtain ⟨d4, hrun4⟩ := (hrun3.head_kept hids htell).2.1.pushBlock skipNothing 0 b2
    (by simp) (horderly (by decide +kernel) (.inr (by decide +kernel)) h4)
  exact ⟨_, _, d4, hrun4, rfl, by decide +kernel, by decide +kernel, (hrun4.head_kept hids htell).2.2⟩

theorem rejected_stays_head : ∃ (first rejected : SignedBlock) (n : Node toyParams) (x : ForkItem),
    n = (init toyParams).pushBlocks [first, rejected] ∧ n.headBlockId = toyId first ∧
      n.forkDb.head = some x ∧ x.data = rejected ∧ x.id toyParams.toCrypto ≠ n.headBlockId ∧
      x ∉ n.forkDb.index := by
  let first := toyBlock .zero 1
  let rejected := toyBlock (toyId first) 2 [] xgtTempWallet
  refine ⟨first, rejected, _, ⟨1, rejected⟩, rfl, ?_⟩
  decide +kernel

end Xgt
