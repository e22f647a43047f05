import XgtChain.Chain.PushBlock

/-!
# Popping and reapplying blocks

A node whose chain grew block by block (`Tidy`) has the states that a fork switch goes back to.
-/

namespace Xgt

open Base ForkDatabase List UndoStack Nat

def Extends (P : Params) (old new : Objects) : Prop :=
  new.headBlockNum = old.headBlockNum + 1 ∧
    ∃ b : SignedBlockHeader, new.headBlockId = P.blockId b ∧ b.previous = old.headBlockId

theorem Extends.up {P : Params} (old new : Objects) (h : Extends P old new) :
    new.headBlockNum = old.headBlockNum + 1 := h.1

def Objects.TipOk (s : Objects) : Prop :=
  s.headBlockNum = s.headBlockId.num ∧
    s.lib = s.headBlockNum - xgtMaxWitnesses

open Objects

namespace Node

variable {P : Params} {n n' : Node P} {skip : SkipFlags} {pinned : List ForkItem} {b : SignedBlock}
variable {s : Objects} {ys : List ForkItem} {level : Nat} {point : BlockId} {s' : Objects} {env : Env}

structure Tidy (n : Node P) : Prop where
  tracks : n.db.Tracks headBlockNum (Extends P)
  tips : ∀ s ∈ n.db.states, s.TipOk
  above : ∀ e ∈ n.db.saved, n.objects.lib < e.1
  log : n.objects.lib ≤ n.logHeadNum

theorem Tidy.tip (h : n.Tidy) : n.objects.TipOk := h.tips _ (.head _)

theorem Tidy.of_eq (h : n.Tidy) (hdb : n'.db = n.db) (hlog : n'.blockLog = n.blockLog) : n'.Tidy := by
  refine ⟨hdb ▸ h.tracks, hdb ▸ h.tips, ?_, ?_⟩
  · rw [objects, hdb]
    exact h.above
  · rw [objects, hdb, logHeadNum, hlog]
    exact h.log

theorem tip_of_next (h : s.applyBlock P env b = .ok s') (htip : s.TipOk)
    (hnum : b.blockNum = s.headBlockNum + 1) : s'.TipOk ∧ s'.headBlockNum = b.blockNum := by
  obtain ⟨hid, hlib⟩ := htip
  have htips := applyBlock_tip h
  have hnum' : s'.headBlockNum = b.blockNum := congrArg Prod.fst htips
  have hid' : s'.headBlockId = P.blockId b.toSignedBlockHeader := congrArg (fun t => t.2.1) htips
  have hlib' : s'.lib =
      if xgtMaxWitnesses < b.blockNum then b.blockNum - xgtMaxWitnesses
      else s.lib := congrArg (fun t => t.2.2) htips
  refine ⟨⟨?_, ?_⟩, hnum'⟩
  · rw [hid', hnum']
    rfl
  · rw [hlib', hnum']
    split_ifs with hlt
    · rfl
    · omega

theorem tip_of_applyBlock (h : s.applyBlock P env b = .ok s')
    (htip : s.TipOk) (hb : b.previous = s.headBlockId) (hroom : s.headBlockNum + 1 < 2 ^ 32) :
    s'.TipOk ∧ Extends P s s' ∧ s'.headBlockNum = b.blockNum := by
  have hnum : b.blockNum = s.headBlockNum + 1 := by
    change (b.previous.num + 1) % 2 ^ 32 = _
    rw [hb, ← htip.1]
    exact mod_eq_of_lt hroom
  have hid' : s'.headBlockId = P.blockId b.toSignedBlockHeader :=
    congrArg (fun t => t.2.1) (applyBlock_tip h)
  obtain ⟨htip', hnum'⟩ := tip_of_next h htip hnum
  exact ⟨htip', ⟨hnum'.trans hnum, _, hid', hb⟩, hnum'⟩

theorem blocksToWrite_log {blocks : List SignedBlock} (h : n.blocksToWrite skip pinned = .ok blocks)
    (hskip : skip.skipBlockLog = false) :
    ({ n with blockLog := n.blockLog ++ blocks } : Node P).logHeadNum =
      max n.objects.lib n.logHeadNum := by
  unfold blocksToWrite at h
  rw [if_neg (by simp [hskip])] at h
  rcases Nat.eq_zero_or_pos (n.objects.lib - n.logHeadNum) with hd | hd
  · rw [hd] at h
    cases h
    rw [max_eq_right (Nat.sub_eq_zero_iff_le.1 hd)]
    simp [logHeadNum]
  · obtain ⟨d, hd'⟩ := Nat.exists_eq_succ_of_ne_zero hd.ne'
    rw [hd', range'_concat] at h
    obtain ⟨b, hb, hlast⟩ := mapM_ok_getLast? h getLast?_concat
    have hnum : b.blockNum = n.logHeadNum + 1 + 1 * d := by
      unfold mainBranchBlock at hb
      split at hb
      · next x hx =>
        cases hb
        exact fetchBlockOnMainBranchByNumber_num hx
      · cases hb
    rw [logHeadNum, getLast?_append, hlast]
    change b.blockNum = _
    omega

theorem applyBlock_tidy {u : Unit} (h : n.Tidy) (hskip : skip.skipBlockLog = false)
    (hb : b.previous = n.headBlockId) (hroom : n.objects.headBlockNum + 1 < 2 ^ 32)
    (hstep : n.applyBlock skip pinned b = (n', .ok u)) : n'.Tidy := by
  obtain ⟨s, hs, hmigrate⟩ := applyBlock_ok hstep
  obtain ⟨blocks, -, hblocks, rfl⟩ := migrateIrreversibleState_ok hmigrate
  obtain ⟨htip, hext, -⟩ := tip_of_applyBlock hs h.tip hb hroom
  have htracks := h.tracks.start_set Extends.up hext
  refine ⟨htracks.commit _, ?_, htracks.commit_above Extends.up _,
    (le_max_left _ _).trans (blocksToWrite_log hblocks hskip).ge⟩
  intro t ht
  rcases mem_cons.1 ht with rfl | ht
  · exact htip
  · obtain ⟨e, he, rfl⟩ := mem_map.1 ht
    have hmem := (commit_shortens _ _).subset he
    exact h.tips _ (mem_map_of_mem (f := Prod.snd) hmem)

/-! ## Popping a branch -/

/-- Headers with one id have one parent. -/
def IdsFixParents (P : Params) : Prop :=
  ∀ h h' : SignedBlockHeader, P.blockId h = P.blockId h' → h.previous = h'.previous

def Descends (cr : Crypto) : BlockId → List ForkItem → BlockId → Prop
  | id, [], point => id = point
  | id, y :: ys, point => y.id cr = id ∧ Descends cr y.data.previous ys point

theorem descends_of_branch {cr : Crypto} {db : ForkDatabase cr}
    {y z : ForkItem} (h : db.Branch ys) (hhead : ys.head? = some y) (hlast : ys.getLast? = some z) :
    Descends cr (y.id cr) ys z.data.previous := by
  induction ys generalizing y with
  | nil => cases hhead
  | cons w ys ih =>
    cases hhead
    refine ⟨rfl, ?_⟩
    cases ys with
    | nil =>
      cases hlast
      rfl
    | cons p ys =>
      obtain ⟨hprev, hrest⟩ := isChain_cons_cons.1 h
      rw [← db.linked w p hprev]
      exact ih hrest rfl hlast

theorem undo_descends (hids : IdsFixParents P) {u : UndoStack Objects} (h : u.Tracks headBlockNum (Extends P))
    (hys : Descends P.toCrypto u.state.headBlockId ys point) (hlen : ys.length ≤ u.saved.length) :
    (undo^[ys.length] u).state.headBlockId = point ∧
      u.state.headBlockNum = (undo^[ys.length] u).state.headBlockNum + ys.length ∧
      (undo^[ys.length] u).Tracks headBlockNum (Extends P) := by
  induction ys generalizing u with
  | nil => exact ⟨hys, rfl, h⟩
  | cons y ys ih =>
    obtain ⟨e, saved, hsaved⟩ := exists_cons_of_length_pos (zero_lt_of_lt hlen)
    obtain ⟨hnum, b, hb, hprevious⟩ := h.of_cons hsaved
    have hundo : u.undo = ⟨e.2, u.revision - 1, saved⟩ := by rw [undo, hsaved]
    have hparent : y.data.previous = e.2.headBlockId := by
      rw [← hprevious]
      exact hids _ _ (hys.1.trans hb)
    have htail : Descends P.toCrypto u.undo.state.headBlockId ys point := by
      rw [hundo, ← hparent]
      exact hys.2
    have hlen' : ys.length ≤ u.undo.saved.length := by
      rw [hundo]
      rw [hsaved] at hlen
      exact le_of_succ_le_succ hlen
    obtain ⟨hpoint, hdown, htracks⟩ := ih (h.undo Extends.up) htail hlen'
    refine ⟨hpoint, ?_, htracks⟩
    rw [hundo] at hdown
    rw [length_cons, Function.iterate_succ_apply, hnum, hundo]
    change e.2.headBlockNum = _ at hdown
    omega

theorem popBlock_ok {x p : ForkItem} (hknown : n.forkDb.Knows n.headBlockId)
    (hhead : n.forkDb.head = some x) (hprev : n.forkDb.prev x = some p) (hp : p ∈ pinned) :
    ∃ txs, n.popBlock pinned = ({ n with
      pendingState := none
      forkDb := n.forkDb.setHead p
      db := n.db.undo
      poppedTx := txs }, .ok ()) := by
  obtain ⟨y, hy⟩ := Option.isSome_iff_exists.1 (fetchBlock_isSome_iff.2 hknown)
  have hfetch : ({ n with pendingState := none } : Node P).fetchBlockById n.headBlockId =
      some y.data := by
    unfold fetchBlockById
    rw [hy]
  have hparent : n.forkDb.parent pinned x = some p :=
    parent_eq_some_iff.2 ⟨hprev, mem_append_right _ hp⟩
  have hpop : n.forkDb.popBlock pinned = .ok (n.forkDb.setHead p) := by
    rw [ForkDatabase.popBlock, hhead]
    simp only [hparent]
  refine ⟨y.data.transactions ++ n.poppedTx, ?_⟩
  unfold popBlock
  simp only [headBlockId, objects] at hfetch ⊢
  simp only [hfetch, hpop]

theorem popUntil_branch (hids : IdsFixParents P) {x : ForkItem} {xs : List ForkItem} {fuel : Nat}
    (h : n.db.Tracks headBlockNum (Extends P)) (htips : ∀ s ∈ n.db.states, s.TipOk)
    (hys : Descends P.toCrypto n.headBlockId ys point) (hlen : ys.length ≤ n.db.saved.length)
    (hknown : ∀ y ∈ ys, n.forkDb.Knows (y.id P.toCrypto)) (hhead : n.forkDb.head = some x)
    (hxs : n.forkDb.Branch (x :: xs)) (hlong : ys.length ≤ xs.length) (hpinned : ∀ z ∈ xs, z ∈ pinned)
    (hfuel : ys.length < fuel) :
    ∃ n' x', popUntil pinned point fuel n = (n', .ok ()) ∧
      n'.db = undo^[ys.length] n.db ∧ n'.forkDb = n.forkDb.setHead x' ∧
      n'.blockLog = n.blockLog := by
  induction ys generalizing n x xs fuel with
  | nil =>
    obtain ⟨fuel, rfl⟩ := Nat.exists_eq_add_of_lt hfuel
    refine ⟨n, x, ?_, rfl, ?_, rfl⟩
    · unfold popUntil
      rw [if_pos (show n.headBlockId = point from hys)]
    · rw [ForkDatabase.setHead, ← hhead]
  | cons y ys ih =>
    obtain ⟨fuel, rfl⟩ : ∃ f, fuel = f + 1 := ⟨fuel - 1, by omega⟩
    obtain ⟨hpoint, hdown, -⟩ := undo_descends hids h hys hlen
    have hne : n.headBlockId ≠ point := by
      intro heq
      have htip := (htips n.db.state (.head _)).1
      have htip' := (htips (undo^[(y :: ys).length] n.db).state
        ((undo_iterate_states_suffix _).subset (.head _))).1
      rw [hpoint, ← heq] at htip'
      have hsame : n.db.state.headBlockNum = n.headBlockId.num := htip
      rw [length_cons] at hdown htip'
      omega
    cases xs with
    | nil => exact absurd hlong (by simp)
    | cons p xs =>
      obtain ⟨hprev, hrest⟩ := isChain_cons_cons.1 hxs
      have hheadKnown : n.forkDb.Knows n.headBlockId := by
        rw [← hys.1]
        exact hknown y (.head _)
      obtain ⟨txs, hpop⟩ := popBlock_ok hheadKnown hhead hprev (hpinned p (.head _))
      obtain ⟨e, saved, hsaved⟩ := exists_cons_of_length_pos (Nat.zero_lt_of_lt hlen)
      have hundo : n.db.undo = ⟨e.2, n.db.revision - 1, saved⟩ := by rw [undo, hsaved]
      obtain ⟨-, b, hb, hprevious⟩ := h.of_cons hsaved
      have hnext : n.db.undo.state.headBlockId = y.data.previous := by
        rw [hundo, ← hprevious]
        exact hids _ _ (hb.symm.trans hys.1.symm)
      obtain ⟨n', x', hrun, hdb, hfork, hlog⟩ := ih
        (n := { n with
          pendingState := none
          forkDb := n.forkDb.setHead p
          db := n.db.undo
          poppedTx := txs }) (x := p)
        (h.undo Extends.up)
        (fun s hs => htips s (by
          rw [hundo] at hs
          rw [states, hsaved]
          exact .tail _ hs))
        (by
          change Descends P.toCrypto n.db.undo.state.headBlockId ys point
          rw [hnext]
          exact hys.2)
        (by
          change ys.length ≤ n.db.undo.saved.length
          rw [hundo]
          rw [hsaved] at hlen
          exact Nat.le_of_succ_le_succ hlen)
        (fun z hz => hknown z (.tail _ hz)) rfl hrest
        (Nat.le_of_succ_le_succ hlong) (fun z hz => hpinned z (.tail _ hz))
        (Nat.lt_of_succ_lt_succ hfuel)
      refine ⟨n', x', ?_, hdb, hfork, hlog⟩
      unfold popUntil
      rw [if_neg hne, hpop]
      exact hrun

def trimmed (n : Node P) : ForkDatabase P.toCrypto :=
  (n.forkDb.setMaxSize ((n.objects.headBlockNum + 2 ^ 32 -
    n.objects.lib + 1) % 2 ^ 32)).setMaxSize xgtForkDbMaxSize

theorem migrateIrreversibleState_quiet (hhead : n.checkForkHead = .ok ())
    (hlog : n.objects.lib ≤ n.logHeadNum) (hsaved : ∀ e ∈ n.db.saved, n.objects.lib < e.1) :
    n.migrateIrreversibleState skip pinned = .ok { n with forkDb := n.trimmed } := by
  have hblocks : n.blocksToWrite skip pinned = .ok [] := by
    unfold blocksToWrite
    rw [Nat.sub_eq_zero_of_le hlog]
    split_ifs <;> rfl
  unfold migrateIrreversibleState
  rw [hhead, hblocks]
  simp only [bind, Except.bind, pure, Except.pure, append_nil, commit_eq_self hsaved]
  rfl

structure Keeps (level : Nat) (F F' : ForkDatabase P.toCrypto) : Prop where
  prev : F'.prev = F.prev
  known : ∀ id : BlockId, level ≤ id.num → F.Knows id → F'.Knows id

theorem Keeps.trans {F F' F'' : ForkDatabase P.toCrypto} (h : Keeps level F F')
    (h' : Keeps level F' F'') : Keeps level F F'' :=
  ⟨h'.prev.trans h.prev, fun id hid hknown => h'.known id hid (h.known id hid hknown)⟩

theorem Keeps.setHead (level : Nat) (F : ForkDatabase P.toCrypto) (x : ForkItem) :
    Keeps level F (F.setHead x) := ⟨rfl, fun _ _ h => h⟩

theorem trimmed_keeps (hhead : n.checkForkHead = .ok ()) (htip : n.objects.TipOk)
    (hlevel : n.objects.lib ≤ level) : Keeps level n.forkDb n.trimmed := by
  refine ⟨by simp [trimmed], fun id hid hknown => ?_⟩
  unfold checkForkHead at hhead
  split at hhead
  · next h hh =>
    have hnum : h.num = n.objects.headBlockNum := by simpa using hhead
    have hlib := htip.2
    have hwit : xgtMaxWitnesses = 10 := rfl
    have hsize : xgtForkDbMaxSize = 1024 := rfl
    refine (hknown.setMaxSize hh ?_).setMaxSize (by rw [setMaxSize_head, hh]) ?_
    · omega
    · omega
  · next hh =>
    have hkept (F : ForkDatabase P.toCrypto) (size : Nat) (hF : F.head = none) (hid : F.Knows id) :
        (F.setMaxSize size).Knows id := by
      rw [ForkDatabase.setMaxSize, hF]
      exact hid
    exact hkept _ _ (by rw [setMaxSize_head, hh]) (hkept _ _ hh hknown)

structure Deep (level : Nat) (n : Node P) : Prop where
  saved : ∀ e ∈ n.db.saved, level < e.1
  revision : level ≤ n.db.revision
  log : level ≤ n.logHeadNum

theorem applyBlock_deep (hdeep : n.Deep level) (htip : n.objects.TipOk) (hb : b.previous = n.headBlockId)
    (hroom : n.objects.headBlockNum + 1 < 2 ^ 32) (hlow : b.blockNum ≤ level + xgtMaxWitnesses)
    (hs : n.objects.applyBlock P (n.env skip false) b = .ok s)
    (hhead : ({ n.hand b with db := n.db.start.set s } : Node P).checkForkHead = .ok ()) :
    ∃ n', n.applyBlock skip pinned b = (n', .ok ()) ∧ n'.db = n.db.start.set s ∧
      n'.blockLog = n.blockLog ∧ Keeps level n.forkDb n'.forkDb ∧ n'.Deep level := by
  obtain ⟨htip', hext, hnum⟩ := tip_of_applyBlock hs htip hb hroom
  have hlib : s.lib ≤ level := by
    rw [htip'.2, hnum]
    omega
  have hsaved : ∀ e ∈ (n.db.start.set s).saved, level < e.1 := by
    rintro e (⟨⟩ | ⟨_, he⟩)
    · exact lt_succ_of_le hdeep.revision
    · exact hdeep.saved e he
  let m : Node P := { n.hand b with db := n.db.start.set s }
  have hmigrate : m.migrateIrreversibleState skip pinned = .ok { m with forkDb := m.trimmed } :=
    migrateIrreversibleState_quiet hhead (hlib.trans hdeep.log) fun e he =>
      hlib.trans_lt (hsaved e he)
  exact ⟨_, applyBlock_of_ok hs hmigrate, rfl, rfl, trimmed_keeps hhead htip' hlib, hsaved,
    hdeep.revision.trans (le_succ _), hdeep.log⟩

/-! ## Applying a branch -/

section ApplyBranch

variable {xs : List ForkItem}

theorem applyBranch_tidy {r : Option (Exc × List ForkItem)} (h : n.Tidy)
    (hskip : skip.skipBlockLog = false) (hxs : ForkDatabase.BuildsOn P.toCrypto n.headBlockId xs)
    (hroom : n.objects.headBlockNum + xs.length < 2 ^ 32) (hstep : applyBranch skip pinned xs n = (n', r)) :
    n'.Tidy := by
  induction xs generalizing n with
  | nil =>
    cases hstep
    exact h
  | cons x xs ih =>
    rw [length_cons] at hroom
    have h0 : ({ n with forkDb := n.forkDb.setHead x } : Node P).Tidy := h.of_eq rfl rfl
    unfold applyBranch at hstep
    split at hstep
    · next n1 _ hblock =>
      have h1 := applyBlock_tidy h0 hskip hxs.1 (show n.objects.headBlockNum + 1 < 2 ^ 32 by omega) hblock
      obtain ⟨s, hs, hmigrate⟩ := applyBlock_ok hblock
      obtain ⟨blocks, -, -, rfl⟩ := migrateIrreversibleState_ok hmigrate
      obtain ⟨-, hext, -⟩ := tip_of_applyBlock hs h0.tip hxs.1
        (show n.objects.headBlockNum + 1 < 2 ^ 32 by omega)
      refine ih h1 ?_ ?_ hstep
      · rw [applyBlock_headBlockId hblock]
        exact hxs.2
      · have hnum : s.headBlockNum = n.objects.headBlockNum + 1 := hext.1
        change s.headBlockNum + xs.length < 2 ^ 32
        omega
    · next hblock =>
      cases hstep
      rw [applyBlock_error hblock]
      exact h.of_eq rfl rfl

theorem Descends.concat {cr : Crypto} {id mid point : BlockId} {ys : List ForkItem} {x : ForkItem}
    (h : Descends cr id ys mid) (hx : x.id cr = mid) (hpoint : x.data.previous = point) :
    Descends cr id (ys ++ [x]) point := by
  induction ys generalizing id with
  | nil => exact ⟨hx.trans h.symm, hpoint⟩
  | cons y ys ih => exact ⟨h.1, ih h.2⟩

structure Failed (level : Nat) (n n' : Node P) (done rest : List ForkItem) : Prop where
  deep : n'.Deep level
  undone : undo^[done.length] n'.db = n.db
  saved : n'.db.saved.length = n.db.saved.length + done.length
  descends : Descends P.toCrypto n'.headBlockId done.reverse n.headBlockId
  log : n'.blockLog = n.blockLog
  keeps : Keeps level n.forkDb n'.forkDb
  head : n'.forkDb.head = rest.head?

theorem applyBranch_failed {level : Nat} {e : Exc} {rest : List ForkItem} (hdeep : n.Deep level)
    (htip : n.objects.TipOk) (hxs : ForkDatabase.BuildsOn P.toCrypto n.headBlockId xs)
    (hroom : n.objects.headBlockNum + xs.length < 2 ^ 32)
    (hlow : ∀ x ∈ xs.dropLast, x.num ≤ level + xgtMaxWitnesses)
    (hstep : applyBranch skip pinned xs n = (n', some (e, rest))) :
    ∃ done, xs = done ++ rest ∧ rest ≠ [] ∧ Failed level n n' done rest := by
  induction xs generalizing n with
  | nil => cases hstep
  | cons x xs ih =>
    rw [length_cons] at hroom
    have hroom1 : n.objects.headBlockNum + 1 < 2 ^ 32 := by omega
    unfold applyBranch at hstep
    split at hstep
    · next n1 _ hblock =>
      obtain ⟨s, hs, hmigrate⟩ := applyBlock_ok hblock
      obtain ⟨-, hhead, -, -⟩ := migrateIrreversibleState_ok hmigrate
      obtain ⟨htip1, hext, -⟩ := tip_of_applyBlock hs htip hxs.1 hroom1
      have hmore : xs ≠ [] := by
        rintro rfl
        cases hstep
      have hx : x.num ≤ level + xgtMaxWitnesses :=
        hlow x (by rw [dropLast_cons_of_ne_nil hmore]; exact .head _)
      have hdeep0 : ({ n with forkDb := n.forkDb.setHead x } : Node P).Deep level :=
        ⟨hdeep.saved, hdeep.revision, hdeep.log⟩
      obtain ⟨n2, hrun, hdb2, hlog2, hkeeps, hdeep2⟩ :=
        applyBlock_deep hdeep0 htip hxs.1 hroom1 hx hs hhead
      rw [hblock] at hrun
      cases hrun
      have hid := applyBlock_headBlockId hblock
      have hobjects : n1.objects = s := by rw [objects, hdb2]; rfl
      have hnum : s.headBlockNum = n.objects.headBlockNum + 1 := hext.1
      obtain ⟨done, rfl, hne, hfailed⟩ := ih hdeep2 (by rw [hobjects]; exact htip1)
        (by rw [hid]; exact hxs.2) (by rw [hobjects]; omega)
        (fun z hz => hlow z (by
          rw [dropLast_cons_of_ne_nil hmore]
          exact .tail _ hz)) hstep
      refine ⟨x :: done, rfl, hne, hfailed.deep, ?_, ?_, ?_, hfailed.log.trans hlog2,
        ((Keeps.setHead level n.forkDb x).trans hkeeps).trans hfailed.keeps, hfailed.head⟩
      · rw [length_cons, Function.iterate_succ_apply', hfailed.undone, hdb2]
        exact undo_set_start _ _
      · rw [hfailed.saved, length_cons, hdb2]
        change n.db.saved.length + 1 + done.length = _
        omega
      · rw [reverse_cons]
        exact hfailed.descends.concat hid.symm hxs.1
    · next n1 _ hblock =>
      cases hstep
      rw [applyBlock_error hblock]
      exact ⟨[], rfl, cons_ne_nil _ _, ⟨hdeep.saved, hdeep.revision, hdeep.log⟩, rfl, rfl, rfl,
        rfl, Keeps.setHead level n.forkDb x, rfl⟩

end ApplyBranch

/-! ## Going back to a branch -/

section Replay

structure Sees (P : Params) (log : List SignedBlock) (skip : SkipFlags) (env : Env) : Prop where
  skip : env.skip = skip
  producing : env.producing = false
  pendingTx : env.pendingTx = false
  fetchBlockById : ∀ id b, env.fetchBlockById id = some b → P.blockId b.toSignedBlockHeader = id
  fetchPriorBlock : ∀ num b, log.find? (fun b => b.blockNum = num) = some b →
    env.fetchPriorBlock num = some b

theorem env_sees (n : Node P) (skip : SkipFlags) : Sees P n.blockLog skip (n.env skip false) := by
  refine ⟨rfl, rfl, rfl, ?_, ?_⟩
  · intro id b hb
    unfold env fetchBlockById at hb
    dsimp only at hb
    split at hb
    · next hx =>
      cases hb
      exact id_of_fetchBlock hx
    · simpa using (Option.filter_eq_some_iff.1 hb).2
  · intro num b hb
    have hb' : n.readBlockByNum num = some b := hb
    simp [env, fetchPriorBlock, hb']

def Replays (P : Params) (env : Env → Prop) : List ForkItem → Objects → List (Nat × Objects) → Prop
  | [], _, _ => True
  | _ :: _, _, [] => False
  | y :: ys, s, e :: saved =>
    (∀ v, env v → e.2.applyBlock P v y.data = .ok s) ∧ Replays P env ys e.2 saved

variable {ys : List ForkItem}

theorem Replays.length_le {env : Env → Prop} {s : Objects}
    {saved : List (Nat × Objects)} (h : Replays P env ys s saved) : ys.length ≤ saved.length := by
  induction ys generalizing s saved with
  | nil => exact zero_le _
  | cons y ys ih =>
    cases saved with
    | nil => exact h.elim
    | cons e saved => exact succ_le_succ (ih h.2)

theorem applyBranch_append {xs ys : List ForkItem} (h : applyBranch skip pinned xs n = (n', none)) :
    applyBranch skip pinned (xs ++ ys) n = applyBranch skip pinned ys n' := by
  induction xs generalizing n with
  | nil =>
    cases h
    rfl
  | cons x xs ih =>
    unfold applyBranch at h
    split at h
    · next heq =>
      rw [cons_append, applyBranch, heq]
      exact ih h
    · cases h

theorem applyBranch_replays (pinned : List ForkItem) (hids : IdsFixParents P) {level : Nat}
    {u : UndoStack Objects} {point : BlockId} (h : u.Tracks headBlockNum (Extends P))
    (htips : ∀ s ∈ u.states, s.TipOk) (hroom : u.state.headBlockNum < 2 ^ 32)
    (hlow : u.state.headBlockNum ≤ level + xgtMaxWitnesses) (habove : ∀ e ∈ u.saved, level < e.1)
    (hlevel : level ≤ n.logHeadNum) (hys : Descends P.toCrypto u.state.headBlockId ys point)
    (hreplay : Replays P (Sees P n.blockLog skip) ys u.state u.saved)
    (hdb : n.db = undo^[ys.length] u) :
    ∃ n', applyBranch skip pinned ys.reverse n = (n', none) ∧ n'.db = u ∧
      n'.blockLog = n.blockLog := by
  induction ys generalizing u with
  | nil => exact ⟨n, rfl, hdb, rfl⟩
  | cons y ys ih =>
    obtain ⟨e, saved, hsaved⟩ := exists_cons_of_length_pos (zero_lt_of_lt hreplay.length_le)
    rw [hsaved] at hreplay
    have hundo : u.undo = ⟨e.2, u.revision - 1, saved⟩ := by rw [undo, hsaved]
    have htracks := h.undo Extends.up
    have hsub : u.undo.states ⊆ u.states := by
      rw [hundo, states, states, hsaved]
      exact subset_cons_self _ _
    obtain ⟨hnum, b, hb, hprevious⟩ := h.of_cons hsaved
    have hparent : y.data.previous = e.2.headBlockId := by
      rw [← hprevious]
      exact hids _ _ (hys.1.trans hb)
    have hbelow : ∀ e' ∈ u.undo.saved, level < e'.1 := by
      intro e' he'
      rw [hundo] at he'
      exact habove e' (by rw [hsaved]; exact .tail _ he')
    have hstate : u.undo.state = e.2 := by rw [hundo]
    obtain ⟨n1, hrun, hdb1, hlog1⟩ := ih htracks (fun s hs => htips s (hsub hs))
      (by rw [hstate]; omega) (by rw [hstate]; omega) hbelow
      (by rw [hstate, ← hparent]; exact hys.2) (by rw [hundo]; exact hreplay.2) hdb
    -- The last block leads from the state below the top of the stack to the top.
    have hpos : level ≤ n1.db.revision := by
      have he := habove e (by rw [hsaved]; exact .head _)
      have hlev := h.levels e (by rw [hsaved]; exact .head _)
      rw [hdb1, htracks.revision, hstate]
      omega
    have htop : u.state.TipOk := htips u.state (.head _)
    have hynum : y.num = u.state.headBlockNum := by
      rw [htop.1, ← hys.1]
      rfl
    let n2 : Node P := { n1 with forkDb := n1.forkDb.setHead y }
    have hdeep : n2.Deep level := by
      refine ⟨?_, hpos, ?_⟩
      · change ∀ e' ∈ n1.db.saved, level < e'.1
        rw [hdb1]
        exact hbelow
      · change level ≤ n1.logHeadNum
        rw [logHeadNum, hlog1]
        exact hlevel
    have hobjects : n2.objects = e.2 := by rw [objects, hdb1, hstate]
    have htip : n2.objects.TipOk := by
      rw [hobjects]
      exact htips _ (hsub (by rw [← hstate]; exact .head _))
    have happly : n2.objects.applyBlock P (n2.env skip false) y.data = .ok u.state := by
      rw [hobjects]
      exact hreplay.1 _ (hlog1 ▸ n2.env_sees skip)
    have hhead : ({ n2.hand y.data with db := n2.db.start.set u.state } : Node P).checkForkHead =
        .ok () := by
      change fcAssert (y.num = u.state.headBlockNum) "Fork Head" = _
      simpa using hynum
    obtain ⟨n3, hblock, hdb3, hlog3, -⟩ := applyBlock_deep hdeep htip
      (by rw [headBlockId, hobjects, hparent]) (by rw [hobjects]; omega)
      (show y.num ≤ _ by omega) happly hhead
    refine ⟨n3, ?_, ?_, hlog3.trans hlog1⟩
    · rw [reverse_cons, applyBranch_append hrun]
      unfold applyBranch
      rw [hblock]
      rfl
    · rw [hdb3, hdb1]
      exact h.redo Extends.up hsaved

end Replay

end Node

end Xgt
