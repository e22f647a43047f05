import XgtChain.Chain.Unwinding

/-!
# Chains without forks

A node that has only seen one chain accepts every block that builds on its head and that `_apply_block`
accepts.
-/

namespace Xgt

open Base ForkDatabase List

namespace Node

variable {P : Params} {n n' : Node P} {skip : SkipFlags} {b : SignedBlock}

/-- The node has seen one chain: there is one block of each height above the block log, the last is the
head, and nothing is pending. -/
structure OneChain (n : Node P) : Prop where
  unlinked : n.forkDb.unlinked = []
  head : n.forkDb.head = none ∧ n.objects.headBlockNum = 0 ∨
    ∃ h ∈ n.forkDb.index, n.forkDb.head = some h ∧ h.id P.toCrypto = n.headBlockId
  nums : ∀ x ∈ n.forkDb.index, x.num ≤ n.objects.headBlockNum
  single : ∀ num, n.logHeadNum < num → num ≤ n.objects.headBlockNum →
    ∃ x, n.forkDb.fetchBlockByNumber num = [x]
  tip : n.objects.TipOk
  log : n.objects.lib ≤ n.logHeadNum
  logged : ∀ num, 1 ≤ num → num ≤ n.logHeadNum → (n.readBlockByNum num).isSome
  idle : n.pendingTx = [] ∧ n.poppedTx = [] ∧ n.checkpoints = []

/-- A node that has seen one chain and whose block log ends with the last irreversible block. -/
structure Linear (n : Node P) : Prop extends n.OneChain where
  written : n.logHeadNum = n.objects.lib

structure SeesLog (P : Params) (skip : SkipFlags) (logHead : Nat) (env : Env) : Prop where
  skip : env.skip = skip
  producing : env.producing = false
  pendingTx : env.pendingTx = false
  random : ∃ d, env.random = P.random d
  fetchPriorBlock : ∀ num, 1 ≤ num → num ≤ logHead → (env.fetchPriorBlock num).isSome

theorem env_seesLog (hlogged : ∀ num, 1 ≤ num → num ≤ n.logHeadNum → (n.readBlockByNum num).isSome) :
    SeesLog P skip n.logHeadNum (n.env skip false) := by
  refine ⟨rfl, rfl, rfl, ⟨_, rfl⟩, fun num hpos hle => ?_⟩
  change ((n.readBlockByNum num).or _).isSome
  rw [Option.isSome_or, hlogged num hpos hle]
  rfl

theorem blocksToWrite_single (pinned : List ForkItem) {h : ForkItem} (hskip : skip.skipBlockLog = false)
    (hhead : n.forkDb.head = some h) (hle : n.objects.lib ≤ h.num)
    (hsingle : ∀ num, n.logHeadNum < num → num ≤ n.objects.lib →
      ∃ x, n.forkDb.fetchBlockByNumber num = [x]) :
    ∃ blocks, n.blocksToWrite skip pinned = .ok blocks ∧
      (∀ num, n.logHeadNum < num → num ≤ n.objects.lib →
        ∃ b ∈ blocks, b.blockNum = num) ∧
      ∀ b ∈ blocks, ∃ x ∈ n.forkDb.index, x.data = b := by
  have hblock : ∀ num ∈ List.range' (n.logHeadNum + 1)
      (n.objects.lib - n.logHeadNum),
      ∃ b, n.mainBranchBlock pinned num = .ok b ∧
        b.blockNum = num ∧ ∃ x ∈ n.forkDb.index, x.data = b := by
    intro num hnum
    rw [mem_range'_1] at hnum
    obtain ⟨x, hx⟩ := hsingle num (by omega) (by omega)
    have hfetch : n.forkDb.fetchBlockOnMainBranchByNumber pinned num = some x := by
      rw [ForkDatabase.fetchBlockOnMainBranchByNumber, hhead]
      dsimp only
      rw [if_neg (by omega), hx]
    have hmem : x ∈ n.forkDb.index := by
      refine mem_of_mem_filter (p := fun y : ForkItem => y.num = num) ?_
      rw [← ForkDatabase.fetchBlockByNumber, hx]
      exact mem_singleton_self x
    refine ⟨x.data, ?_, fetchBlockOnMainBranchByNumber_num hfetch, x, hmem, rfl⟩
    rw [mainBranchBlock, hfetch]
  obtain ⟨blocks, hblocks, hwritten, hfrom⟩ := mapM_ok_of_forall hblock
  refine ⟨blocks, ?_, fun num hlow hhigh => ?_, fun b hb => ?_⟩
  · rw [blocksToWrite, if_neg (by simp [hskip]), hblocks]
  · obtain ⟨b, hb, hbnum, -⟩ := hwritten num (by rw [mem_range'_1]; omega)
    exact ⟨b, hb, hbnum⟩
  · obtain ⟨num, -, -, hx⟩ := hfrom b hb
    exact hx

/-! ## Extending the chain -/

section Extend

variable {s : Objects} {x : ForkItem}
variable {F : ForkDatabase P.toCrypto} {blocks : List SignedBlock} (budget : Nat)

def extended (n : Node P) (b : SignedBlock) (s : Objects) (F : ForkDatabase P.toCrypto)
    (blocks : List SignedBlock) : Node P :=
  { n.clearPending.hand b with
    db := (n.db.start.set s).commit s.lib
    forkDb := (F.setMaxSize ((s.headBlockNum + 2 ^ 32 - s.lib + 1) %
      2 ^ 32)).setMaxSize xgtForkDbMaxSize
    blockLog := n.blockLog ++ blocks }

theorem single_of_concat {num : Nat} (h : n.OneChain) (hindex : F.index = n.forkDb.index ++ [x])
    (hx : x.num = n.objects.headBlockNum + 1) (hlow : n.logHeadNum < num)
    (hhigh : num ≤ n.objects.headBlockNum + 1) : ∃ y, F.fetchBlockByNumber num = [y] := by
  rw [ForkDatabase.fetchBlockByNumber, hindex, filter_append]
  rcases Nat.lt_or_ge n.objects.headBlockNum num with hnew | hold
  · refine ⟨x, ?_⟩
    have hold : n.forkDb.index.filter (fun y => y.num = num) = [] := by
      refine filter_eq_nil_iff.2 fun y hy => ?_
      have hle := h.nums y hy
      simp only [decide_eq_true_iff]
      omega
    have hsame : x.num = num := by omega
    rw [hold, filter_singleton, hsame, decide_eq_true rfl]
    rfl
  · obtain ⟨y, hy⟩ := h.single num hlow hold
    refine ⟨y, ?_⟩
    rw [ForkDatabase.fetchBlockByNumber] at hy
    have hdiffer : x.num ≠ num := by omega
    rw [hy, filter_singleton, decide_eq_false hdiffer]
    rfl

theorem oneChain_extended (h : n.OneChain) (htip : s.TipOk)
    (hnum : s.headBlockNum = n.objects.headBlockNum + 1) (hx : x.num = s.headBlockNum)
    (hid : x.id P.toCrypto = s.headBlockId) (hindex : F.index = n.forkDb.index ++ [x])
    (hunlinked : F.unlinked = []) (hhead : F.head = some x)
    (hlog : (n.extended b s F blocks).logHeadNum = max s.lib n.logHeadNum)
    (hblocks : ∀ num, n.logHeadNum < num → num ≤ s.lib → ∃ b ∈ blocks, b.blockNum = num) :
    (n.extended b s F blocks).OneChain := by
  have hlib : s.lib = s.headBlockNum - xgtMaxWitnesses := htip.2
  have hten : xgtMaxWitnesses = 10 := rfl
  have hmax : xgtForkDbMaxSize = 1024 := rfl
  let size := (s.headBlockNum + 2 ^ 32 - s.lib + 1) % 2 ^ 32
  have hsize : x.num - size ≤ s.lib := by omega
  have hmax' : x.num - xgtForkDbMaxSize ≤ s.lib := by omega
  have hhead' : (F.setMaxSize size).head = some x := by rw [setMaxSize_head, hhead]
  have hmem : x ∈ ((F.setMaxSize size).setMaxSize xgtForkDbMaxSize).index := by
    rw [mem_setMaxSize_index hhead', mem_setMaxSize_index hhead, hindex]
    exact ⟨⟨mem_append_right _ (mem_singleton_self x), Nat.sub_le _ _⟩, Nat.sub_le _ _⟩
  refine ⟨?_, .inr ⟨x, hmem, ?_, hid⟩, ?_, ?_, htip, hlog ▸ le_max_left _ _, ?_, rfl, h.idle.2⟩
  · exact setMaxSize_unlinked (setMaxSize_unlinked hunlinked)
  · change ((F.setMaxSize size).setMaxSize xgtForkDbMaxSize).head = some x
    rw [setMaxSize_head, hhead']
  · intro y hy
    change y.num ≤ s.headBlockNum
    obtain ⟨hy, -⟩ := (mem_setMaxSize_index hhead').1 hy
    obtain ⟨hy, -⟩ := (mem_setMaxSize_index hhead).1 hy
    rw [hindex] at hy
    rcases mem_append.1 hy with hy | hy
    · have hle := h.nums y hy
      omega
    · rw [mem_singleton.1 hy, hx]
  · intro num hlow hhigh
    rw [hlog, max_lt_iff] at hlow
    change num ≤ s.headBlockNum at hhigh
    change ∃ y, ((F.setMaxSize size).setMaxSize xgtForkDbMaxSize).fetchBlockByNumber num = [y]
    rw [fetchBlockByNumber_setMaxSize hhead' (by omega),
      fetchBlockByNumber_setMaxSize hhead (by omega)]
    exact single_of_concat h hindex (by omega) hlow.2 (by omega)
  · intro num hpos hle
    rw [hlog] at hle
    change ((n.blockLog ++ blocks).find? fun b => decide (b.blockNum = num)).isSome
    rw [find?_isSome]
    rcases Nat.lt_or_ge n.logHeadNum num with hnew | hold
    · obtain ⟨b, hb, hbnum⟩ := hblocks num hnew ((le_max_iff.1 hle).resolve_right (by omega))
      exact ⟨b, mem_append_right _ hb, decide_eq_true hbnum⟩
    · have hfound := h.logged num hpos hold
      rw [readBlockByNum, find?_isSome] at hfound
      obtain ⟨b, hb, hbnum⟩ := hfound
      exact ⟨b, mem_append_left _ hb, hbnum⟩

theorem linear_init (P : Params) : (init P).Linear where
  unlinked := rfl
  head := .inl ⟨rfl, rfl⟩
  nums := by nofun
  single num hlow hhigh := by
    change 0 < num at hlow
    change num ≤ 0 at hhigh
    omega
  tip := ⟨rfl, rfl⟩
  log := le_rfl
  logged num hpos hle := by
    change num ≤ 0 at hle
    omega
  idle := ⟨rfl, rfl, rfl⟩
  written := rfl

def received (n : Node P) (b : SignedBlock) : Node P :=
  { n.clearPending with forkDb := (n.forkDb.pushBlock b).1 }

structure ExtendedBy (n : Node P) (b : SignedBlock) (s : Objects) (n' : Node P) : Prop where
  oneChain : n'.OneChain
  db : n'.db = (n.db.start.set s).commit s.lib
  items : ∀ x ∈ n'.forkDb.index, x ∈ n.forkDb.index ∨ x.data = b
  log : ∀ c ∈ n'.blockLog, c ∈ n.blockLog ∨ c = b ∨ ∃ x ∈ n.forkDb.index, x.data = c
  logHead : n'.logHeadNum = max s.lib n.logHeadNum
  kept : s.lib ≤ n.logHeadNum → n'.blockLog = n.blockLog

theorem ExtendedBy.linear {n' : Node P} (h : n.ExtendedBy b s n') (hn : n.Linear)
    (hnum : n.objects.headBlockNum ≤ s.headBlockNum) : n'.Linear := by
  have hstate : n'.objects = s := by rw [objects, h.db]; rfl
  have htip := h.oneChain.tip.2
  rw [hstate] at htip
  refine ⟨h.oneChain, h.logHead.trans ?_⟩
  rw [hstate, hn.written, hn.tip.2, htip]
  exact max_eq_left (Nat.sub_le_sub_right hnum _)

theorem extended_items {y : ForkItem}
    (hhead : F.head = some x) (hy : y ∈ (n.extended b s F blocks).forkDb.index) : y ∈ F.index := by
  obtain ⟨hy, -⟩ := (mem_setMaxSize_index
    (by rw [setMaxSize_head, hhead])).1 hy
  exact ((mem_setMaxSize_index hhead).1 hy).1

theorem received_forkDb (h : n.OneChain) (hb : b.previous = n.headBlockId)
    (hnum : b.blockNum = n.objects.headBlockNum + 1) :
    n.forkDb.pushBlock b = ((n.received b).forkDb, .ok ⟨n.forkDb.nextSerial, b⟩) ∧
      (n.received b).forkDb.index = n.forkDb.index ++ [⟨n.forkDb.nextSerial, b⟩] ∧
      (n.received b).forkDb.unlinked = [] ∧
      (n.received b).forkDb.head = some ⟨n.forkDb.nextSerial, b⟩ := by
  obtain ⟨F, hpush, hrest⟩ := pushBlock_child (b := b) h.unlinked
    (h.head.imp And.left fun ⟨x, hx, hhead, hid⟩ => ⟨x, hx, hhead, hid.trans hb.symm⟩)
    (fun x hx => by have := h.nums x hx; omega)
  have hreceived : (n.received b).forkDb = F := congrArg Prod.fst hpush
  rw [hreceived]
  exact ⟨hpush, hrest⟩

theorem pushBlock_onto (h : n.OneChain) (hforkDb : skip.skipForkDb = false)
    (hblockLog : skip.skipBlockLog = false) (hb : b.previous = n.headBlockId)
    (hroom : n.objects.headBlockNum + 1 < 2 ^ 32)
    (hs : n.objects.applyBlock P ((n.received b).env skip false) b = .ok s) :
    (n.pushBlock skip budget b).2 = .ok false ∧
      n.ExtendedBy b s (n.pushBlock skip budget b).1 := by
  obtain ⟨htip, hext, hbnum⟩ := tip_of_applyBlock hs h.tip hb hroom
  have htips := Objects.applyBlock_tip hs
  have hnum : s.headBlockNum = n.objects.headBlockNum + 1 := hext.1
  have hlib : s.lib = s.headBlockNum - xgtMaxWitnesses := htip.2
  have hlib0 : n.objects.lib = n.objects.headBlockNum - xgtMaxWitnesses :=
    h.tip.2
  obtain ⟨hpush, hindex, hunlinked, hhead⟩ := received_forkDb h hb (hbnum.symm.trans hnum)
  let x : ForkItem := ⟨n.forkDb.nextSerial, b⟩
  let F := (n.received b).forkDb
  let m : Node P := { (n.received b).hand b with db := n.db.start.set s }
  have hsingle : ∀ num, m.logHeadNum < num → num ≤ m.objects.lib →
      ∃ y, m.forkDb.fetchBlockByNumber num = [y] := by
    intro num hlow hhigh
    change n.logHeadNum < num at hlow
    change num ≤ s.lib at hhigh
    exact single_of_concat h hindex (show x.num = _ from hbnum.symm.trans hnum) hlow (by omega)
  obtain ⟨blocks, hblocks, hwritten, hfrom⟩ := blocksToWrite_single (n := m) [] hblockLog hhead
    (show s.lib ≤ b.blockNum by omega) hsingle
  have hfork : m.checkForkHead = .ok () := by
    rw [checkForkHead, show m.forkDb.head = some x from hhead]
    exact fcAssert_ok hbnum.symm
  have hmigrate : m.migrateIrreversibleState skip [] = .ok (n.extended b s F blocks) := by
    rw [migrateIrreversibleState, hfork, hblocks]
    rfl
  have hlog : (n.extended b s F blocks).logHeadNum =
      max s.lib n.logHeadNum := blocksToWrite_log hblocks hblockLog
  have hone : (n.extended b s F blocks).OneChain := by
    refine oneChain_extended h htip hnum (show x.num = _ from hbnum.symm) ?_ hindex hunlinked hhead
      hlog hwritten
    exact (congrArg (fun t => t.2.1) htips).symm
  have hkept (hle : s.lib ≤ n.logHeadNum) :
      n.blockLog ++ blocks = n.blockLog := by
    have hnil : blocks = [] := by
      unfold blocksToWrite at hblocks
      rw [if_neg (by simp [hblockLog])] at hblocks
      change (List.range' (n.logHeadNum + 1) (s.lib - n.logHeadNum)).mapM _ = _
        at hblocks
      rw [Nat.sub_eq_zero_of_le hle] at hblocks
      cases hblocks
      rfl
    rw [hnil, append_nil]
  have hblock : (n.received b).applyBlock skip [] b = (n.extended b s F blocks, .ok ()) :=
    applyBlock_of_ok hs hmigrate
  have hcore : n.clearPending.pushBlockCore skip b = (n.extended b s F blocks, .ok false) := by
    unfold pushBlockCore
    rw [if_neg (by simp [hforkDb]), show n.clearPending.forkDb.pushBlock b = (F, .ok x) from hpush]
    have hextend : (n.received b).extend skip b = (n.extended b s F blocks, .ok false) := by
      rw [extend, hblock]
    exact (if_pos (show x.data.previous = (n.received b).headBlockId from hb)).trans hextend
  have hflags := checkpointFlags_of_nil skip b h.idle.2.2
  have hrestore : (n.extended b s F blocks).restorePending skip budget [] =
      n.extended b s F blocks := by
    have hpopped : (n.extended b s F blocks).poppedTx = [] := h.idle.2.1
    rw [restorePending, hpopped]
    change { n.extended b s F blocks with poppedTx := [] } = _
    rw [← hpopped]
  have hresult : n.pushBlock skip budget b = (n.extended b s F blocks, .ok false) := by
    unfold pushBlock
    simp only [hflags, hcore, h.idle.1, hrestore]
  have hitems : ∀ y ∈ F.index, y ∈ n.forkDb.index ∨ y.data = b := by
    intro y hy
    rw [hindex] at hy
    exact (mem_append.1 hy).imp_right fun hy => congrArg ForkItem.data (mem_singleton.1 hy)
  rw [hresult]
  refine ⟨rfl, hone, rfl, fun y hy => hitems y (extended_items hhead hy), fun c hc => ?_, hlog, hkept⟩
  rcases mem_append.1 hc with hc | hc
  · exact .inl hc
  · obtain ⟨y, hy, rfl⟩ := hfrom c hc
    exact .inr ((hitems y hy).symm.imp_right fun hy => ⟨y, hy, rfl⟩)

theorem pushBlock_linear (h : n.Linear) (hforkDb : skip.skipForkDb = false)
    (hblockLog : skip.skipBlockLog = false) (hb : b.previous = n.headBlockId)
    (hroom : n.objects.headBlockNum + 1 < 2 ^ 32)
    (hs : ∀ env, SeesLog P skip n.logHeadNum env → n.objects.applyBlock P env b = .ok s) :
    (n.pushBlock skip budget b).2 = .ok false ∧ (n.pushBlock skip budget b).1.Linear ∧
      (n.pushBlock skip budget b).1.db =
        (n.db.start.set s).commit s.lib := by
  have hsees : SeesLog P skip n.logHeadNum ((n.received b).env skip false) :=
    env_seesLog (n := n.received b) h.logged
  obtain ⟨hok, hext⟩ := pushBlock_onto budget h.toOneChain hforkDb hblockLog hb hroom (hs _ hsees)
  obtain ⟨-, ⟨hnum, -⟩, -⟩ := tip_of_applyBlock (hs _ hsees) h.tip hb hroom
  exact ⟨hok, hext.linear h (by omega), hext.db⟩

theorem switchForks_ne_false {newHead : ForkItem} : (n.switchForks skip newHead).2 ≠ .ok false := by
  intro h
  unfold switchForks switchBranch restoreBranch at h
  split at h
  · cases h
  · split at h
    · cases h
    · split at h
      · cases h
      · split at h
        · cases h
        · split at h <;> cases h

theorem of_pushBlock_linear {budget : Nat} (h : n.Linear) (hforkDb : skip.skipForkDb = false)
    (hok : (n.pushBlock skip budget b).2 = .ok false)
    (hnum : (n.pushBlock skip budget b).1.objects.headBlockNum = n.objects.headBlockNum + 1) :
    b.previous = n.headBlockId ∧ n.objects.headBlockNum + 1 < 2 ^ 32 ∧
      ∃ s, n.objects.applyBlock P ((n.received b).env skip false) b = .ok s := by
  have hflags := checkpointFlags_of_nil skip b h.idle.2.2
  rcases hcore : n.clearPending.pushBlockCore skip b with ⟨n', r⟩
  have hobjects : (n.pushBlock skip budget b).1.objects = n'.objects := by
    unfold pushBlock
    simp only [hflags, hcore]
    exact congrArg (fun c : Chain P => c.1.state) restorePending_chain
  have hr : r = .ok false := by
    rw [← hok]
    unfold pushBlock
    simp only [hflags, hcore]
  rw [hobjects] at hnum
  subst hr
  unfold pushBlockCore at hcore
  rw [if_neg (by simp [hforkDb])] at hcore
  split at hcore
  · cases hcore
  next F newHead hpush =>
  change n.forkDb.pushBlock b = _ at hpush
  obtain ⟨-, hfrom⟩ := pushBlock_head hpush
  dsimp only at hcore
  split_ifs at hcore with hextends hhigher
  · have hreceived : n.received b = { n.clearPending with forkDb := F } := by rw [received, hpush]
    rw [← hreceived] at hcore
    unfold extend at hcore
    split at hcore
    · next n1 u happly =>
      cases hcore
      have hs := applyBlock_objects happly
      have hb : n'.objects.headBlockNum = b.blockNum := congrArg Prod.fst (Objects.applyBlock_tip hs)
      have hlt : b.blockNum < 2 ^ 32 := Nat.mod_lt _ (by decide)
      refine ⟨?_, by omega, n'.objects, hs⟩
      rcases hfrom with hold | hnew | hcached
      · -- no block is its own parent
        rcases h.head with ⟨hnone, -⟩ | ⟨x, -, hx, hid⟩
        · rw [hnone] at hold
          cases hold
        · rw [hx] at hold
          cases hold
          have hself : newHead.data.previous = newHead.id P.toCrypto := hextends.trans hid.symm
          have hloop : newHead.num = (newHead.num + 1) % 2 ^ 32 :=
            congrArg (fun i : BlockId => (i.num + 1) % 2 ^ 32) hself
          have hbound : newHead.num < 2 ^ 32 := Nat.mod_lt _ (by decide)
          omega
      · rw [← hnew]
        exact hextends
      · rw [h.unlinked] at hcached
        cases hcached
    · cases hcore
  · exact absurd (congrArg Prod.snd hcore) switchForks_ne_false
  · cases hcore
    exact absurd hnum (Nat.ne_of_lt (Nat.lt_succ_self _))

theorem replays_pushed {b : SignedBlock} {s : Objects} {x : ForkItem} (log : List SignedBlock)
    (h : n.Linear) (hrevision : n.db.revision = n.objects.headBlockNum)
    (hforkDb : skip.skipForkDb = false) (hblockLog : skip.skipBlockLog = false)
    (hb : b.previous = n.headBlockId) (hroom : n.objects.headBlockNum + 1 < 2 ^ 32)
    (hs : ∀ env : Env, env.skip = skip → n.objects.applyBlock P env b = .ok s) (hx : x.data = b) :
    Replays P (Sees P log skip) [x] (n.pushBlock skip budget b).1.objects
      (n.pushBlock skip budget b).1.db.saved := by
  obtain ⟨-, -, hdb⟩ := pushBlock_linear budget h hforkDb hblockLog hb hroom fun env henv =>
    hs env henv.skip
  obtain ⟨⟨-, hlib⟩, ⟨hnum, -⟩, -⟩ := tip_of_applyBlock (hs (n.env skip false) rfl) h.tip hb hroom
  have hten : xgtMaxWitnesses = 10 := rfl
  have hpre := UndoStack.commit_shortens (n.db.start.set s) s.lib
  have hkept : ((n.db.start.set s).commit s.lib).saved ≠ [] := by
    intro hnil
    have hall := rdropWhile_eq_nil_iff.1 hnil (n.db.revision + 1, n.db.state) (.head _)
    have hle : n.db.revision + 1 ≤ s.lib := of_decide_eq_true hall
    omega
  obtain ⟨e, saved, hsaved⟩ := exists_cons_of_ne_nil hkept
  rw [hsaved] at hpre
  obtain ⟨rfl, -⟩ := cons_prefix_cons.1 hpre
  rw [objects, hdb, hsaved]
  refine ⟨?_, trivial⟩
  rw [hx]
  exact fun env henv => hs env henv.skip

end Extend

end Node

end Xgt
