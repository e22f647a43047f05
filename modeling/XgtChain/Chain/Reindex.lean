import XgtChain.Chain.Determinism
import XgtChain.Chain.LinearChain
import XgtChain.Chain.TransactionTable

/-!
# `reindex`

A node that starts with a block log and no state applies the blocks of the log to the genesis state,
without undo sessions and with most checks off.
-/

namespace Xgt

open Base List

def reindexFlags : SkipFlags where
  skipWitnessSignature := true
  skipTransactionSignatures := true
  skipTransactionDupeCheck := true
  skipTaposCheck := true
  skipMerkleCheck := true
  skipAuthorityCheck := true
  skipValidate := true
  skipValidateInvariants := true
  skipBlockLog := true

namespace Node

variable {P : Params} (n : Node P)

def applyLoggedBlock (b : SignedBlock) : Result (Node P) := do
  let s ← n.objects.applyBlock P (n.env reindexFlags false) b
  { n.hand b with db := n.db.set s }.migrateIrreversibleState reindexFlags []

def replayLog (last : Nat) : List SignedBlock → Node P → Result (Node P)
  | [], _ => .error ⟨.other, "end of the block log"⟩
  | b :: rest, n => do
    let n ← n.applyLoggedBlock b
    if b.blockNum < last then replayLog last rest n else pure n

def replay (last : Nat) (n : Node P) : Result (Node P) :=
  if n.objects.headBlockNum < last then do
    let rest := n.blockLog.drop n.objects.headBlockNum
    fcAssert (rest.head?.any fun b => b.blockNum = n.objects.headBlockNum + 1) "block_num"
    let n ← replayLog last rest n
    match n.db.setRevision? n.objects.headBlockNum with
    | some db => pure { n with db := db }
    | none => throw ⟨.other, "cannot set revision while there is an existing undo stack"⟩
  else .ok n

def wiped : Node P :=
  { n.clearPending with db := ⟨genesis P.initPublicKey, 0, []⟩, forkDb := n.forkDb.reset }

def reindex (n : Node P) (stopAtBlock : Nat) : Result (Node P) :=
  match n.blockLog.getLast? with
  | none => .error ⟨.other, "No blocks in block log. Cannot reindex an empty chain."⟩
  | some head => do
    let last := if 0 < stopAtBlock ∧ stopAtBlock < head.blockNum then stopAtBlock else head.blockNum
    let n ← n.wiped.replay last
    pure (if head.blockNum = 0 then n else { n with forkDb := n.forkDb.startBlock head })

end Node

namespace Objects

variable {s s' : Objects} {cr : Crypto} {P : Params} {env : Env} {b : SignedBlock}
  (x : ObjectIndex TransactionObject)

def replayEnv (env : Env) : Env := { env with skip := reindexFlags }

theorem applyTransaction_replayed {t : SignedTransaction} (h : s.applyTransaction cr t env = .ok s') :
    (s.withTransactions x).applyTransaction cr t (replayEnv env) = .ok (s'.withTransactions x) := by
  have hops (u : Objects) : u.applyOperations cr (replayEnv env) t.operations =
      u.applyOperations cr env t.operations := by
    have hop (u : Objects) (op : Operation) :
        u.applyOperation cr (replayEnv env) op = u.applyOperation cr env op := by
      cases op <;> rfl
    unfold applyOperations
    simp only [hop]
  unfold applyTransaction at h
  iterate 3 obtain ⟨_, -, h⟩ := of_bind h
  obtain ⟨_, hexpiration, h⟩ := of_bind h
  obtain ⟨s1, hrecord, h⟩ := of_bind h
  have hs1 : s1.withTransactions x = s.withTransactions x := by
    unfold recordTransaction at hrecord
    split_ifs at hrecord
    · cases hrecord
      rfl
    · obtain ⟨_, -, hrecord⟩ := of_bind hrecord
      cases hrecord
      rfl
  have hrun : (s.withTransactions x).applyOperations cr env t.operations =
      .ok (s'.withTransactions x) := by
    rw [← hs1]
    exact (applyOperations_blind cr env t.operations).ok x s1 h
  unfold applyTransaction
  refine bind_ok rfl (bind_ok rfl (bind_ok rfl ?_))
  refine bind_ok hexpiration (bind_ok rfl ?_)
  rw [hops, hrun]

theorem applyBlock_replayed (hskip : env.skip = skipNothing) (h : s.applyBlock P env b = .ok s') :
    (s.withTransactions x).applyBlock P (replayEnv env) b =
      .ok (s'.withTransactions (x.removeIf fun t => t.expiration < b.timestamp)) := by
  have hfinish (u : Objects) : u.finishBlock P (replayEnv env) b = u.finishBlock P env b := by
    have hdynamic : u.updateGlobalDynamicData P.toCrypto (replayEnv env) b =
        u.updateGlobalDynamicData P.toCrypto env b := by
      unfold updateGlobalDynamicData
      rw [hskip]
      rfl
    unfold finishBlock
    rw [hdynamic]
    rfl
  unfold applyBlock at h
  simp only [bind_ok_iff] at h
  obtain ⟨_, -, _, hsize, s1, hheader, _, hwitness, s2, htxs, hend⟩ := h
  have htxs' : (s1.withTransactions x).applyTransactions P.toCrypto (replayEnv env) b.transactions =
      .ok (s2.withTransactions x) :=
    foldlM_ok_image (φ := withTransactions x) htxs fun _ _ _ _ hstep =>
      applyTransaction_replayed x hstep
  unfold applyBlock
  refine bind_ok rfl (bind_ok hsize ?_)
  refine bind_ok_iff.2 ⟨s1.withTransactions x, ?_, bind_ok hwitness ?_⟩
  · exact (processHeaderExtensions_blind b).ok x s hheader
  · refine bind_ok htxs' ?_
    rw [hfinish, finishBlock_blind, hend]
    rfl

end Objects

namespace Node

variable {P : Params} {n r : Node P} {log : List SignedBlock} {b : SignedBlock} {k : Nat}
variable {num : Nat} {before after : List SignedBlock}

def InPlace (log : List SignedBlock) (b : SignedBlock) : Prop :=
  0 < b.blockNum ∧ log[b.blockNum - 1]? = some b

structure HoldsChain (n : Node P) (log : List SignedBlock) (k : Nat) : Prop where
  unlinked : n.forkDb.unlinked = []
  items : ∀ x ∈ n.forkDb.index, InPlace log x.data
  logged : ∀ c ∈ n.blockLog, InPlace log c
  all : ∀ num, 0 < num → num ≤ k → (∃ c ∈ n.blockLog, c.blockNum = num) ∨
    ∃ x ∈ n.forkDb.index, x.num = num

def chainBlock (log : List SignedBlock) (num : Nat) : Option SignedBlock :=
  if num = 0 then none else log[num - 1]?

theorem InPlace.chainBlock (h : InPlace log b) (hnum : b.blockNum = num) :
    chainBlock log num = some b := by
  subst hnum
  rw [Node.chainBlock, if_neg (Nat.pos_iff_ne_zero.1 h.1), h.2]

section

variable (h : n.HoldsChain log k)
include h

theorem HoldsChain.readBlockByNum {c : SignedBlock}
    (hc : n.readBlockByNum num = some c) : chainBlock log num = some c :=
  (h.logged c (mem_of_find?_eq_some hc)).chainBlock (by simpa using find?_some hc)

theorem HoldsChain.not_logged (hle : num ≤ k)
    (hnone : n.readBlockByNum num = none) : num = 0 ∨ ∃ x ∈ n.forkDb.index, x.num = num := by
  refine (Nat.eq_zero_or_pos num).imp_right fun hpos => (h.all num hpos hle).resolve_left ?_
  rintro ⟨c, hc, hnum⟩
  exact absurd (decide_eq_true hnum) (find?_eq_none.1 hnone c hc)

theorem HoldsChain.fetchPriorBlock (hle : num ≤ k) : n.fetchPriorBlock num = chainBlock log num := by
  unfold Node.fetchPriorBlock
  cases hread : n.readBlockByNum num with
  | some c => exact (h.readBlockByNum hread).symm
  | none =>
    rw [Option.none_or]
    cases hfetch : n.forkDb.fetchBlockByNumber num with
    | nil =>
      rcases h.not_logged hle hread with rfl | ⟨x, hx, hnum⟩
      · rfl
      · exact absurd (decide_eq_true hnum) (filter_eq_nil_iff.1 hfetch x hx)
    | cons x xs =>
      obtain ⟨hx, hnum⟩ := mem_filter.1 (hfetch ▸ mem_cons_self)
      exact ((h.items x hx).chainBlock (of_decide_eq_true hnum)).symm

theorem HoldsChain.fetchBlockById {id : BlockId} (hle : id.num ≤ k) :
    n.fetchBlockById id =
      (chainBlock log id.num).filter fun b => P.blockId b.toSignedBlockHeader = id := by
  unfold Node.fetchBlockById
  split
  · next x hx =>
    have hid : x.id P.toCrypto = id := ForkDatabase.id_of_fetchBlock hx
    have hmem : x ∈ n.forkDb.index := by
      rw [ForkDatabase.fetchBlock, h.unlinked, findItem, findItem, find?_nil, Option.or_none] at hx
      exact mem_of_find?_eq_some hx
    rw [(h.items x hmem).chainBlock (congrArg BlockId.num hid)]
    exact (if_pos (decide_eq_true hid)).symm
  · next hnone =>
    change (n.readBlockByNum id.num).filter _ = _
    cases hread : n.readBlockByNum id.num with
    | some c => rw [h.readBlockByNum hread]
    | none =>
      rcases h.not_logged hle hread with hzero | ⟨x, hx, hnum⟩
      · rw [chainBlock, if_pos hzero]
      · rw [(h.items x hx).chainBlock hnum]
        refine (if_neg fun hid => ?_).symm
        have hknown : n.forkDb.Knows id := ⟨x, mem_append_left _ hx, of_decide_eq_true hid⟩
        rw [← ForkDatabase.fetchBlock_isSome_iff, hnone] at hknown
        cases hknown

theorem HoldsChain.sameView {s : Objects} (h' : r.HoldsChain log k)
    (skip : SkipFlags) (hid : s.headBlockId.num ≤ k) (hb : b.blockNum = k + 1) :
    (n.env skip false).SameView s b (r.env skip false) where
  skip := rfl
  producing := rfl
  pendingTx := rfl
  headBlock := (h'.fetchBlockById hid).trans (h.fetchBlockById hid).symm
  priorBlock _ := (h'.fetchPriorBlock (by omega)).trans (h.fetchPriorBlock (by omega)).symm

end

/-! ## Pushing the blocks one by one -/

structure Applies (n : Node P) (b : SignedBlock) : Prop where
  ok : (n.pushBlock skipNothing 0 b).2 = .ok false
  num : (n.pushBlock skipNothing 0 b).1.objects.headBlockNum = n.objects.headBlockNum + 1

structure Pushed (log : List SignedBlock) (k : Nat) (n : Node P) : Prop where
  linear : n.Linear
  num : n.objects.headBlockNum = k
  items : ∀ x ∈ n.forkDb.index, InPlace log x.data
  logged : ∀ c ∈ n.blockLog, InPlace log c

theorem Pushed.init (P : Params) (log : List SignedBlock) : Pushed log 0 (init P) :=
  ⟨linear_init P, rfl, by nofun, by nofun⟩

theorem Pushed.holdsChain (h : Pushed log k n) : n.HoldsChain log k := by
  refine ⟨h.linear.unlinked, h.items, h.logged, fun num hpos hle => ?_⟩
  rcases Nat.lt_or_ge n.logHeadNum num with hnew | hold
  · obtain ⟨x, hx⟩ := h.linear.single num hnew (by rw [h.num]; exact hle)
    have hmem : x ∈ n.forkDb.fetchBlockByNumber num := hx ▸ mem_singleton_self x
    exact .inr ⟨x, (mem_filter.1 hmem).1, of_decide_eq_true (mem_filter.1 hmem).2⟩
  · obtain ⟨c, hc⟩ := Option.isSome_iff_exists.1 (h.linear.logged num hpos hold)
    exact .inl ⟨c, mem_of_find?_eq_some hc, by simpa using find?_some hc⟩

theorem Pushed.push (h : Pushed log k n) (hb : log[k]? = some b) (happlies : n.Applies b) :
    b.blockNum = k + 1 ∧ (n.received b).HoldsChain log k ∧
      n.objects.applyBlock P ((n.received b).env skipNothing false) b =
        .ok (n.pushBlock skipNothing 0 b).1.objects ∧
      Pushed log (k + 1) (n.pushBlock skipNothing 0 b).1 := by
  obtain ⟨hprevious, hroom, s, hs⟩ := of_pushBlock_linear h.linear rfl happlies.ok happlies.num
  obtain ⟨-, hext⟩ := pushBlock_onto 0 h.linear.toOneChain rfl rfl hprevious hroom hs
  obtain ⟨-, ⟨hup, -⟩, hbnum⟩ := tip_of_applyBlock hs h.linear.tip hprevious hroom
  have hnum : b.blockNum = k + 1 := by
    rw [← hbnum, ← h.num]
    exact hup
  have hobjects : (n.pushBlock skipNothing 0 b).1.objects = s := congrArg UndoStack.state hext.db
  have hplace : InPlace log b := ⟨by omega, by rw [hnum]; exact hb⟩
  obtain ⟨-, hindex, hunlinked, -⟩ :=
    received_forkDb h.linear.toOneChain hprevious (hnum.trans (congrArg (· + 1) h.num.symm))
  refine ⟨hnum, ⟨hunlinked, ?_, h.logged, ?_⟩, hobjects ▸ hs, hext.linear h.linear (by omega), ?_, ?_, ?_⟩
  · intro x hx
    rw [hindex] at hx
    rcases mem_append.1 hx with hx | hx
    · exact h.items x hx
    · rw [mem_singleton.1 hx]
      exact hplace
  · intro num hpos hle
    refine (h.holdsChain.all num hpos hle).imp_right fun ⟨x, hx, hxnum⟩ => ⟨x, ?_, hxnum⟩
    rw [hindex]
    exact mem_append_left _ hx
  · rw [happlies.num, h.num]
  · intro x hx
    rcases hext.items x hx with hx | rfl
    · exact h.items x hx
    · exact hplace
  · intro c hc
    rcases hext.log c hc with hc | rfl | ⟨x, hx, rfl⟩
    · exact h.logged c hc
    · exact hplace
    · exact h.items x hx

/-- Each block of the log applied when it was pushed, and created no receiver. -/
structure LiveLog (P : Params) (log : List SignedBlock) : Prop where
  applies : ∀ before b after, log = before ++ b :: after → ((init P).pushBlocks before).Applies b
  receivers : ∀ before b after, log = before ++ b :: after →
    Objects.ReceiversExist P (((init P).pushBlocks before).env skipNothing false)
      ((init P).pushBlocks before).objects b

theorem getElem?_of_split (h : log = before ++ b :: after) : log[before.length]? = some b := by
  rw [h, getElem?_append_right (Nat.le_refl _), Nat.sub_self]
  rfl

theorem LiveLog.pushed (h : LiveLog P log)
    (hsplit : log = before ++ after) : Pushed log before.length ((Node.init P).pushBlocks before) := by
  induction before using List.reverseRecOn generalizing after with
  | nil => exact Pushed.init P log
  | append_singleton before b ih =>
    rw [append_assoc] at hsplit
    rw [pushBlocks_concat, length_append]
    exact ((ih hsplit).push (getElem?_of_split hsplit) (h.applies before b after hsplit)).2.2.2

theorem LiveLog.blockNum (h : LiveLog P log) {i : Nat} (hb : log[i]? = some b) : b.blockNum = i + 1 := by
  obtain ⟨hi, hget⟩ := List.getElem?_eq_some_iff.1 hb
  have hsplit : log = log.take i ++ b :: log.drop (i + 1) := by
    rw [← hget, List.getElem_cons_drop, List.take_append_drop]
  have hlen : (log.take i).length = i := length_take_of_le hi.le
  have hpushed := h.pushed hsplit
  rw [hlen] at hpushed
  exact (hpushed.push hb (h.applies _ _ _ hsplit)).1

/-! ## Replaying the log -/

structure Replayed (log : List SignedBlock) (n r : Node P) : Prop where
  objects : r.objects = n.objects.withTransactions .empty
  saved : r.db.saved = []
  forkDb : r.forkDb.head = none ∧ r.forkDb.index = [] ∧ r.forkDb.unlinked = []
  log : r.blockLog = log

theorem Replayed.holdsChain (h : Replayed log n r) (hlog : LiveLog P log) (hk : k ≤ log.length) :
    r.HoldsChain log k := by
  refine ⟨h.forkDb.2.2, ?_, fun c hc => ?_, fun num hpos hle => .inl ?_⟩
  · rw [h.forkDb.2.1]
    nofun
  · rw [h.log] at hc
    obtain ⟨i, hi⟩ := mem_iff_getElem?.1 hc
    have hnum := hlog.blockNum hi
    exact ⟨by omega, by rw [hnum]; exact hi⟩
  · obtain ⟨c, hc⟩ : ∃ c, log[num - 1]? = some c :=
      ⟨_, getElem?_eq_getElem (by omega)⟩
    have hnum := hlog.blockNum hc
    exact ⟨c, h.log ▸ mem_of_getElem? hc, by omega⟩

theorem migrateIrreversibleState_replayed (hsaved : r.db.saved = [])
    (hfork : r.forkDb.head = none ∧ r.forkDb.index = [] ∧ r.forkDb.unlinked = []) :
    ∃ r', r.migrateIrreversibleState reindexFlags [] = .ok r' ∧ r'.db = r.db ∧
      r'.blockLog = r.blockLog ∧
      r'.forkDb.head = none ∧ r'.forkDb.index = [] ∧ r'.forkDb.unlinked = [] := by
  have hcheck : r.checkForkHead = .ok () := by rw [checkForkHead, hfork.1]
  have hlimit (F : ForkDatabase P.toCrypto) (size : Nat)
      (hF : F.head = none ∧ F.index = [] ∧ F.unlinked = []) :
      (F.setMaxSize size).head = none ∧ (F.setMaxSize size).index = [] ∧
        (F.setMaxSize size).unlinked = [] := by
    unfold ForkDatabase.setMaxSize
    split
    · exact hF
    · next h hhead =>
      rw [hF.1] at hhead
      cases hhead
  refine ⟨_, by rw [migrateIrreversibleState, hcheck]; rfl, ?_, append_nil _, ?_⟩
  · exact UndoStack.commit_eq_self (by simp [hsaved])
  · exact hlimit _ _ (hlimit _ _ hfork)

theorem Replayed.applyLoggedBlock (hlog : LiveLog P log)
    (hsplit : log = before ++ b :: after) (h : Replayed log ((init P).pushBlocks before) r) :
    ∃ r', r.applyLoggedBlock b = .ok r' ∧
      Replayed log ((init P).pushBlocks (before ++ [b])) r' := by
  have hpushed := hlog.pushed hsplit
  obtain ⟨hnum, hreceived, hs, hnext⟩ :=
    hpushed.push (getElem?_of_split hsplit) (hlog.applies before b after hsplit)
  have hid : ((init P).pushBlocks before).objects.headBlockId.num ≤ before.length := by
    rw [← hpushed.linear.tip.1, hpushed.num]
  have hholds : r.HoldsChain log before.length := h.holdsChain hlog (by rw [hsplit]; simp)
  -- the push, seen from the node before it, and then from the replaying node
  have hreceivers := hlog.receivers before b after hsplit
  rw [← Objects.applyBlock_sameView (hpushed.holdsChain.sameView hreceived skipNothing hid hnum)
    hreceivers, Objects.applyBlock_sameView
      (hpushed.holdsChain.sameView hholds skipNothing hid hnum) hreceivers] at hs
  have hreplayed := Objects.applyBlock_replayed .empty rfl hs
  rw [← h.objects] at hreplayed
  rw [← pushBlocks_concat] at hreplayed
  let s := ((init P).pushBlocks (before ++ [b])).objects.withTransactions .empty
  obtain ⟨r', hr', hdb, hblocks, hfork⟩ := migrateIrreversibleState_replayed
    (r := { r.hand b with db := r.db.set s }) h.saved h.forkDb
  refine ⟨r', bind_ok hreplayed hr', ?_, ?_, hfork, hblocks.trans h.log⟩
  · exact congrArg UndoStack.state hdb
  · rw [hdb]
    exact h.saved

theorem Replayed.replayLog (hlog : LiveLog P log) (hsplit : log = before ++ after) (hne : after ≠ [])
    (h : Replayed log ((init P).pushBlocks before) r) :
    ∃ r', replayLog log.length after r = .ok r' ∧ Replayed log ((init P).pushBlocks log) r' := by
  induction after generalizing before r with
  | nil => exact absurd rfl hne
  | cons b rest ih =>
    obtain ⟨r1, hr1, h1⟩ := h.applyLoggedBlock hlog hsplit
    have hnum : b.blockNum = before.length + 1 := hlog.blockNum (getElem?_of_split hsplit)
    have hlen : log.length = before.length + (rest.length + 1) := by
      rw [hsplit, length_append, length_cons]
    cases rest with
    | nil =>
      refine ⟨r1, bind_ok hr1 (if_neg ?_), ?_⟩
      · rw [hnum, hlen]
        exact Nat.lt_irrefl _
      · rw [← hsplit] at h1
        exact h1
    | cons c rest =>
      obtain ⟨r', hr', h'⟩ := ih (by rw [hsplit, append_assoc]; rfl) (by simp) h1
      refine ⟨r', bind_ok hr1 ((if_pos ?_).trans hr'), h'⟩
      rw [hnum, hlen, length_cons]
      omega

def started (P : Params) (log : List SignedBlock) (draws : Nat) : Node P :=
  { init P with blockLog := log, draws := draws }

theorem reindex_eq_pushBlocks (P : Params) (log : List SignedBlock) (draws : Nat) (hne : log ≠ [])
    (hlog : LiveLog P log) :
    ∃ r, (started P log draws).reindex 0 = .ok r ∧
      r.objects = ((init P).pushBlocks log).objects.withTransactions .empty := by
  have hpos : 0 < log.length := length_pos_iff.2 hne
  obtain ⟨head, hhead⟩ : ∃ head, log.getLast? = some head := ⟨_, getLast?_eq_some_getLast hne⟩
  have hheadNum : head.blockNum = log.length := by
    rw [getLast?_eq_getElem?] at hhead
    have hnum := hlog.blockNum hhead
    omega
  obtain ⟨first, hfirst⟩ : ∃ first, log[0]? = some first := ⟨_, getElem?_eq_getElem hpos⟩
  have hstart : Replayed log ((init P).pushBlocks []) (started P log draws).wiped :=
    ⟨rfl, rfl, ⟨rfl, rfl, rfl⟩, rfl⟩
  obtain ⟨r, hr, hreplayed⟩ := hstart.replayLog hlog (nil_append log).symm hne
  let r' : Node P := { r with db := { r.db with revision := r.objects.headBlockNum } }
  have hreplay : (started P log draws).wiped.replay log.length = .ok r' := by
    refine (if_pos hpos).trans (bind_ok_iff.2 ⟨(), ?_, bind_ok hr ?_⟩)
    · refine fcAssert_ok_iff.2 ?_
      change log.head?.any _ = true
      rw [head?_eq_getElem?, hfirst]
      exact decide_eq_true (hlog.blockNum hfirst)
    · rw [UndoStack.setRevision?_of_nil _ hreplayed.saved]
      rfl
  refine ⟨{ r' with forkDb := r'.forkDb.startBlock head }, ?_, hreplayed.objects⟩
  unfold reindex
  rw [show (started P log draws).blockLog.getLast? = some head from hhead]
  refine bind_ok_iff.2 ⟨r', ?_, ?_⟩
  · rw [if_neg (by simp), hheadNum]
    exact hreplay
  · rw [if_neg (by omega)]
    rfl

theorem liveLog_payBlock : LiveLog drawParams [payBlock xgtTempWallet] := by
  have hfirst {before after : List SignedBlock} {b : SignedBlock}
      (h : [payBlock xgtTempWallet] = before ++ b :: after) : before = [] ∧ b = payBlock xgtTempWallet := by
    cases before with
    | nil => exact ⟨rfl, (List.cons.inj h).1.symm⟩
    | cons c before => exact absurd (List.cons.inj h).2 (by simp)
  refine ⟨fun before b after h => ?_, fun before b after h => ?_⟩
  · obtain ⟨rfl, rfl⟩ := hfirst h
    exact ⟨by decide +kernel, by decide +kernel⟩
  · obtain ⟨rfl, rfl⟩ := hfirst h
    intro u o hreach
    obtain ⟨hwallets, hreceiver⟩ := payBlock_reaches hreach
    rw [Objects.findAccount, hwallets, hreceiver]
    decide

theorem reindex_payBlock :
    ∃ r, (started drawParams [payBlock xgtTempWallet] 7).reindex 0 = .ok r ∧
      r.objects = ((init drawParams).pushBlocks [payBlock xgtTempWallet]).objects.withTransactions
        .empty :=
  reindex_eq_pushBlocks drawParams [payBlock xgtTempWallet] 7 (by simp) liveLog_payBlock

theorem reindex_forgets_payment :
    ∃ (log : List SignedBlock) (r : Node drawParams) (t : TransactionId),
      LiveLog drawParams log ∧ (started drawParams log 0).reindex 0 = .ok r ∧
      ((init drawParams).pushBlocks log).objects.isKnownTransaction t = true ∧
      r.objects.isKnownTransaction t = false := by
  let t : TransactionId := ⟨(xgtGenesisTime + 60) * 1000⟩
  have hrun : ((started drawParams [payBlock xgtTempWallet] 0).reindex 0).toOption.any
      (fun r => !r.objects.isKnownTransaction t) = true := by decide +kernel
  obtain ⟨r, hr, hknown⟩ := exists_ok_of_any hrun
  refine ⟨_, r, t, liveLog_payBlock, hr, by decide +kernel, ?_⟩
  simpa using hknown

end Node

end Xgt
