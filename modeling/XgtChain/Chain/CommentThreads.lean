import XgtChain.Chain.Comments

/-!
# Threads of comments

A reply names its parent, its depth and its root. The links hold over every run that deletes no comment
with replies (`threaded_iff`). The check in front of a deletion reads a counter of 32 bits, which wraps
when it leaks long enough (`threaded_overflow`).
-/

namespace Xgt

open Base ObjectIndex List Nat

def Operation.isComment : Operation → Bool
  | .comment _ => true
  | _ => false

namespace Objects

open CommentTree

variable {s s' : Objects} {cr : Crypto} {env : Env} {t : ObjectIndex CommentObject}
  {r : Nat × CommentObject} {n : Nat} {op : Operation}

/-- The operation deletes no comment that is a parent. -/
def DeletesUnanswered (step : OpStep) : Prop :=
  match step.2 with
  | .deleteComment o => ∀ r, step.1.findComment o.author o.permlink = some r →
      ∀ x ∈ step.1.comments.rows, x.2.parent? step.1.comments ≠ some r
  | _ => True

theorem unanswered_of_threaded {now : TimePointSec} (h : Forest t) (hr : r ∈ t.rows)
    (hthreaded : Threaded (deletedTable t r now)) : ∀ x ∈ t.rows, x.2.parent? t ≠ some r := by
  intro x hx hparent
  have hlinks := changeAt_sameLinks ((r.2.parent? t).toList.map Prod.fst) (uncounted_sameLinks now)
  obtain ⟨hreply, -, hauthor, hpermlink⟩ := (parent?_eq_some_iff h.unique).1 hparent
  -- the reply is still there
  have hne : x.1 ≠ r.1 := by
    have habove := h.parent_mem_above hx hparent
    exact (h.mem_above hx (habove ▸ mem_cons_self)).1.ne'
  obtain ⟨p, _, hp, -⟩ := hthreaded _ (mem_remove.2 ⟨mem_mapRows_of_mem hx, hne⟩)
    (by rw [(hlinks x.1 x.2).parentAuthor]; exact hreply)
  -- its parent has the name of the deleted comment
  obtain ⟨-, hmem, hauthor', hpermlink'⟩ :=
    (parent?_eq_some_iff (Unique.remove (h.mapRows hlinks).unique)).1 hp
  obtain ⟨hmem, hpr⟩ := mem_remove.1 hmem
  obtain ⟨a, ha, hpa⟩ := mem_mapRows.1 hmem
  have hclash : Keyed.clash a r.2 = true := by
    have hsame := hlinks p.1 a
    rw [hpa] at hsame
    rw [hsame.author, (hlinks x.1 x.2).parentAuthor] at hauthor'
    rw [hsame.permlink, (hlinks x.1 x.2).parentPermlink] at hpermlink'
    exact Bool.and_eq_true _ _ ▸ ⟨decide_eq_true (hauthor'.trans hauthor.symm),
      decide_eq_true (hpermlink'.trans hpermlink.symm)⟩
  exact hpr (congrArg Prod.fst (h.unique _ ha _ hr hclash) :)

theorem applyOperation_forest (h : Forest s.comments) (hop : s.applyOperation cr env op = .ok s') :
    (DeletesUnanswered (s, op) → Forest s'.comments) ∧
      (Threaded s'.comments → DeletesUnanswered (s, op)) := by
  cases applyOperation_commentStep hop with
  | kept hcomment hdelete hlinks hchildren hcomments =>
    refine ⟨fun _ => hcomments ▸ h.mapRows hlinks, fun _ => ?_⟩
    cases op with
    | deleteComment o => exact absurd rfl (hdelete o)
    | _ => trivial
  | edited hfound hlinks hchildren hcomments =>
    exact ⟨fun _ => hcomments ▸ h.mapRows hlinks, fun _ => trivial⟩
  | created hnone hparent hlinks hcomments hforest =>
    exact ⟨fun _ => hcomments ▸ (hforest h).1.mapRows hlinks, fun _ => trivial⟩
  | @deleted o r hfound hzero hcomments =>
    have hr := (of_find? hfound).1
    rw [hcomments]
    constructor
    · intro hunanswered
      refine (forest_deleted h hr (h.unanswered fun x hx p hp hpr => ?_) _).1
      have heq : p = r := eq_of_mem (parent?_mem hp) hr hpr
      exact hunanswered _ hfound x hx (heq ▸ hp)
    · intro hthreaded x hx
      cases hfound.symm.trans hx
      exact unanswered_of_threaded h hr hthreaded

/-- The counter is not below the number of descendants, and not above `k`. -/
def Within (k n children : Nat) : Prop := n ≤ children ∧ children ≤ k

theorem applyOperation_covered (h : CountsBy (Within n) s.comments)
    (hop : s.applyOperation cr env op = .ok s') (hn : n + (if op.isComment then 1 else 0) < 2 ^ 32) :
    CountsBy (Within (n + if op.isComment then 1 else 0)) s'.comments := by
  have hmono (k m c : Nat) (hwithin : Within n m c) : Within (n + k) m c :=
    hwithin.imp_right fun hle => hle.trans (le_add_right _ _)
  cases applyOperation_commentStep hop with
  | kept _ _ hlinks hchildren hcomments | edited _ hlinks hchildren hcomments =>
    exact hcomments ▸ h.mapRows (hmono _) hlinks hchildren
  | created _ _ _ _ hforest =>
    rw [(hforest h.forest).2]
    refine h.created (hforest h.forest).1 _ ⟨zero_le _, newComment_children.trans_le (zero_le _)⟩
      (hmono _) fun r hr _ => ?_
    obtain ⟨hcovers, hbounded⟩ := h.counts r hr
    change n + 1 < 2 ^ 32 at hn
    rw [mod_eq_of_lt (by omega)]
    exact ⟨succ_le_succ hcovers, succ_le_succ hbounded⟩
  | @deleted o r hfound hzero hcomments =>
    have hr := (of_find? hfound).1
    have hnone : Unanswered s.comments r.1 :=
      unanswered_iff.2 (le_zero.1 ((h.counts r hr).1.trans hzero.le))
    change n < 2 ^ 32 at hn
    rw [hcomments]
    refine h.deleted hr hnone _ (fun _ _ => id) (fun m c hwithin => ?_) fun _ _ _ m c hwithin => ?_
    · obtain ⟨hcovers, hbounded⟩ := hwithin
      have hless : (c + 2 ^ 32 - 1) % 2 ^ 32 = c - 1 := by omega
      rw [hless]
      constructor <;> omega
    · exact hwithin.imp_left (le_succ m).trans

end Objects

open Objects CommentTree

section Runs

variable {cr : Crypto} {key : PublicKey} {steps : List OpStep} {s : Objects}

theorem threaded_iff (h : OperationRun cr (Operation.Valid cr) (genesis key) steps s) :
    ((∀ step ∈ steps, Threaded step.1.comments) ∧ Threaded s.comments ↔
        ∀ step ∈ steps, DeletesUnanswered step) ∧
      (steps.countP (fun step => step.2.isComment) < 2 ^ 32 → Threaded s.comments) := by
  constructor
  · refine h.invariant_iff (I := fun s => Threaded s.comments) (J := fun s => Forest s.comments)
      (countsBy_genesis (fun _ _ => True) key).forest (fun hs => hs.threaded)
      (fun hs _ hop => applyOperation_forest hs hop) (fun hs hother => ?_) fun hother hs' => ?_
    · rwa [hother.comments_of_outside]
    · rwa [← hother.comments_of_outside]
  · -- no counter is above the number of comment operations so far
    suffices hcovered : steps.countP (fun step => step.2.isComment) < 2 ^ 32 →
        CountsBy (Within (steps.countP fun step => step.2.isComment)) s.comments from
      fun hfew => (hcovered hfew).forest.threaded
    induction h with
    | nil => exact fun _ => countsBy_genesis _ key
    | operation _ _ hop ih =>
      intro hfew
      rw [countP_append, countP_singleton] at hfew ⊢
      exact applyOperation_covered (ih ((le_add_right _ _).trans_lt hfew)) hop hfew
    | other _ hother ih =>
      rw [hother.comments_of_outside]
      exact ih

theorem threaded_reply : ∃ (steps : List OpStep) (s : Objects),
    steps.length = 3 ∧ ((∀ step ∈ steps, Threaded step.1.comments) ∧ Threaded s.comments ↔
      ∀ step ∈ steps, DeletesUnanswered step) ∧ Threaded s.comments := by
  obtain ⟨steps, s, hrun, hsteps, -⟩ := replyDeleted_run
  have hfew : steps.countP (fun step => step.2.isComment) < 2 ^ 32 :=
    countP_le_length.trans_lt (hsteps.trans_lt (by decide))
  obtain ⟨hiff, hthreaded⟩ := threaded_iff hrun
  exact ⟨steps, s, hsteps, hiff, hthreaded hfew⟩

end Runs

/-! ## A counter that wraps

A reply to the reply `b` is counted at `b` and at the root `a`, and its deletion takes it off `b` alone.
Each such round leaks one into the counter of `a`. -/

namespace Objects

/-- What the rounds read of a comment. -/
def outline (c : CommentObject) : (WalletName × String × WalletName × String) × Nat × Nat × Nat × Bool :=
  ((c.author, c.permlink, c.parentAuthor, c.parentPermlink), c.depth, c.rootComment, c.children,
    c.allowReplies)

/-- A root and a reply to it stand alone, and `n` is in the root's counter. -/
structure Leaking (s : Objects) (n : Nat) : Prop where
  comments : s.comments.Unique
  wallets : s.wallets.Unique
  contents : ∀ r ∈ s.commentContents.rows, r.2.comment < s.comments.nextId
  ids : s.comments.rows.map Prod.fst = [0, 1]
  rows : s.comments.rows.map (fun r => outline r.2) =
    [((xgtTempWallet, "a", "", "topic"), 0, 0, n % 2 ^ 32, true),
     ((xgtNullWallet, "b", xgtTempWallet, "a"), 1, 0, 0, true)]

def round (x : WalletName) : List Operation :=
  [.comment (toyComment x "c" xgtNullWallet "b"), .deleteComment ⟨x, "c"⟩]

section Round

variable {s : Objects} {cr : Crypto} {n : Nat} {x : WalletName} {w : Nat × WalletObject}
  {a b : CommentObject} (h : s.Leaking n)
include h

theorem Leaking.exists_rows : ∃ a b, s.comments.rows = [(0, a), (1, b)] ∧
    outline a = ((xgtTempWallet, "a", "", "topic"), 0, 0, n % 2 ^ 32, true) ∧
    outline b = ((xgtNullWallet, "b", xgtTempWallet, "a"), 1, 0, 0, true) := by
  obtain ⟨⟨i, a⟩, rest, hrows, rfl, hrest⟩ := map_eq_cons_iff.1 h.ids
  obtain ⟨⟨j, b⟩, rest', rfl, rfl, hnil⟩ := map_eq_cons_iff.1 hrest
  rw [map_eq_nil_iff.1 hnil] at hrows
  have hout := h.rows
  simp only [hrows, map_cons, map_nil, cons.injEq, and_true] at hout
  exact ⟨a, b, hrows, hout⟩

theorem Leaking.parent (hrows : s.comments.rows = [(0, a), (1, b)]) :
    b.parent? s.comments = some (0, a) := by
  have hout := h.rows
  simp only [hrows, outline, map_cons, cons.injEq, Prod.mk.injEq] at hout
  obtain ⟨⟨⟨haAuthor, haPermlink, -⟩, -⟩, ⟨⟨-, -, hbParent, hbPermlink⟩, -⟩, -⟩ := hout
  refine (parent?_eq_some_iff h.comments).2 ⟨?_, by simp [hrows], ?_, ?_⟩
  · rw [hbParent]
    decide
  · rw [haAuthor, hbParent]
  · rw [haPermlink, hbPermlink]

theorem Leaking.forest : Forest s.comments := by
  obtain ⟨a, b, hrows, ha, hb⟩ := h.exists_rows
  have hparent := h.parent hrows
  simp only [outline, Prod.mk.injEq] at ha hb
  obtain ⟨⟨-, -, haParent, -⟩, haDepth, haRoot, -⟩ := ha
  obtain ⟨-, hbDepth, hbRoot, -⟩ := hb
  refine ⟨h.comments, fun r hr => ?_⟩
  rw [hrows] at hr
  rcases mem_pair.1 hr with rfl | rfl
  · exact .root haParent haDepth haRoot
  · refine .reply hparent zero_lt_one (hbDepth.trans (by rw [haDepth])) ?_ (hbRoot.trans haRoot.symm)
    exact hbDepth.trans_lt (by decide)

/-- One round under `b` leaks one into the counter of `a`. -/
theorem Leaking.round (env : Env) (hutf8 : cr.isUtf8 "" = true)
    (hw : s.findAccount x = some w) (hrest : w.2.lastPost + 3 ≤ s.headBlockTime) :
    ∃ s', s.applyOperations cr env (Objects.round x) = .ok s' ∧ s'.Leaking (n + 1) ∧
      s'.wallets = s.wallets.set w.1 (posted s.headBlockTime false w.2) ∧
      s' = { s with
        wallets := s'.wallets
        comments := s'.comments
        commentContents := s'.commentContents } := by
  obtain ⟨a, b, hrows, ha, hb⟩ := h.exists_rows
  have habove : above s.comments b = [0] :=
    h.forest.above_eq (r := (1, b)) (by simp [hrows])
      (.reply (h.parent hrows) (.root (congrArg (·.1.2.2.1) ha)))
  have hbound : 1 < s.comments.nextId := s.comments.fresh (1, b) (by simp [hrows])
  simp only [outline, Prod.mk.injEq] at ha hb
  obtain ⟨⟨haAuthor, haPermlink, haParent, haTopic⟩, haDepth, haRoot, haChildren, haAllows⟩ := ha
  obtain ⟨⟨hbAuthor, hbPermlink, hbParent, hbTopic⟩, hbDepth, hbRoot, hbChildren, hbAllows⟩ := hb
  let o := toyComment x "c" xgtNullWallet "b"
  have hparent : s.commentParent o = .ok (some (1, b)) := by
    refine bind_ok (getRow_ok_iff.2 (findComment_eq_some h.comments (r := (1, b)) ?_ hbAuthor hbPermlink))
      (bind_ok (fcAssert_ok (hbDepth.trans_lt (by decide))) rfl)
    simp [hrows]
  have hnone : s.findComment x "c" = none := by
    unfold findComment ObjectIndex.find?
    have ha' : cStr a.permlink ≠ cStr "c" := by rw [haPermlink]; decide
    have hb' : cStr b.permlink ≠ cStr "c" := by rw [hbPermlink]; decide
    simp [hrows, ha', hb']
  have hroot : s.comments.get? b.rootComment = some (0, a) := by
    unfold ObjectIndex.get?
    simp [hrows, hbRoot]
  have hcomment : s.applyOperation cr env (.comment o) = .ok (s.commented o w (some (1, b))) := by
    refine applyComment_new h.forest h.wallets h.contents
      (show "".utf8ByteSize + "text".utf8ByteSize + "".utf8ByteSize ≠ 0 by decide) hutf8 hw hparent
      ⟨⟨_, hroot, haAllows⟩, ?_⟩ hnone (show validatePermlink01 "b" = .ok () by decide)
      (show validatePermlink01 "c" = .ok () by decide)
    have hnat : @LE.le Nat _ (w.2.lastPost + 3) s.headBlockTime := hrest
    omega
  generalize hs1 : s.commented o w (some (1, b)) = s1 at hcomment
  have hforest1 := (applyOperation_forest h.forest hcomment).1 trivial
  have hrows1 : s1.comments.rows = [(0, counted s.headBlockTime a), (1, counted s.headBlockTime b),
      (s.comments.nextId, s.newComment o (some (1, b)))] := by
    have hnew := above_newComment h.forest (forest_newComment h.forest hparent
      (create?_newComment _ hnone)) hparent
    rw [← hs1]
    change (s.comments.rows ++ [_]).map _ = _
    rw [hrows, hnew]
    simp [changeAt, habove, (show s.comments.nextId ≠ 0 by omega), (show s.comments.nextId ≠ 1 by omega)]
  -- the new comment has no replies
  have hfound : s1.findComment x "c" = some (s.comments.nextId, s.newComment o (some (1, b))) :=
    findComment_eq_some hforest1.unique (by simp [hrows1]) rfl rfl
  have hparent1 : (s.newComment o (some (1, b))).parent? s1.comments = some (1, counted s.headBlockTime b) :=
    (parent?_eq_some_iff hforest1.unique).2 ⟨(show b.author ≠ "" by rw [hbAuthor]; decide),
      by simp [hrows1], rfl, rfl⟩
  have hdelete : s1.applyOperation cr env (.deleteComment ⟨x, "c"⟩) = .ok _ :=
    applyDeleteComment_eq hforest1 hfound rfl
  have hrows2 : (deletedTable s1.comments (s.comments.nextId, s.newComment o (some (1, b)))
      s1.headBlockTime).rows = [(0, counted s.headBlockTime a),
        (1, uncounted s1.headBlockTime (counted s.headBlockTime b))] := by
    change ((s1.comments.rows.map _).filter _) = _
    rw [hparent1, hrows1]
    simp [changeAt, (show 0 ≠ s.comments.nextId by omega), (show 1 ≠ s.comments.nextId by omega)]
  refine ⟨_, foldlM_cons_ok_iff.2 ⟨_, plainError_ok_iff.2 hcomment, foldlM_cons_ok_iff.2 ⟨_,
    plainError_ok_iff.2 hdelete, rfl⟩⟩, ⟨?_, ?_, ?_, ?_, ?_⟩, ?_, ?_⟩
  · exact Unique.remove (hforest1.mapRows (changeAt_sameLinks _ (uncounted_sameLinks _))).unique
  · have hrow := (of_find? hw).1
    subst hs1
    exact (RowCall.Runs.modify hrow (h.wallets.modify? (a := posted s.headBlockTime false w.2) hrow
      fun _ => rfl) fun _ => rfl).unique h.wallets
  · subst hs1
    intro r hr
    rcases mem_append.1 hr with hr | hr
    · exact (h.contents r hr).trans (lt_succ_self _)
    · rw [mem_singleton.1 hr]
      exact lt_succ_self _
  · rw [hrows2]
    rfl
  · have hleaked : (a.children + 1) % 2 ^ 32 = (n + 1) % 2 ^ 32 := by rw [haChildren, mod_add_mod]
    have htaken : ((b.children + 1) % 2 ^ 32 + 2 ^ 32 - 1) % 2 ^ 32 = 0 := by
      rw [hbChildren]
      decide
    rw [hrows2]
    simp only [map_cons, map_nil, outline, counted, uncounted, haAuthor, haPermlink, haParent, haTopic, haDepth,
      haRoot, haAllows, hleaked, hbAuthor, hbPermlink, hbParent, hbTopic, hbDepth, hbRoot, hbAllows, htaken]
  · subst hs1
    rfl
  · subst hs1
    rfl

theorem Leaking.rounds {authors : List WalletName} (env : Env)
    (hutf8 : cr.isUtf8 "" = true) (hnodup : authors.Nodup)
    (hrest : ∀ x ∈ authors, ∃ w ∈ s.findAccount x, w.2.lastPost + 3 ≤ s.headBlockTime) :
    ∃ s', s.applyOperations cr env (authors.flatMap Objects.round) = .ok s' ∧
      s'.Leaking (n + authors.length) ∧
      (∀ y v, s.findAccount y = some v → s'.findAccount y =
        some (v.1, if y ∈ authors then posted s.headBlockTime false v.2 else v.2)) ∧
      s' = { s with
        wallets := s'.wallets
        comments := s'.comments
        commentContents := s'.commentContents } := by
  induction authors generalizing s n with
  | nil => exact ⟨s, rfl, h, fun y v hv => by simpa using hv, rfl⟩
  | cons x authors ih =>
    obtain ⟨⟨w, hw, hw'⟩, hothers⟩ := forall_mem_cons.1 hrest
    obtain ⟨hx, hnodup⟩ := nodup_cons.1 hnodup
    obtain ⟨s1, hround, hleak, hwallets, hframe⟩ := h.round env hutf8 hw hw'
    have htime : s1.headBlockTime = s.headBlockTime := by rw [hframe]; rfl
    have hfind {y : WalletName} {v : Nat × WalletObject} (hv : s.findAccount y = some v) :=
      findAccount_set (f := posted s.headBlockTime false) (fun _ => rfl) hw hwallets hv
    obtain ⟨s', hrun, hleak', hposted, hframe'⟩ := ih hleak hnodup fun y hy => by
      obtain ⟨v, hv, hv'⟩ := hothers y hy
      have hne : y ≠ x := fun heq => hx (heq ▸ hy)
      exact ⟨v, (hfind hv).trans (by rw [if_neg hne]), htime ▸ hv'⟩
    refine ⟨s', ?_, ?_, fun y v hv => ?_, ?_⟩
    · rw [flatMap_cons, applyOperations, foldlM_append]
      exact bind_ok hround hrun
    · rw [length_cons, add_comm authors.length, ← add_assoc]
      exact hleak'
    · rw [hposted y _ (hfind hv), htime]
      by_cases hyx : y = x
      · subst hyx
        simp [hx]
      · simp [hyx]
    · rw [hframe', hframe]

end Round

end Objects

/-! ### Blocks of one unsigned transaction -/

def overflowEnv : Env :=
  { toyEnv with fetchPriorBlock := fun _ => some (toyBlock .zero 0 [] "") }

def overflowCreate (key : Nat) : WalletCreateOperation := { toyCreate key key with social := .default }

def overflowAuthors : List WalletName :=
  [xgtMinerWallet, xgtNullWallet, xgtTempWallet, getWalletName toyParams.toCrypto [⟨5⟩],
    getWalletName toyParams.toCrypto [⟨6⟩]]

def overflowStart : SignedBlock :=
  toyBlock .zero 3
    [toyTransaction 0
      [.walletCreate (overflowCreate 5), .walletCreate (overflowCreate 6)] [] (xgtGenesisTime + 33),
     toyTransaction 1 [.comment (toyComment xgtTempWallet "a" "" "topic"),
       .comment (toyComment xgtNullWallet "b" xgtTempWallet "a")] [] (xgtGenesisTime + 33)]

def overflowTime : Nat → Nat
  | 0 => xgtGenesisTime
  | k + 1 => overflowTime k + 3

/-- What a block of one unsigned transaction needs of the state, and leaves as it was. -/
structure Steady (s0 s : Objects) (k : Nat) : Prop where
  id : s.dgp.headBlockId.num = k
  number : s.dgp.headBlockNumber = k
  time : s.dgp.time = overflowTime k
  size : s.dgp.maximumBlockSize = xgtMaxBlockSize
  irreversible : s.lib ≤ k ∧ k ≤ s.lib + xgtMaxWitnesses
  authorities : s.authorities = s0.authorities
  witness : s.checkWitness overflowStart = .ok ()
  hardfork : s.hardforks.nextHardfork.vNum = 0
  transactions : ∀ t ∈ s.transactions.objects, t.trxId.data < (overflowTime (k + 1) + 30) * 1000

section Chain

variable {s0 s u : Objects} {k n : Nat} {ops : List Operation}

theorem Steady.authorize {t : SignedTransaction} (h : Steady s0 s k) (hsigs : t.signatures = [])
    (hchecks : s.checkOperations toyParams.toCrypto t t.operations = .ok ())
    (hauth : (verifyAuthority {} t.operations .empty s0.getters).isOk = true) :
    s.authorize toyParams.toCrypto t = .ok () := by
  have hgetters : s.getters = s0.getters := by
    unfold getters getAuthority findAuthority
    rw [h.authorities]
  have hverify : s.verifyTransaction toyParams.toCrypto t = .ok () := by
    unfold verifyTransaction Crypto.getSignatureKeys
    rw [hsigs, hgetters]
    cases hrun : verifyAuthority {} t.operations .empty s0.getters with
    | ok state =>
      change (verifyAuthority {} t.operations .empty s0.getters >>= fun _ => pure ()) = _
      rw [hrun]
      rfl
    | error e => rw [hrun] at hauth; cases hauth
  have hboth : (s.checkOperations toyParams.toCrypto t t.operations >>= fun _ =>
      s.verifyTransaction toyParams.toCrypto t) = .ok () := bind_ok hchecks hverify
  unfold Objects.authorize
  rw [hboth]

def overflowTransaction (k : Nat) (ops : List Operation) : SignedTransaction :=
  toyTransaction 0 ops [] (overflowTime k + 30)

theorem overflowTransaction_id (k : Nat) (ops : List Operation) :
    (toyParams.transactionId (overflowTransaction k ops).toTransaction).data = (overflowTime k + 30) * 1000 :=
  add_zero _

/-- The state with the transaction of block `k` recorded. -/
def recorded (s : Objects) (k : Nat) (ops : List Operation) : Objects :=
  { s with
    transactions := s.transactions.append ⟨toyParams.transactionId (overflowTransaction k ops).toTransaction,
      (overflowTransaction k ops).expiration⟩ }

def overflowBlock (parent : BlockId) (k : Nat) (ops : List Operation) : SignedBlock :=
  { toyBlock parent 0 [overflowTransaction k ops] with timestamp := overflowTime k }

/-- The operations pass every check on a transaction without signatures, and hold no work. -/
structure Unsigned (s0 : Objects) (ops : List Operation) : Prop where
  valid : Transaction.validate toyParams.toCrypto (overflowTransaction 0 ops).toTransaction = .ok ()
  checks : ∀ s t, Objects.checkOperations s toyParams.toCrypto t ops = .ok ()
  authorized : (verifyAuthority {} ops .empty s0.getters).isOk = true
  noPow : ops.findSome? Operation.pow? = none

theorem Steady.applyTransaction (h : Steady s0 s k) (hops : Unsigned s0 ops) :
    s.applyTransaction toyParams.toCrypto (overflowTransaction (k + 1) ops) overflowEnv =
      (recorded s (k + 1) ops).applyOperations toyParams.toCrypto overflowEnv ops := by
  refine applyTransaction_eq (t := overflowTransaction (k + 1) ops) rfl hops.valid ?_
    (h.authorize rfl (hops.checks _ _) hops.authorized) ?_
  · rw [isKnownTransaction, Option.isSome_eq_false_iff, Option.isNone_iff_eq_none,
      ObjectIndex.find?_eq_none]
    intro t ht
    have hold := h.transactions t ht
    refine decide_eq_false fun heq => ?_
    rw [heq, overflowTransaction_id] at hold
    exact lt_irrefl _ hold
  · have htime : s.headBlockTime = overflowTime k := h.time
    have hexp : (overflowTransaction (k + 1) ops).expiration = overflowTime k + 3 + 30 := rfl
    unfold checkExpiration
    rw [htime, hexp]
    split_ifs
    · refine bind_ok (ensure_ok ?_) (ensure_ok ?_)
      · change overflowTime k + 3 + 30 ≤ overflowTime k + 3600
        omega
      · change overflowTime k < overflowTime k + 3 + 30
        omega
    · rfl

theorem Steady.blockNum (h : Steady s0 s k) (ops : List Operation) (hk : k + 1 < 2 ^ 32) :
    (overflowBlock s.dgp.headBlockId (k + 1) ops).blockNum = k + 1 := by
  unfold BlockHeader.blockNum
  rw [show numFromId (overflowBlock s.dgp.headBlockId (k + 1) ops).previous = k from h.id, mod_eq_of_lt hk]

theorem Steady.block {w : Nat × WalletObject} (h : Steady s0 s k) (hk : k + 1 < 2 ^ 32)
    (hops : Unsigned s0 ops)
    (hrun : (recorded s (k + 1) ops).applyOperations toyParams.toCrypto overflowEnv ops = .ok u)
    (hu : u = { recorded s (k + 1) ops with
      wallets := u.wallets
      comments := u.comments
      commentContents := u.commentContents })
    (hnull : u.findAccount xgtNullWallet = some w) (hbalance : w.2.balance.amount = 0) :
    ∃ s', s.applyBlock toyParams overflowEnv (overflowBlock s.dgp.headBlockId (k + 1) ops) = .ok s' ∧
      Steady s0 s' (k + 1) ∧ s'.wallets = u.wallets ∧ s'.comments = u.comments ∧
      s'.commentContents = u.commentContents := by
  have hten : xgtMaxWitnesses = 10 := rfl
  have hundo : xgtMaxUndoHistory = 151200 := rfl
  have hnum := h.blockNum ops hk
  set b := overflowBlock s.dgp.headBlockId (k + 1) ops
  have hdgp : u.dgp = s.dgp := by rw [hu]; rfl
  have hlib : u.lib = s.lib := by rw [hu]; rfl
  have hhardforks : u.hardforks = s.hardforks := by rw [hu]; rfl
  have hmerkle := checkMerkleRoot_toyBlock s.dgp.headBlockId 0 [overflowTransaction (k + 1) ops]
  have hpow : firstPow b = none := by
    simpa [b, firstPow, overflowBlock, overflowTransaction, toyBlock, toyTransaction] using hops.noPow
  have htxs : s.applyTransactions toyParams.toCrypto overflowEnv b.transactions = .ok u :=
    foldlM_cons_ok_iff.2 ⟨u, (h.applyTransaction hops).trans hrun, rfl⟩
  have hwitness : s.checkWitness b = .ok () := h.witness
  have hpack : toyParams.packSize b = 200 := rfl
  have htime : b.timestamp = overflowTime (k + 1) := rfl
  have hheader : s.processHeaderExtensions b = .ok s := rfl
  have hid : (toyParams.blockId b.toSignedBlockHeader).num = b.blockNum := rfl
  change checkMerkleRoot _ b = _ at hmerkle
  clear_value b
  obtain ⟨hlow, hhigh⟩ := h.irreversible
  obtain ⟨target, hfinish⟩ := finishBlock_quiet (P := toyParams) overflowEnv
    (show (b.blockNum + 2 ^ 32 - u.lib) % 2 ^ 32 < xgtMaxUndoHistory by
      rw [hnum, hlib]
      omega) hnull hbalance hpow rfl (by rw [hhardforks, h.hardfork])
  have hblock : s.applyBlock toyParams overflowEnv b = .ok _ :=
    bind_ok hmerkle (bind_ok (fcAssert_ok (by rw [h.size, hpack]; decide))
      (bind_ok hheader (bind_ok hwitness (bind_ok htxs hfinish))))
  refine ⟨_, hblock, ⟨hid.trans hnum, hnum, htime, ?_, ?_, ?_, ?_, ?_, ?_⟩, rfl, rfl, rfl⟩
  · change u.dgp.maximumBlockSize = _
    rw [hdgp, h.size]
  · change (if xgtMaxWitnesses < b.blockNum then b.blockNum - xgtMaxWitnesses
      else u.lib) ≤ k + 1 ∧
      k + 1 ≤ (if xgtMaxWitnesses < b.blockNum then b.blockNum - xgtMaxWitnesses else u.lib) + xgtMaxWitnesses
    rw [hnum, hlib]
    split_ifs <;> omega
  · change u.authorities = _
    rw [hu]
    exact h.authorities
  · have hwitnesses : u.witnesses = s.witnesses := by rw [hu]; rfl
    have hwitness := h.witness
    unfold checkWitness getWitness findWitness at hwitness ⊢
    rwa [← hwitnesses, ← hhardforks] at hwitness
  · exact (congrArg (fun hf => hf.nextHardfork.vNum) hhardforks).trans h.hardfork
  · intro t ht
    have hlater : (overflowTime (k + 1) + 30) * 1000 < (overflowTime (k + 1) + 3 + 30) * 1000 := by omega
    have hmem := (mem_removeIf.1 ht).1
    rw [show u.transactions = (recorded s (k + 1) ops).transactions by rw [hu]] at hmem
    obtain ⟨i, hi⟩ := mem_objects.1 hmem
    rcases mem_append.1 hi with hi | hi
    · exact (h.transactions t (mem_objects.2 ⟨i, hi⟩)).trans hlater
    · rw [(Prod.mk.inj (mem_singleton.1 hi)).2]
      exact (overflowTransaction_id (k + 1) ops).trans_lt hlater

/-! ### Rounds until the counter is zero -/

structure Overflowing (s0 s : Objects) (k n : Nat) : Prop where
  steady : Steady s0 s k
  leaking : s.Leaking n
  rested : ∀ x ∈ overflowAuthors, ∃ w ∈ s.findAccount x, w.2.lastPost + 3 ≤ s.dgp.time
  null : ∃ w ∈ s.findAccount xgtNullWallet, w.2.balance.amount = 0

theorem Overflowing.block (h : Overflowing s0 s k n) (hk : k + 1 < 2 ^ 32)
    (hops : Unsigned s0 (overflowAuthors.flatMap Objects.round)) :
    ∃ s', s.applyBlock toyParams overflowEnv (overflowBlock s.dgp.headBlockId (k + 1)
        (overflowAuthors.flatMap Objects.round)) = .ok s' ∧ Overflowing s0 s' (k + 1) (n + 5) := by
  have hleak : (recorded s (k + 1) (overflowAuthors.flatMap Objects.round)).Leaking n :=
    ⟨h.leaking.comments, h.leaking.wallets, h.leaking.contents, h.leaking.ids, h.leaking.rows⟩
  obtain ⟨u, hrun, hleak', hposted, hu⟩ := hleak.rounds overflowEnv
    (show toyParams.toCrypto.isUtf8 "" = true from rfl) (show overflowAuthors.Nodup by decide +kernel) h.rested
  obtain ⟨w, hw, hzero⟩ := h.null
  have hnull := hposted xgtNullWallet w hw
  obtain ⟨s', hblock, hsteady, hwallets, hcomments, hcontents⟩ := h.steady.block hk hops hrun hu hnull
    (by split_ifs <;> exact hzero)
  have hsame (y : WalletName) : s'.findAccount y = u.findAccount y := by
    unfold findAccount
    rw [hwallets]
  refine ⟨s', hblock, hsteady, ?_, fun x hx => ?_, ⟨_, (hsame _).trans hnull, ?_⟩⟩
  · obtain ⟨hcomm, hunique, hold, hids, hrows⟩ := hleak'
    exact ⟨hcomments ▸ hcomm, hwallets ▸ hunique, by rwa [hcomments, hcontents], hcomments ▸ hids,
      hcomments ▸ hrows⟩
  · obtain ⟨v, hv, -⟩ := h.rested x hx
    have hafter := hposted x v hv
    rw [if_pos hx] at hafter
    refine ⟨_, (hsame _).trans hafter, ?_⟩
    rw [hsteady.time]
    change s.dgp.time + 3 ≤ overflowTime k + 3
    rw [h.steady.time]
  · split_ifs <;> exact hzero

theorem overflow_starts : ∃ s0, AcceptedChain toyParams [overflowStart] s0 ∧ Overflowing s0 s0 1 1 ∧
    Unsigned s0 (overflowAuthors.flatMap Objects.round) ∧
    Unsigned s0 [.deleteComment ⟨xgtTempWallet, "a"⟩] := by
  obtain ⟨s0, hs0, hready⟩ := exists_ok_of_any (x := runBlocks toyParams overflowEnv [overflowStart])
    (p := fun s => decide ((∀ r ∈ s.commentContents.rows, r.2.comment < s.comments.nextId) ∧
      s.comments.rows.map Prod.fst = [0, 1] ∧ s.comments.rows.map (fun r => outline r.2) =
        [((xgtTempWallet, "a", "", "topic"), 0, 0, 1 % 2 ^ 32, true),
         ((xgtNullWallet, "b", xgtTempWallet, "a"), 1, 0, 0, true)] ∧
      (s.dgp.headBlockId.num = 1 ∧ s.dgp.headBlockNumber = 1 ∧ s.dgp.time = overflowTime 1 ∧
        s.dgp.maximumBlockSize = xgtMaxBlockSize ∧ s.lib ≤ 1 ∧
        1 ≤ s.lib + xgtMaxWitnesses)) && decide (
      s.checkWitness overflowStart = .ok () ∧ s.hardforks.nextHardfork.vNum = 0 ∧
      (∀ t ∈ s.transactions.objects, t.trxId.data < (overflowTime 2 + 30) * 1000) ∧
      (∀ x ∈ overflowAuthors, ∃ w ∈ s.findAccount x, w.2.lastPost + 3 ≤ s.dgp.time) ∧
      (∃ w ∈ s.findAccount xgtNullWallet, w.2.balance.amount = 0) ∧
      (verifyAuthority {} (overflowAuthors.flatMap Objects.round) .empty s.getters).isOk ∧
      (verifyAuthority {} [.deleteComment ⟨xgtTempWallet, "a"⟩] .empty s.getters).isOk)) (by decide +kernel)
  simp only [Bool.and_eq_true, decide_eq_true_eq] at hready
  obtain ⟨⟨hcontents, hids, hrows, hid, hnumber, htime, hsize, hlib⟩, hwitness, hfork, htxs, hrested, hnull,
    hrounds, hdelete⟩ := hready
  have hchain := acceptedChain_of_runBlocks rfl (by decide +kernel) hs0
  obtain ⟨_, hrun⟩ := hchain.operationRun
  have hunique := (hrun.uniqueKeys (uniqueKeys_genesis _)).1
  exact ⟨s0, hchain, ⟨⟨hid, hnumber, htime, hsize, hlib, rfl, hwitness, hfork, htxs⟩,
    ⟨hunique.comments, hunique.wallets, hcontents, hids, hrows⟩, hrested, hnull⟩,
    ⟨by decide +kernel, fun _ _ => rfl, hrounds, rfl⟩, ⟨by decide +kernel, fun _ _ => rfl, hdelete, rfl⟩⟩

theorem overflow_reaches {j : Nat} (hchain : AcceptedChain toyParams [overflowStart] s0)
    (h : Overflowing s0 s0 1 1) (hops : Unsigned s0 (overflowAuthors.flatMap Objects.round))
    (hj : j + 1 < 2 ^ 32) :
    ∃ blocks s, AcceptedChain toyParams blocks s ∧ (∀ b ∈ blocks, b.timestamp ≤ overflowTime (j + 1)) ∧
      Overflowing s0 s (j + 1) (1 + 5 * j) := by
  induction j with
  | zero => exact ⟨_, s0, hchain, fun b hb => by rw [mem_singleton.1 hb]; rfl, h⟩
  | succ j ih =>
    obtain ⟨blocks, s, hchain, htimes, hover⟩ := ih (by omega)
    obtain ⟨s', hblock, hover'⟩ := hover.block hj hops
    refine ⟨_, s', .block hchain rfl ?_ hblock, fun b hb => ?_, hover'⟩
    · rw [hover.steady.blockNum _ hj]
      exact succ_pos _
    · rcases mem_append.1 hb with hb | hb
      · exact (htimes b hb).trans (le_add_right _ 3)
      · rw [mem_singleton.1 hb]
        rfl

/-- At a full turn of its counter the root passes for a comment without replies. -/
theorem Overflowing.deleteRoot (h : Overflowing s0 s k n)
    (hops : Unsigned s0 [.deleteComment ⟨xgtTempWallet, "a"⟩]) (hn : n % 2 ^ 32 = 0) (hk : k + 1 < 2 ^ 32) :
    ∃ s', s.applyBlock toyParams overflowEnv (overflowBlock s.dgp.headBlockId (k + 1)
      [.deleteComment ⟨xgtTempWallet, "a"⟩]) = .ok s' ∧ ¬ Threaded s'.comments := by
  obtain ⟨a, b, hrows, ha, -⟩ := h.leaking.exists_rows
  have hfound : s.findComment xgtTempWallet "a" = some (0, a) :=
    findComment_eq_some h.leaking.comments (by simp [hrows]) (congrArg (·.1.1) ha) (congrArg (·.1.2.1) ha)
  let u := recorded s (k + 1) [.deleteComment ⟨xgtTempWallet, "a"⟩]
  have hforest : Forest u.comments := h.leaking.forest
  have hdelete : u.applyOperation toyParams.toCrypto overflowEnv
    (.deleteComment ⟨xgtTempWallet, "a"⟩) = .ok _ :=
    applyDeleteComment_eq hforest hfound ((congrArg (·.2.2.2.1) ha).trans hn)
  obtain ⟨w, hw, hbalance⟩ := h.null
  obtain ⟨s', hblock, -, -, hcomments, -⟩ := h.steady.block hk hops
    (foldlM_cons_ok_iff.2 ⟨_, plainError_ok_iff.2 hdelete, rfl⟩) rfl hw hbalance
  refine ⟨s', hblock, fun hthreaded => ?_⟩
  rw [hcomments] at hthreaded
  exact (applyOperation_forest hforest hdelete).2 hthreaded _ hfound (1, b)
    (show (1, b) ∈ s.comments.rows by simp [hrows]) (h.leaking.parent hrows)

theorem overflowTime_eq (k : Nat) : overflowTime k = xgtGenesisTime + 3 * k := by
  induction k with
  | zero => rfl
  | succ k ih =>
    unfold overflowTime
    rw [ih, mul_succ, add_assoc]

theorem threaded_overflow : ∃ (blocks : List SignedBlock) (s : Objects),
    AcceptedChain toyParams blocks s ∧ (∀ b ∈ blocks, b.timestamp < 2 ^ 32) ∧ ¬ Threaded s.comments := by
  obtain ⟨s0, hs0, hstart, hrounds, hdelete⟩ := overflow_starts
  obtain ⟨j, hzero, hj, hlast⟩ :
      ∃ j, (1 + 5 * j) % 2 ^ 32 = 0 ∧ j + 1 + 1 < 2 ^ 32 ∧ overflowTime (j + 1 + 1) < 2 ^ 32 := by
    simp only [overflowTime_eq]
    exact ⟨858993459, by decide⟩
  obtain ⟨blocks, s, hchain, htimes, hover⟩ := overflow_reaches hs0 hstart hrounds (lt_of_succ_lt hj)
  obtain ⟨s', hblock, hnot⟩ := hover.deleteRoot hdelete hzero hj
  refine ⟨_, s', .block hchain rfl ?_ hblock, fun c hc => ?_, hnot⟩
  · rw [hover.steady.blockNum _ hj]
    exact succ_pos _
  · rcases mem_append.1 hc with hc | hc
    · exact ((htimes c hc).trans (le_add_right _ 3)).trans_lt hlast
    · rw [mem_singleton.1 hc]
      exact hlast

end Chain

end Xgt
