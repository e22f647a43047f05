import XgtChain.Chain.CommentThreads

/-!
# Contents of comments

The text of a comment stands in a table of its own, which is tied to the table of comments by the id of
the comment.
-/

namespace Xgt

open Base ObjectIndex List Operation CommentTree

/-! ## What was written -/

open Objects

variable (author : WalletName) (permlink : String)

def sameName (author' : WalletName) (permlink' : String) : Bool :=
  author = author' && cStr permlink = cStr permlink'

def Operation.addTo (ops : List CommentOperation) :
    Operation → List CommentOperation
  | .comment o => if sameName author permlink o.author o.permlink then ops ++ [o] else ops
  | .deleteComment o => if sameName author permlink o.author o.permlink then [] else ops
  | _ => ops

/-- The operations that wrote the comment, since its last deletion. -/
def commentHistory (steps : List OpStep) : List CommentOperation :=
  steps.foldl (fun ops step => step.2.addTo author permlink ops) []

/-- The content is the text of the operation, without a body that is too long. -/
structure CommentContentObject.IsOf (c : CommentContentObject) (o : CommentOperation) : Prop where
  title : c.title = o.title
  body : c.body = if o.body.utf8ByteSize < 1024 * 1024 * 128 then o.body else ""
  jsonMetadata : c.jsonMetadata = o.jsonMetadata

variable {permlink} {permlink' : String} {author} {author' : WalletName}

theorem sameName_iff :
    sameName author permlink author' permlink' = true ↔ author = author' ∧ cStr permlink = cStr permlink' := by
  simp [sameName]

theorem sameName_comm :
    sameName author permlink author' permlink' = sameName author' permlink' author permlink := by
  simp only [sameName, eq_comm]

section Written

variable {s s' : Objects} {steps : List OpStep} {op : Operation}
variable {g : Nat → CommentObject → CommentObject}

theorem commentHistory_concat : commentHistory author permlink (steps ++ [(s, op)]) =
    op.addTo author permlink (commentHistory author permlink steps) := by
  rw [commentHistory, foldl_append]
  rfl

theorem findComment_eq_none_iff : s.findComment author permlink = none ↔
    ∀ r ∈ s.comments.rows, sameName r.2.author r.2.permlink author permlink = false := by
  unfold findComment ObjectIndex.find?
  simp only [List.find?_eq_none, Bool.not_eq_true]
  rfl

/-- Every comment has the content that the first operation under its name wrote, and a name without a
comment has no operations since its deletion. -/
structure Told (steps : List OpStep) (s : Objects) : Prop where
  fresh : ∀ c ∈ s.commentContents.rows, c.2.comment < s.comments.nextId
  told : ∀ r ∈ s.comments.rows, ∃ o rest, commentHistory r.2.author r.2.permlink steps = o :: rest ∧
    ∃ c ∈ s.commentContents.rows, c.2.comment = r.1 ∧ c.2.IsOf o
  silent : ∀ author permlink, s.findComment author permlink = none → commentHistory author permlink steps = []

variable (h : Told steps s)
include h

theorem Told.kept {steps' : List OpStep} (hlinks : ∀ i c, SameLinks (g i c) c)
    (hcomments : s'.comments = s.comments.mapRows g) (hcontents : s'.commentContents = s.commentContents)
    (hwritten : ∀ r ∈ s.comments.rows, ∃ rest, commentHistory r.2.author r.2.permlink steps' =
      commentHistory r.2.author r.2.permlink steps ++ rest)
    (hsilent : ∀ author permlink, s.findComment author permlink = none →
      commentHistory author permlink steps' = commentHistory author permlink steps) : Told steps' s' := by
  refine ⟨?_, fun r hr => ?_, fun author permlink hnone => ?_⟩
  · rw [hcontents, hcomments]
    exact h.fresh
  · rw [hcomments] at hr
    obtain ⟨a, ha, hra⟩ := mem_mapRows.1 hr
    obtain ⟨o, rest, hold, hcontent⟩ := h.told _ ha
    obtain ⟨rest', hnew⟩ := hwritten _ ha
    refine ⟨o, rest ++ rest', ?_, hcontents ▸ hcontent⟩
    rw [← hra, (hlinks r.1 a).author, (hlinks r.1 a).permlink, hnew, hold, cons_append]
  · have hnone' : s.findComment author permlink = none := by
      rw [findComment_eq_none_iff] at hnone ⊢
      intro r hr
      have hkept := hnone (r.1, g r.1 r.2) (hcomments ▸ mem_mapRows_of_mem hr)
      rwa [(hlinks r.1 r.2).author, (hlinks r.1 r.2).permlink] at hkept
    rw [hsilent author permlink hnone', h.silent author permlink hnone']

theorem Told.created {o : CommentOperation} {new : CommentObject}
    (hnone : s.findComment o.author o.permlink = none) (hauthor : new.author = o.author)
    (hpermlink : new.permlink = o.permlink) (hlinks : ∀ i c, SameLinks (g i c) c)
    (hcomments : s'.comments = (s.comments.append new).mapRows g)
    (hcontents : s'.commentContents = s.commentContents.append (s.newContent o)) :
    Told (steps ++ [(s, .comment o)]) s' := by
  -- no other comment has the name
  have hother : ∀ r ∈ s.comments.rows, sameName r.2.author r.2.permlink o.author o.permlink = false :=
    findComment_eq_none_iff.1 hnone
  refine ⟨fun c hc => ?_, fun r hr => ?_, fun author permlink hnone' => ?_⟩
  · rw [hcontents] at hc
    rw [hcomments]
    rcases mem_append.1 hc with hc | hc
    · exact (h.fresh c hc).trans (Nat.lt_succ_self _)
    · rw [mem_singleton.1 hc]
      exact Nat.lt_succ_self _
  · rw [hcomments] at hr
    obtain ⟨a, ha, hra⟩ := mem_mapRows.1 hr
    rw [← hra, (hlinks r.1 a).author, (hlinks r.1 a).permlink, commentHistory_concat, hcontents]
    rcases mem_append.1 ha with hold | hnew
    · obtain ⟨o', rest, hwritten, c, hc, hmatch⟩ := h.told _ hold
      refine ⟨o', rest, ?_, c, mem_append_left _ hc, hmatch⟩
      rw [addTo, if_neg (by rw [hother _ hold]; decide)]
      exact hwritten
    · obtain ⟨hid, rfl⟩ := Prod.mk.inj (mem_singleton.1 hnew)
      refine ⟨o, [], ?_, _, mem_concat_self, hid.symm, ⟨rfl, rfl, rfl⟩⟩
      rw [hauthor, hpermlink, addTo, if_pos (by simp [sameName]), h.silent _ _ hnone, nil_append]
  · rw [findComment_eq_none_iff, hcomments] at hnone'
    have hold : s.findComment author permlink = none := findComment_eq_none_iff.2 fun r hr => by
      have hkept := hnone' _ (mem_mapRows_of_mem (g := g) (mem_append_left _ hr))
      rwa [(hlinks r.1 r.2).author, (hlinks r.1 r.2).permlink] at hkept
    have hnew := hnone' _ (mem_mapRows_of_mem (g := g)
      (mem_append_right s.comments.rows (mem_singleton_self (s.comments.nextId, new))))
    rw [(hlinks _ _).author, (hlinks _ _).permlink, hauthor, hpermlink, sameName_comm] at hnew
    rw [commentHistory_concat, addTo, if_neg (by rw [hnew]; decide)]
    exact h.silent _ _ hold

theorem Told.deleted {o : DeleteCommentOperation} {r : Nat × CommentObject} (hunique : s.comments.Unique)
    (hfound : s.findComment o.author o.permlink = some r)
    (hlinks : ∀ i c, SameLinks (g i c) c)
    (hcomments : s'.comments = (s.comments.mapRows g).remove r.1)
    (hcontents : s'.commentContents = s.commentContents) :
    Told (steps ++ [(s, .deleteComment o)]) s' := by
  obtain ⟨hr, hname⟩ := of_find? hfound
  refine ⟨?_, fun x hx => ?_, fun author permlink hnone => ?_⟩
  · rw [hcontents, hcomments]
    exact h.fresh
  · rw [hcomments] at hx
    obtain ⟨hx, hne⟩ := mem_remove.1 hx
    obtain ⟨a, ha, hxa⟩ := mem_mapRows.1 hx
    rw [← hxa, (hlinks x.1 a).author, (hlinks x.1 a).permlink, commentHistory_concat, hcontents]
    have hother : sameName a.author a.permlink o.author o.permlink = false := by
      refine Bool.not_eq_true _ ▸ fun hsame => hne ?_
      obtain ⟨hauthor, hpermlink⟩ := sameName_iff.1 hsame
      obtain ⟨hauthor', hpermlink'⟩ := sameName_iff.1 hname
      have hclash : Keyed.clash a r.2 = true :=
        sameName_iff.2 ⟨hauthor.trans hauthor'.symm, hpermlink.trans hpermlink'.symm⟩
      exact (Prod.mk.inj (hunique _ ha _ hr hclash)).1
    rw [addTo, if_neg (by rw [hother]; decide)]
    exact h.told _ ha
  · rw [commentHistory_concat, addTo]
    split_ifs with hsame
    · rfl
    · refine h.silent _ _ (findComment_eq_none_iff.2 fun x hx => ?_)
      by_cases hid : x.1 = r.1
      · obtain rfl := eq_of_mem hx hr hid
        refine Bool.not_eq_true _ ▸ fun hxname => hsame ?_
        obtain ⟨hauthor, hpermlink⟩ := sameName_iff.1 hxname
        obtain ⟨hauthor', hpermlink'⟩ := sameName_iff.1 hname
        exact sameName_iff.2 ⟨hauthor.symm.trans hauthor', hpermlink.symm.trans hpermlink'⟩
      · have hkept := findComment_eq_none_iff.1 hnone (x.1, g x.1 x.2) (by
          rw [hcomments]
          exact mem_remove.2 ⟨mem_mapRows_of_mem hx, hid⟩)
        rwa [(hlinks x.1 x.2).author, (hlinks x.1 x.2).permlink] at hkept

theorem Told.step {cr : Crypto} {env : Env} (hunique : s.comments.Unique)
    (hop : s.applyOperation cr env op = .ok s') : Told (steps ++ [(s, op)]) s' := by
  cases applyOperation_commentStep hop with
  | @kept _ g hcomment hdelete hlinks _ hcomments hcontents =>
    have hsame (author : WalletName) (permlink : String) :
        commentHistory author permlink (steps ++ [(s, op)]) = commentHistory author permlink steps := by
      rw [commentHistory_concat]
      cases op with
      | comment o => exact absurd rfl (hcomment o)
      | deleteComment o => exact absurd rfl (hdelete o)
      | _ => rfl
    exact h.kept hlinks hcomments hcontents (fun r _ => ⟨[], by rw [hsame, append_nil]⟩)
      fun _ _ _ => hsame _ _
  | @edited o r g hfound hlinks _ hcomments hcontents =>
    refine h.kept hlinks hcomments hcontents (fun x _ => ?_) fun author permlink hnone => ?_
    · rw [commentHistory_concat, addTo]
      split_ifs
      · exact ⟨[o], rfl⟩
      · exact ⟨[], (append_nil _).symm⟩
    · rw [commentHistory_concat, addTo, if_neg]
      intro hsame
      obtain ⟨hr, hname⟩ := of_find? hfound
      obtain ⟨hauthor, hpermlink⟩ := sameName_iff.1 hsame
      obtain ⟨hauthor', hpermlink'⟩ := sameName_iff.1 hname
      have hother := findComment_eq_none_iff.1 hnone r hr
      rw [sameName_iff.2 ⟨hauthor'.trans hauthor.symm, hpermlink'.trans hpermlink.symm⟩] at hother
      cases hother
  | @created o parent g hnone _ hlinks hcomments _ hcontents =>
    have hname : (s.newComment o parent).author = o.author ∧ (s.newComment o parent).permlink = o.permlink := by
      cases parent <;> exact ⟨rfl, rfl⟩
    exact h.created hnone hname.1 hname.2 hlinks hcomments hcontents
  | deleted hfound _ hcomments hcontents =>
    exact h.deleted hunique hfound (changeAt_sameLinks _ (uncounted_sameLinks _)) hcomments hcontents

end Written

section Runs

variable {cr : Crypto} {key : PublicKey} {steps : List OpStep} {s : Objects}

theorem told_run (h : OperationRun cr (Valid cr) (genesis key) steps s) : Told steps s := by
  induction h with
  | nil => exact ⟨nofun, nofun, fun _ _ _ => rfl⟩
  | operation hrun _ hop ih =>
    exact ih.step (hrun.uniqueKeys (uniqueKeys_genesis key)).1.comments hop
  | other _ hother ih =>
    obtain ⟨hfresh, htold, hsilent⟩ := ih
    have hcomments := hother.comments_of_outside
    have hcontents : _ = _ := hother.commentContents_eq fun c hc heq => by
      cases c <;> first | exact hc.elim | cases heq
    refine ⟨by rwa [hcomments, hcontents], by rwa [hcomments, hcontents], fun author permlink hnone => ?_⟩
    unfold findComment at hnone
    rw [hcomments] at hnone
    exact hsilent author permlink hnone

theorem contents_match (h : OperationRun cr (Valid cr) (genesis key) steps s) :
    ∀ r ∈ s.comments.rows, ∃ c ∈ s.commentContents.rows,
      (∀ c' ∈ s.commentContents.rows, c'.2.comment = r.1 ↔ c' = c) ∧
      commentHistory r.2.author r.2.permlink steps ≠ [] ∧
      ∀ o, commentHistory r.2.author r.2.permlink steps = [o] → c.2.IsOf o := by
  intro r hr
  have hunique := (h.uniqueKeys (uniqueKeys_genesis key)).1.commentContents
  obtain ⟨o, rest, hhistory, c, hc, hid, hmatch⟩ := (told_run h).told r hr
  refine ⟨c, hc, fun c' hc' => ⟨fun hid' => ?_, fun heq => heq ▸ hid⟩, ?_, fun o' ho' => ?_⟩
  · exact hunique _ hc' _ hc (decide_eq_true (hid'.trans hid.symm))
  · rw [hhistory]
    exact cons_ne_nil _ _
  · rw [hhistory] at ho'
    cases ho'
    exact hmatch

theorem contents_match_reply : ∃ (steps : List OpStep) (s : Objects),
    s.comments.rows.length = 1 ∧ ∀ r ∈ s.comments.rows, ∃ c ∈ s.commentContents.rows,
      (∀ c' ∈ s.commentContents.rows, c'.2.comment = r.1 ↔ c' = c) ∧
      commentHistory r.2.author r.2.permlink steps ≠ [] ∧
      ∀ o, commentHistory r.2.author r.2.permlink steps = [o] → c.2.IsOf o := by
  obtain ⟨steps, s, hrun, -, hrows⟩ := replyDeleted_run
  exact ⟨steps, s, hrows, contents_match hrun⟩

end Runs

/-! ## A body that is not stored -/

section Long

variable {body : String}

def longComment (body : String) : CommentOperation :=
  { toyComment xgtTempWallet "a" "" "topic" with body := body }

theorem steady_genesis : Steady (genesis ⟨1⟩) (genesis ⟨1⟩) 0 :=
  ⟨rfl, rfl, rfl, rfl, ⟨Nat.zero_le _, Nat.zero_le _⟩, rfl, by decide +kernel, rfl,
    nofun⟩

theorem unsigned_longComment (hbody : 0 < body.utf8ByteSize) :
    Unsigned (genesis ⟨1⟩) [.comment (longComment body)] := by
  refine ⟨?_, fun _ _ => rfl, ?_, rfl⟩
  · have hshort : (toyComment xgtTempWallet "a" "" "topic").validate toyParams.toCrypto = .ok () := by
      decide +kernel
    have hlong : (longComment body).validate toyParams.toCrypto = .ok () := by
      obtain ⟨_, htitle, hshort⟩ := of_bind hshort
      obtain ⟨_, -, hshort⟩ := of_bind hshort
      obtain ⟨_, -, hshort⟩ := of_bind hshort
      obtain ⟨_, -, hshort⟩ := of_bind hshort
      exact bind_ok htitle (bind_ok rfl (bind_ok
        (fcAssert_ok hbody) (bind_ok rfl hshort)))
    exact bind_ok rfl (bind_ok hlong rfl)
  · have hshort : (verifyAuthority {} [.comment (toyComment xgtTempWallet "a" "" "topic")] .empty
        (genesis ⟨1⟩).getters).isOk = true := by decide +kernel
    have hsame : requiredAuthorities [.comment (longComment body)] =
        requiredAuthorities [.comment (toyComment xgtTempWallet "a" "" "topic")] := rfl
    unfold verifyAuthority at hshort ⊢
    rwa [hsame]

theorem exists_long_string (n : Nat) : ∃ body : String, n ≤ body.utf8ByteSize := by
  induction n with
  | zero => exact ⟨"", Nat.zero_le _⟩
  | succ n ih =>
    obtain ⟨body, hbody⟩ := ih
    refine ⟨body ++ "a", ?_⟩
    rw [String.utf8ByteSize_append]
    exact Nat.add_le_add hbody (by decide)

theorem contents_cut : ∃ (b : SignedBlock) (o : CommentOperation) (s : Objects) (r : Nat × CommentObject)
    (c : Nat × CommentContentObject), AcceptedChain toyParams [b] s ∧
      (b.transactions.flatMap fun t => t.operations) = [.comment o] ∧ r ∈ s.comments.rows ∧
      r.2.author = o.author ∧ r.2.permlink = o.permlink ∧ c ∈ s.commentContents.rows ∧
      c.2.comment = r.1 ∧ c.2.body ≠ o.body := by
  obtain ⟨body, hlong⟩ := exists_long_string (1024 * 1024 * 128)
  have hbody : 0 < body.utf8ByteSize := lt_of_lt_of_le (by decide) hlong
  let o := longComment body
  obtain ⟨w, hw, hrest⟩ : ∃ w ∈ (genesis ⟨1⟩).findAccount xgtTempWallet,
      ((genesis ⟨1⟩).headBlockTime : Int) - w.2.lastRootPost > 60 * 5 := by decide +kernel
  obtain ⟨v, hv, hzero⟩ : ∃ w ∈ (genesis ⟨1⟩).findAccount xgtNullWallet, w.2.balance.amount = 0 := by
    decide +kernel
  let s := recorded (genesis ⟨1⟩) 1 [.comment o]
  have hforest : Forest s.comments := (countsBy_genesis (fun _ _ => True) ⟨1⟩).forest
  have hcomment : s.applyComment toyParams.toCrypto o = .ok (s.commented o w none) := by
    refine applyComment_new hforest (uniqueKeys_genesis _).wallets nofun ?_ rfl hw rfl hrest rfl
      (show validatePermlink01 "topic" = .ok () by decide) (show validatePermlink01 "a" = .ok () by decide)
    change "".utf8ByteSize + body.utf8ByteSize + "".utf8ByteSize ≠ 0
    omega
  have hv' : (s.commented o w none).findAccount xgtNullWallet = _ :=
    findAccount_set (s := s) (f := posted xgtGenesisTime true) (fun _ => rfl) hw rfl hv
  obtain ⟨s', hblock, -, -, hcomments, hcontents⟩ := steady_genesis.block (by decide)
    (unsigned_longComment hbody) (foldlM_cons_ok_iff.2 ⟨_, plainError_ok_iff.2 hcomment, rfl⟩) rfl hv'
    (by split_ifs <;> exact hzero)
  refine ⟨_, o, s', (0, (genesis ⟨1⟩).newComment o none), (0, (genesis ⟨1⟩).newContent o),
    .block (AcceptedChain.genesis : AcceptedChain toyParams [] _) rfl ?_ hblock, rfl, ?_, rfl, rfl, ?_, rfl,
    fun heq => ?_⟩
  · rw [steady_genesis.blockNum _ (by decide)]
    decide
  · rw [hcomments]
    exact mem_singleton_self _
  · rw [hcontents]
    exact mem_singleton_self _
  · have hempty : (if body.utf8ByteSize < 1024 * 1024 * 128 then body else "") = body := heq
    rw [if_neg (Nat.not_lt.2 hlong)] at hempty
    rw [← hempty] at hbody
    exact absurd hbody (by decide)

end Long

end Xgt
