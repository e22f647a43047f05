import XgtChain.Chain.CommentTree
import XgtChain.Chain.PushBlock

/-!
# Comments

What operations do to the tree of comments (`CommentStep`), and what follows for its counters over every
run.
-/

namespace Xgt

open Base ObjectIndex List CommentObject Operation

/-! ## What operations do to the tree -/

namespace Objects

open CommentTree

variable {s s' : Objects} {cr : Crypto} {env : Env}
variable {f : CommentObject → CommentObject} {t : ObjectIndex CommentObject}
  {parent : Option (Nat × CommentObject)} {o : CommentOperation} {p : Nat × CommentObject}
  (now : TimePointSec) (c : CommentObject) (ids : List Nat) {fuel : Nat}

def counted : CommentObject :=
  { c with children := (c.children + 1) % 2 ^ 32, active := now }

def uncounted : CommentObject :=
  { c with children := (c.children + 2 ^ 32 - 1) % 2 ^ 32, active := now }

/-- The change `f` at the comments with one of the given ids. -/
def changeAt (f : CommentObject → CommentObject) (i : Nat) (c : CommentObject) :
    CommentObject := if i ∈ ids then f c else c

theorem changeAt_sameLinks
    (hf : ∀ c, SameLinks (f c) c) (i : Nat) (c : CommentObject) : SameLinks (changeAt ids f i c) c := by
  unfold changeAt
  split_ifs
  · exact hf c
  · exact {}

theorem changeAt_children (hf : ∀ c, (f c).children = c.children) (i : Nat) (c : CommentObject) :
    (changeAt ids f i c).children = c.children := by
  unfold changeAt
  split_ifs
  · exact hf c
  · rfl

theorem modify?_changeAt {t' : ObjectIndex CommentObject} (hp : p ∈ t.rows)
    (h : t.modify? p.1 (f p.2) = some t') : t' = t.mapRows (changeAt [p.1] f) := by
  rw [modify?_eq h, set_eq_mapRows hp]
  exact mapRows_congr fun i a _ => by simp [changeAt]

theorem mapRows_changeAt_nil :
    t.mapRows (changeAt [] f) = t := mapRows_eq_self fun _ _ => rfl

theorem counted_sameLinks : SameLinks (counted now c) c :=
  {}

theorem uncounted_sameLinks : SameLinks (uncounted now c) c :=
  {}

theorem dbModify_changeAt (hf : ∀ c, SameLinks (f c) c) (hunique : t.Unique) (hp : p ∈ t.rows) :
    dbModify t p.1 (f p.2) = .ok (t.mapRows (changeAt [p.1] f)) := by
  have hkeys : SameKeys (f p.2) p.2 := fun c => by
    simp only [Keyed.clash, (hf p.2).author, (hf p.2).permlink]
  have hmod := hunique.modify? hp hkeys
  rw [dbModify_ok_iff, hmod, modify?_changeAt hp hmod]

/-- The climb of `countInAncestors`, for any change to the comments on the way. -/
def changeAncestors (f : CommentObject → CommentObject) :
    Nat → Objects → Nat × CommentObject → Result Objects
  | 0, _, _ => .error ⟨.other, "cyclic comments"⟩
  | fuel + 1, s, p => do
    let comments ← dbModify s.comments p.1 (f p.2)
    let s : Objects := { s with comments := comments }
    if p.2.parentAuthor = "" then pure s
    else
      let next ← s.getComment p.2.parentAuthor p.2.parentPermlink
      changeAncestors f fuel s next

theorem countInAncestors_eq (s : Objects) (fuel : Nat) (p : Nat × CommentObject) :
    s.countInAncestors fuel (some p) = changeAncestors (counted s.headBlockTime) fuel s p := by
  induction fuel generalizing s p with
  | zero => rfl
  | succ fuel ih =>
    unfold countInAncestors changeAncestors
    refine bind_congr fun comments => ?_
    split_ifs
    · rfl
    · exact bind_congr fun next => ih { s with comments := comments } next

theorem changeAncestors_eq (hf : ∀ c, SameLinks (f c) c) {ids : List Nat} (hforest : Forest s.comments)
    (hp : p ∈ s.comments.rows) (hclimbs : Climbs s.comments p.2 ids) (hfuel : ids.length < fuel) :
    changeAncestors f fuel s p = .ok { s with comments := s.comments.mapRows (changeAt (p.1 :: ids) f) } := by
  induction fuel generalizing s p ids with
  | zero => cases hfuel
  | succ fuel ih =>
    have hmod := dbModify_changeAt hf hforest.unique hp
    have hlinks := changeAt_sameLinks [p.1] hf
    unfold changeAncestors
    rw [hmod]
    change (if p.2.parentAuthor = "" then _ else _) = _
    cases hclimbs with
    | root hroot => exact if_pos hroot
    | @reply _ q ids hq hrest =>
      have hroot : p.2.parentAuthor ≠ "" := ((parent?_eq_some_iff hforest.unique).1 hq).1
      -- the next ancestor has another id, so the change before it left it as it was
      have habove := hforest.above_eq hp (.reply hq hrest)
      have hfalls : ∀ j ∈ q.1 :: ids, j ≠ p.1 := fun j hj =>
        (hforest.mem_above hp (habove ▸ hj)).1.ne
      have hfound : p.2.parent? (s.comments.mapRows (changeAt [p.1] f)) = some q := by
        rw [parent?_mapRows hlinks {}, hq]
        simp [changeAt, hfalls q.1 (.head _)]
      have hnext : ({ s with comments := s.comments.mapRows (changeAt [p.1] f) } : Objects).getComment
          p.2.parentAuthor p.2.parentPermlink = .ok q := by
        rw [parent?, if_neg hroot] at hfound
        exact getRow_ok_iff.2 hfound
      rw [if_neg hroot, hnext]
      refine (ih (s := { s with comments := s.comments.mapRows (changeAt [p.1] f) }) (hforest.mapRows hlinks)
        (parent?_mem hfound) (hrest.mapRows hlinks {})
        (Nat.lt_of_succ_lt_succ hfuel)).trans ?_
      change Except.ok { s with comments := _ } = Except.ok { s with comments := _ }
      rw [mapRows_mapRows]
      congr 2
      refine mapRows_congr fun i a _ => ?_
      unfold changeAt
      by_cases hi : i = p.1
      · have hnot : p.1 ∉ q.1 :: ids := fun hmem => hfalls _ hmem rfl
        subst hi
        simp only [if_true, if_neg hnot, mem_cons_self]
      · simp [hi]

theorem changeAncestors_links (hf : ∀ c, SameLinks (f c) c) (hp : p ∈ s.comments.rows)
    (h : changeAncestors f fuel s p = .ok s') :
    ∃ g, (∀ i c, SameLinks (g i c) c) ∧ s' = { s with comments := s.comments.mapRows g } := by
  induction fuel generalizing s p with
  | zero => cases h
  | succ fuel ih =>
    unfold changeAncestors at h
    obtain ⟨comments, hmod, h⟩ := of_bind h
    obtain rfl := modify?_changeAt hp (dbModify_ok_iff.1 hmod)
    have hlinks := changeAt_sameLinks [p.1] hf
    dsimp only at h
    split_ifs at h
    · cases h
      exact ⟨_, hlinks, rfl⟩
    · obtain ⟨next, hnext, h⟩ := of_bind h
      obtain ⟨g, hg, rfl⟩ := ih (of_getRow hnext).1 h
      refine ⟨fun i c => g i (changeAt [p.1] f i c), fun i c => (hg i _).trans (hlinks i c), ?_⟩
      dsimp only
      rw [mapRows_mapRows]

theorem parent?_newComment (hunique : s.comments.Unique)
    (hroot : o.parentAuthor ≠ "") (hp : s.findComment o.parentAuthor o.parentPermlink = some p) :
    p ∈ s.comments.rows ∧
      (s.newComment o (some p)).parent? (s.comments.append (s.newComment o (some p))) = some p := by
  obtain ⟨hmem, hkey⟩ := of_find? hp
  simp only [Bool.and_eq_true, decide_eq_true_eq] at hkey
  exact ⟨hmem, parent?_append ((parent?_eq_some_iff hunique).2
    ⟨fun hempty => hroot (hkey.1.symm.trans hempty), hmem, rfl, rfl⟩)⟩

theorem linked_newComment (hunique : s.comments.Unique) (h : s.commentParent o = .ok parent) :
    Linked (s.comments.append (s.newComment o parent)) (s.comments.nextId, s.newComment o parent) := by
  rcases commentParent_ok h with ⟨-, rfl⟩ | ⟨p, rfl, hroot, hp, hdepth⟩
  · exact .root rfl rfl rfl
  · obtain ⟨hmem, hparent⟩ := parent?_newComment hunique hroot hp
    refine .reply (p := p) hparent (s.comments.fresh p hmem) rfl ?_ rfl
    change p.2.depth + 1 < 2 ^ 16
    omega

theorem forest_newComment (h : Forest s.comments) (hparent : s.commentParent o = .ok parent)
    (hnew : s.comments.create? (s.newComment o parent) = some t) :
    Forest (s.comments.append (s.newComment o parent)) := by
  have hunique : t.Unique := (RowCall.Runs.create hnew).unique h.unique
  rw [create?_eq hnew] at hunique
  exact h.append hunique (linked_newComment h.unique hparent)

/-- The comments after `new` was counted above it. -/
def createdTable (t : ObjectIndex CommentObject) (new : CommentObject) (now : TimePointSec) :
    ObjectIndex CommentObject :=
  (t.append new).mapRows (changeAt (above (t.append new) new) (counted now))

/-- The comments without `r`, which is taken off its parent's counter and no other. -/
def deletedTable (t : ObjectIndex CommentObject) (r : Nat × CommentObject) (now : TimePointSec) :
    ObjectIndex CommentObject :=
  (t.mapRows (changeAt ((r.2.parent? t).toList.map Prod.fst) (uncounted now))).remove r.1

theorem countInAncestors_new {u : Objects} (hold : Forest s.comments)
    (hparent : s.commentParent o = .ok parent)
    (hforest : Forest (s.comments.append (s.newComment o parent)))
    (hu : u.comments = s.comments.append (s.newComment o parent)) :
    u.countInAncestors u.comments.rows.length parent = .ok { u with
      comments := createdTable s.comments (s.newComment o parent) u.headBlockTime } := by
  have hself : (s.comments.nextId, s.newComment o parent) ∈
      (s.comments.append (s.newComment o parent)).rows := mem_concat_self
  unfold createdTable
  rcases commentParent_ok hparent with ⟨-, rfl⟩ | ⟨p, rfl, hroot, hp, -⟩
  · rw [countInAncestors, hforest.above_eq hself (.root rfl), mapRows_changeAt_nil, ← hu]
  · have hfound := (parent?_newComment hold.unique hroot hp).2
    have hclimbs := hforest.climbs_above (parent?_mem hfound)
    rw [hforest.parent_mem_above hself hfound, countInAncestors_eq, ← hu]
    rw [← hu] at hforest hfound hclimbs
    exact changeAncestors_eq (counted_sameLinks _) hforest (parent?_mem hfound) hclimbs
      (hforest.length_lt (parent?_mem hfound) hclimbs)

/-- What an operation does to comments and contents. -/
inductive CommentStep (s s' : Objects) : Operation → Prop where
  | kept {op : Operation} {g : Nat → CommentObject → CommentObject}
      (hcomment : ∀ o, op ≠ .comment o) (hdelete : ∀ o, op ≠ .deleteComment o)
      (hlinks : ∀ i c, SameLinks (g i c) c) (hchildren : ∀ i c, (g i c).children = c.children)
      (hcomments : s'.comments = s.comments.mapRows g)
      (hcontents : s'.commentContents = s.commentContents) : CommentStep s s' op
  | edited {o : CommentOperation} {r : Nat × CommentObject} {g : Nat → CommentObject → CommentObject}
      (hfound : s.findComment o.author o.permlink = some r)
      (hlinks : ∀ i c, SameLinks (g i c) c) (hchildren : ∀ i c, (g i c).children = c.children)
      (hcomments : s'.comments = s.comments.mapRows g)
      (hcontents : s'.commentContents = s.commentContents) : CommentStep s s' (.comment o)
  | created {o : CommentOperation} {parent : Option (Nat × CommentObject)}
      {g : Nat → CommentObject → CommentObject}
      (hnone : s.findComment o.author o.permlink = none) (hparent : s.commentParent o = .ok parent)
      (hlinks : ∀ i c, SameLinks (g i c) c)
      (hcomments : s'.comments = (s.comments.append (s.newComment o parent)).mapRows g)
      (hforest : Forest s.comments → Forest (s.comments.append (s.newComment o parent)) ∧
        s'.comments = createdTable s.comments (s.newComment o parent) s.headBlockTime)
      (hcontents : s'.commentContents = s.commentContents.append (s.newContent o)) :
      CommentStep s s' (.comment o)
  | deleted {o : DeleteCommentOperation} {r : Nat × CommentObject}
      (hfound : s.findComment o.author o.permlink = some r) (hzero : r.2.children = 0)
      (hcomments : s'.comments = deletedTable s.comments r s.headBlockTime)
      (hcontents : s'.commentContents = s.commentContents) : CommentStep s s' (.deleteComment o)

theorem createComment_step {auth : Nat × WalletObject}
    (hnone : s.findComment o.author o.permlink = none) (hparent : s.commentParent o = .ok parent)
    (h : s.createComment o auth parent = .ok s') : CommentStep s s' (.comment o) := by
  obtain ⟨_, wallets, comments, contents, -, -, hnew, hcontent, hcount⟩ := createComment_ok h
  have hexact (hold : Forest s.comments) :
      Forest (s.comments.append (s.newComment o parent)) ∧
        s'.comments = createdTable s.comments (s.newComment o parent) s.headBlockTime := by
    have hforest := forest_newComment hold hparent hnew
    have hs' := hcount.symm.trans (countInAncestors_new hold hparent hforest (create?_eq hnew))
    exact ⟨hforest, congrArg Objects.comments (Except.ok.inj hs')⟩
  obtain rfl := create?_eq hnew
  obtain rfl := create?_eq hcontent
  rcases commentParent_ok hparent with ⟨-, rfl⟩ | ⟨p, rfl, -, hp, -⟩
  · rw [countInAncestors] at hcount
    cases hcount
    exact .created (g := changeAt [] id) hnone hparent
      (changeAt_sameLinks _ fun _ => {}) mapRows_changeAt_nil.symm hexact rfl
  · rw [countInAncestors_eq] at hcount
    obtain ⟨g, hg, rfl⟩ :=
      changeAncestors_links (counted_sameLinks _) (mem_append_left _ (of_find? hp).1) hcount
    exact .created hnone hparent hg rfl hexact rfl

theorem applyComment_step (h : s.applyComment cr o = .ok s') : CommentStep s s' (.comment o) := by
  obtain ⟨auth, parent, -, hparent, ⟨hnone, h⟩ | ⟨r, comments, wallets, hr, hmod, -, rfl⟩⟩ := applyComment_ok h
  · exact createComment_step hnone hparent h
  · have hcomments := modify?_changeAt
      (f := fun c => { c with lastUpdate := s.headBlockTime, active := s.headBlockTime }) (of_find? hr).1 hmod
    refine .edited hr (changeAt_sameLinks _ ?_) (changeAt_children _ ?_) hcomments rfl
    · exact fun _ => {}
    · exact fun _ => rfl

theorem applyDeleteComment_step {o : DeleteCommentOperation}
    (h : s.applyDeleteComment o = .ok s') : CommentStep s s' (.deleteComment o) := by
  obtain ⟨r, hr, hzero, ⟨hroot, rfl⟩ | ⟨p, comments, hroot, hp, hmod, rfl⟩⟩ := applyDeleteComment_ok h
  · refine .deleted hr hzero ?_ rfl
    rw [deletedTable, parent?_root hroot]
    exact congrArg (fun t => ObjectIndex.remove t r.1) mapRows_changeAt_nil.symm
  · have hparent : r.2.parent? s.comments = some p := by
      unfold parent?
      rw [if_neg hroot]
      exact hp
    refine .deleted hr hzero ?_ rfl
    rw [modify?_changeAt (f := uncounted s.headBlockTime) (of_find? hp).1 hmod, deletedTable, hparent]
    rfl

/-! ### Comments that are accepted -/

/-- The author's wallet after a new comment. -/
def posted (root : Bool) (w : WalletObject) : WalletObject :=
  { w with
    lastRootPost := if root then now else w.lastRootPost
    lastPost := now
    lastPostEdit := now
    postCount := w.postCount + 1 }

/-- The state after a new comment by the owner of `w`. -/
def commented (s : Objects) (o : CommentOperation) (w : Nat × WalletObject)
    (parent : Option (Nat × CommentObject)) : Objects :=
  { s with
    wallets := s.wallets.set w.1 (posted s.headBlockTime parent.isNone w.2)
    comments := createdTable s.comments (s.newComment o parent) s.headBlockTime
    commentContents := s.commentContents.append (s.newContent o) }

/-- The checks of `createComment` before it writes. -/
def MayPost (s : Objects) (w : WalletObject) : Option (Nat × CommentObject) → Prop
  | some p => (∃ root, s.comments.get? p.2.rootComment = some root ∧ root.2.allowReplies = true) ∧
      (s.headBlockTime : Int) - w.lastPost ≥ 3
  | none => (s.headBlockTime : Int) - w.lastRootPost > 60 * 5

theorem applyComment_new {w : Nat × WalletObject} (hforest : Forest s.comments) (hwallets : s.wallets.Unique)
    (hcontents : ∀ r ∈ s.commentContents.rows, r.2.comment < s.comments.nextId)
    (hbody : o.title.utf8ByteSize + o.body.utf8ByteSize + o.jsonMetadata.utf8ByteSize ≠ 0)
    (hutf8 : cr.isUtf8 o.jsonMetadata = true) (hw : s.findAccount o.author = some w)
    (hparent : s.commentParent o = .ok parent) (hmay : s.MayPost w.2 parent)
    (hnone : s.findComment o.author o.permlink = none)
    (hparentPermlink : validatePermlink01 o.parentPermlink = .ok ())
    (hpermlink : validatePermlink01 o.permlink = .ok ()) :
    s.applyComment cr o = .ok (s.commented o w parent) := by
  have hwallet : dbModify s.wallets w.1 (posted s.headBlockTime parent.isNone w.2) =
      .ok (s.wallets.set w.1 (posted s.headBlockTime parent.isNone w.2)) :=
    dbModify_ok_iff.2 (hwallets.modify? (of_find? hw).1 fun _ => rfl)
  have hnew := create?_newComment parent hnone
  have hcount := countInAncestors_new (u := { s with
    wallets := s.wallets.set w.1 (posted s.headBlockTime parent.isNone w.2)
    comments := s.comments.append (s.newComment o parent)
    commentContents := s.commentContents.append (s.newContent o) }) hforest hparent
    (forest_newComment hforest hparent hnew) rfl
  have hcreated : s.createComment o w parent = .ok (s.commented o w parent) := by
    cases parent with
    | none =>
      exact bind_ok (fcAssert_ok hmay) (bind_ok hwallet (bind_ok hparentPermlink (bind_ok hpermlink
        (bind_ok (dbCreate_ok_iff.2 hnew) (bind_ok
          (dbCreate_ok_iff.2 (create?_newContent hcontents)) hcount)))))
    | some p =>
      obtain ⟨⟨root, hroot, hallows⟩, hrest⟩ := hmay
      exact bind_ok (getRow_ok_iff.2 hroot) (bind_ok ((@fcAssert_ok_iff _ _ ()).2 hallows)
        (bind_ok (fcAssert_ok hrest) (bind_ok hwallet (bind_ok hparentPermlink (bind_ok hpermlink
        (bind_ok (dbCreate_ok_iff.2 hnew) (bind_ok (dbCreate_ok_iff.2 (create?_newContent hcontents))
          hcount)))))))
  refine Eq.trans ?_ hcreated
  unfold applyComment
  rw [fcAssert_ok_iff (u := ()).2 (decide_eq_true hbody), getAccount, getRow_ok_iff.2 hw, hparent,
    fcAssert_ok_iff (u := ()).2 hutf8, hnone]
  rfl

theorem applyDeleteComment_eq {o : DeleteCommentOperation} {r : Nat × CommentObject}
    (hforest : Forest s.comments) (hfound : s.findComment o.author o.permlink = some r)
    (hzero : r.2.children = 0) :
    s.applyDeleteComment o = .ok { s with comments := deletedTable s.comments r s.headBlockTime } := by
  refine bind_ok (getRow_ok_iff.2 hfound) (bind_ok (fcAssert_ok hzero) ?_)
  unfold deletedTable
  cases hforest.linked r (of_find? hfound).1 with
  | root hroot =>
    rw [parent?_root hroot]
    exact (if_neg (not_not.2 hroot)).trans (by rw [Option.toList_none, map_nil, mapRows_changeAt_nil]; rfl)
  | @reply p hp =>
    have hreply : r.2.parentAuthor ≠ "" := ((parent?_eq_some_iff hforest.unique).1 hp).1
    have hmod := dbModify_changeAt (uncounted_sameLinks s.headBlockTime) hforest.unique (parent?_mem hp)
    refine (if_pos hreply).trans (bind_ok (a := p) ?_ ?_)
    · rw [parent?, if_neg hreply] at hp
      exact getRow_ok_iff.2 hp
    · rw [hp]
      exact bind_ok hmod rfl

theorem Does.comments_eq {p : Call → Prop} (h : Does p s s') (hp : ∀ c, p c → c.table ≠ .comment) :
    s'.comments = s.comments := by
  refine h.keeps Objects.comments fun hc hrun => ?_
  cases hrun with
  | comment h => exact absurd rfl (hp _ hc)
  | _ => rfl

theorem Does.commentContents_eq {p : Call → Prop} (h : Does p s s')
    (hp : ∀ c, p c → c.table ≠ .commentContent) : s'.commentContents = s.commentContents := by
  refine h.keeps Objects.commentContents fun hc hrun => ?_
  cases hrun with
  | commentContent h => exact absurd rfl (hp _ hc)
  | _ => rfl

theorem applyCommentOptions_step {o : CommentOptionsOperation}
    (h : s.applyCommentOptions o = .ok s') : CommentStep s s' (.commentOptions o) := by
  obtain ⟨r, comments, hr, hmod, rfl⟩ := applyCommentOptions_ok h
  have hcomments := modify?_changeAt (f := fun c => { c with allowVotes := o.allowVotes }) hr hmod
  refine .kept (by simp) (by simp) (changeAt_sameLinks _ ?_) (changeAt_children _ ?_) hcomments rfl
  · exact fun _ => {}
  · exact fun _ => rfl

theorem applyOperation_commentStep {op : Operation} (h : s.applyOperation cr env op = .ok s') :
    CommentStep s s' op := by
  -- the operations that are not about comments leave both tables alone
  have same (hcomment : TableName.comment ∉ op.tables) (hcontent : TableName.commentContent ∉ op.tables)
      (hkind : ∀ o, op ≠ .comment o) (hkind' : ∀ o, op ≠ .deleteComment o) : CommentStep s s' op := by
    refine .kept (g := fun _ c => c) hkind hkind' (fun _ _ => {})
      (fun _ _ => rfl) ?_ ?_
    · rw [(applyOperation_calls h).comments_eq fun c hc heq => hcomment (heq ▸ hc.1)]
      exact (mapRows_eq_self fun _ _ => rfl).symm
    · exact (applyOperation_calls h).commentContents_eq fun c hc heq => hcontent (heq ▸ hc.1)
  cases op with
  | comment o => exact applyComment_step h
  | deleteComment o => exact applyDeleteComment_step h
  | commentOptions o => exact applyCommentOptions_step h
  | _ => exact same (by simp [tables]) (by simp [tables]) (by simp) (by simp)

/-! ## Counters -/

/-- Every counter is the number of the comment's descendants. -/
def Counted (s : Objects) : Prop :=
  ∀ r ∈ s.comments.rows, r.2.children = descendants s.comments r.1

/-- The operation keeps exact counters exact: no counter above a new comment is full, and a comment that
is deleted has no comment two levels above it. -/
def KeepsTally (step : OpStep) : Prop :=
  match step.2 with
  | .comment o => step.1.findComment o.author o.permlink = none →
      ∀ p, step.1.commentParent o = .ok (some p) →
      ∀ r ∈ step.1.comments.rows, r.1 ∈ p.1 :: above step.1.comments p.2 → r.2.children + 1 < 2 ^ 32
  | .deleteComment o => ∀ r, step.1.findComment o.author o.permlink = some r → r.2.depth ≤ 1
  | _ => True

theorem above_newComment (h : Forest s.comments) (h' : Forest (s.comments.append (s.newComment o parent)))
    (hparent : s.commentParent o = .ok parent) :
    above (s.comments.append (s.newComment o parent)) (s.newComment o parent) =
      (parent.toList.flatMap fun p => p.1 :: above s.comments p.2) := by
  have hself : (s.comments.nextId, s.newComment o parent) ∈
      (s.comments.append (s.newComment o parent)).rows := mem_concat_self
  rcases commentParent_ok hparent with ⟨-, rfl⟩ | ⟨p, rfl, hroot, hp, -⟩
  · exact h'.above_eq hself (.root rfl)
  · obtain ⟨hmem, hparent'⟩ := parent?_newComment h.unique hroot hp
    rw [h'.parent_mem_above hself hparent', h.above_append h' (show (p.1, p.2) ∈ _ from hmem)]
    simp

theorem newComment_children : (s.newComment o parent).children = 0 := by cases parent <;> rfl

section Counts

variable {R S : Nat → Nat → Prop} {new : CommentObject} {now} {r : Nat × CommentObject}
  {g : Nat → CommentObject → CommentObject}

/-- The links form a forest, and `R` relates each comment's number of descendants to its counter. -/
structure CountsBy (R : Nat → Nat → Prop) (t : ObjectIndex CommentObject) : Prop where
  forest : Forest t
  counts : ∀ r ∈ t.rows, R (descendants t r.1) r.2.children

theorem CountsBy.mapRows (h : CountsBy R t) (hRS : ∀ n m, R n m → S n m)
    (hlinks : ∀ i c, SameLinks (g i c) c) (hchildren : ∀ i c, (g i c).children = c.children) :
    CountsBy S (t.mapRows g) := by
  refine ⟨h.forest.mapRows hlinks, fun r hr => ?_⟩
  obtain ⟨a, ha, hra⟩ := mem_mapRows.1 hr
  rw [h.forest.descendants_mapRows hlinks, ← hra, hchildren]
  exact hRS _ _ (h.counts _ ha)

theorem forest_created (h : Forest t) (hforest : Forest (t.append new)) (now : TimePointSec) :
    Forest (createdTable t new now) ∧ ∀ i, descendants (createdTable t new now) i =
      descendants t i + if i ∈ above (t.append new) new then 1 else 0 := by
  have hlinks := changeAt_sameLinks (above (t.append new) new) (counted_sameLinks now)
  refine ⟨hforest.mapRows hlinks, fun i => ?_⟩
  rw [createdTable, hforest.descendants_mapRows hlinks, h.descendants_append hforest]

theorem mem_created (h : Forest t) (hforest : Forest (t.append new))
    (hr : r ∈ (createdTable t new now).rows) :
    (∃ a, (r.1, a) ∈ t.rows ∧ r.2 = changeAt (above (t.append new) new) (counted now) r.1 a) ∨
      r.2 = new ∧ descendants (createdTable t new now) r.1 = 0 := by
  obtain ⟨a, ha, hra⟩ := mem_mapRows.1 hr
  rcases mem_append.1 ha with ha | ha
  · exact .inl ⟨a, ha, hra.symm⟩
  · obtain ⟨hid, rfl⟩ := Prod.mk.inj (mem_singleton.1 ha)
    -- the new comment is not above itself
    have hself : t.nextId ∉ above (t.append a) a := fun hmem =>
      lt_irrefl _ (hforest.mem_above (mem_append_right _ (mem_singleton_self (t.nextId, a))) hmem).1
    refine .inr ⟨?_, ?_⟩
    · rw [← hra, hid, changeAt, if_neg hself]
    · rw [(forest_created h hforest now).2, ← h.descendants_append hforest, hid]
      exact h.descendants_new hforest

theorem CountsBy.created (h : CountsBy R t) (hforest : Forest (t.append new)) (now : TimePointSec)
    (hnew : S 0 new.children) (hRS : ∀ n m, R n m → S n m)
    (hcount : ∀ r ∈ t.rows, r.1 ∈ above (t.append new) new →
      S (descendants t r.1 + 1) ((r.2.children + 1) % 2 ^ 32)) : CountsBy S (createdTable t new now) := by
  obtain ⟨hforest', hdescendants⟩ := forest_created h.forest hforest now
  refine ⟨hforest', fun r hr => ?_⟩
  rcases mem_created h.forest hforest hr with ⟨a, ha, hra⟩ | ⟨hra, hzero⟩
  · rw [hdescendants, hra, changeAt]
    split_ifs with hi
    · exact hcount _ ha hi
    · exact hRS _ _ (h.counts _ ha)
  · rw [hzero, hra]
    exact hnew

theorem mem_deleted {x : Nat × CommentObject} (hx : x ∈ (deletedTable t r now).rows) :
    ∃ a, (x.1, a) ∈ t.rows ∧
      x.2 = changeAt ((r.2.parent? t).toList.map Prod.fst) (uncounted now) x.1 a := by
  obtain ⟨a, ha, hxa⟩ := mem_mapRows.1 (mem_remove.1 hx).1
  exact ⟨a, ha, hxa.symm⟩

theorem forest_deleted (h : Forest t) (hr : r ∈ t.rows) (hnone : Unanswered t r.1) (now : TimePointSec) :
    Forest (deletedTable t r now) ∧ ∀ i, descendants t i = descendants (deletedTable t r now) i +
      if i ∈ above t r.2 then 1 else 0 := by
  have hlinks := changeAt_sameLinks ((r.2.parent? t).toList.map Prod.fst) (uncounted_sameLinks now)
  have hforest := h.mapRows hlinks
  have hnone' := unanswered_iff.1 hnone
  rw [← h.descendants_mapRows hlinks, ← unanswered_iff] at hnone'
  refine ⟨hforest.remove hnone', fun i => ?_⟩
  rw [← h.descendants_mapRows hlinks, hforest.descendants_remove hnone' (mem_mapRows_of_mem hr),
    h.above_mapRows hlinks hr, deletedTable]

theorem CountsBy.deleted (h : CountsBy R t) (hr : r ∈ t.rows) (hnone : Unanswered t r.1) (now : TimePointSec)
    (hRS : ∀ n m, R n m → S n m) (hparent : ∀ n m, R (n + 1) m → S n ((m + 2 ^ 32 - 1) % 2 ^ 32))
    (hfar : ∀ i ∈ above t r.2, i ∉ (r.2.parent? t).toList.map Prod.fst → ∀ n m, R (n + 1) m → S n m) :
    CountsBy S (deletedTable t r now) := by
  obtain ⟨hforest, hdescendants⟩ := forest_deleted h.forest hr hnone now
  refine ⟨hforest, fun x hx => ?_⟩
  obtain ⟨a, ha, hxa⟩ := mem_deleted hx
  have hcount := h.counts _ ha
  rw [hdescendants] at hcount
  rw [hxa, changeAt]
  by_cases habove : x.1 ∈ above t r.2
  · rw [if_pos habove] at hcount
    split_ifs with hi
    · exact hparent _ _ hcount
    · exact hfar _ habove hi _ _ hcount
  · rw [if_neg habove] at hcount
    rw [if_neg fun hi => habove (h.forest.mem_above_of_parent hr hi)]
    exact hRS _ _ hcount

end Counts

/-- The counter is the number of descendants. -/
def Exact (n children : Nat) : Prop := children = n ∧ children < 2 ^ 32

section Exact

variable (h : CountsBy Exact s.comments)
include h

theorem CountsBy.created_iff (hnone : s.findComment o.author o.permlink = none)
    (hparent : s.commentParent o = .ok parent)
    (hforest : Forest (s.comments.append (s.newComment o parent)))
    (hcomments : s'.comments = createdTable s.comments (s.newComment o parent) s.headBlockTime) :
    (KeepsTally (s, .comment o) → CountsBy Exact s'.comments) ∧
      (s'.Counted → KeepsTally (s, .comment o)) := by
  have habove := above_newComment h.forest hforest hparent
  constructor
  · intro hkeeps
    rw [hcomments]
    refine h.created hforest _ ⟨newComment_children, by rw [newComment_children]; decide⟩ (fun _ _ => id)
      fun r hr hi => ?_
    rw [habove] at hi
    obtain ⟨p, hp, hp'⟩ := mem_flatMap.1 hi
    cases Option.mem_toList.1 hp
    have hfull := hkeeps hnone p hparent r hr hp'
    rw [← (h.counts r hr).1, Nat.mod_eq_of_lt hfull]
    exact ⟨rfl, hfull⟩
  · intro hcounted _ p hp r hr hi
    cases hparent.symm.trans hp
    have hi' : r.1 ∈ above (s.comments.append (s.newComment o (some p))) (s.newComment o (some p)) := by
      rw [habove]
      simpa using hi
    have hrow : (r.1, counted s.headBlockTime r.2) ∈ s'.comments.rows := by
      rw [hcomments]
      exact mem_mapRows.2 ⟨r.2, mem_append_left _ hr, if_pos hi'⟩
    have hcount : (r.2.children + 1) % 2 ^ 32 = r.2.children + 1 := by
      have hafter := hcounted _ hrow
      rw [hcomments, (forest_created h.forest hforest s.headBlockTime).2, if_pos hi',
        ← (h.counts r hr).1] at hafter
      exact hafter
    have hlt := Nat.mod_lt (r.2.children + 1) (show 0 < 2 ^ 32 by decide)
    rwa [hcount] at hlt

theorem CountsBy.deleted_iff {o : DeleteCommentOperation} {r : Nat × CommentObject}
    (hfound : s.findComment o.author o.permlink = some r) (hzero : r.2.children = 0)
    (hcomments : s'.comments = deletedTable s.comments r s.headBlockTime) :
    (KeepsTally (s, .deleteComment o) → CountsBy Exact s'.comments) ∧
      (s'.Counted → KeepsTally (s, .deleteComment o)) := by
  have hr := (of_find? hfound).1
  have hnone : Unanswered s.comments r.1 := unanswered_iff.2 ((h.counts r hr).1.symm.trans hzero)
  have hdepth : (above s.comments r.2).length = r.2.depth := by
    obtain ⟨ids, hclimbs, -, hlength, -⟩ := h.forest.climbs hr
    rw [h.forest.above_eq hr hclimbs, hlength]
  constructor
  · intro hkeeps
    rw [hcomments]
    refine h.deleted hr hnone _ (fun _ _ => id) (fun n m hm => ?_) fun i hi hnot => ?_
    · obtain ⟨hexact, hbound⟩ := hm
      constructor <;> omega
    · have hshort := hdepth.trans_le (hkeeps _ hfound)
      obtain ⟨p, hp, hcons⟩ := h.forest.above_of_mem hr hi
      rw [hcons] at hshort hi
      have hnil : above s.comments p.2 = [] := by simpa using hshort
      rw [hnil, mem_singleton] at hi
      exact absurd (by simp [hp, hi]) hnot
  · -- a comment two levels up keeps its counter and loses a descendant
    intro hcounted x hx
    cases hfound.symm.trans hx
    by_contra hdeep
    rw [← hdepth] at hdeep
    obtain ⟨i, hi⟩ := exists_mem_of_length_pos (show 0 < (above s.comments r.2).length by omega)
    obtain ⟨p, hp, hcons⟩ := h.forest.above_of_mem hr hi
    rw [hcons, length_cons] at hdeep
    obtain ⟨j, hj⟩ := exists_mem_of_length_pos (show 0 < (above s.comments p.2).length by omega)
    obtain ⟨hlt, a, ha⟩ := h.forest.mem_above (parent?_mem hp) hj
    have hmem : j ∈ above s.comments r.2 := hcons ▸ mem_cons_of_mem _ hj
    have hkept : (j, a) ∈ s'.comments.rows := by
      rw [hcomments, deletedTable, mem_remove]
      refine ⟨mem_mapRows.2 ⟨a, ha, ?_⟩, (h.forest.mem_above hr hmem).1.ne⟩
      simp [changeAt, hp, hlt.ne]
    have hbefore := (forest_deleted h.forest hr hnone s.headBlockTime).2 j
    rw [← hcomments, if_pos hmem, ← hcounted _ hkept, ← (h.counts _ ha).1] at hbefore
    omega

theorem applyOperation_tallied {op : Operation} (hop : s.applyOperation cr env op = .ok s') :
    (KeepsTally (s, op) → CountsBy Exact s'.comments) ∧ (s'.Counted → KeepsTally (s, op)) := by
  cases applyOperation_commentStep hop with
  | kept hcomment hdelete hlinks hchildren hcomments =>
    refine ⟨fun _ => hcomments ▸ h.mapRows (fun _ _ => id) hlinks hchildren, fun _ => ?_⟩
    cases op with
    | comment o => exact absurd rfl (hcomment o)
    | deleteComment o => exact absurd rfl (hdelete o)
    | _ => trivial
  | edited hfound hlinks hchildren hcomments =>
    refine ⟨fun _ => hcomments ▸ h.mapRows (fun _ _ => id) hlinks hchildren, fun _ hnone => ?_⟩
    rw [hfound] at hnone
    cases hnone
  | created hnone hparent _ _ hforest =>
    exact h.created_iff hnone hparent (hforest h.forest).1 (hforest h.forest).2
  | deleted hfound hzero hcomments => exact h.deleted_iff hfound hzero hcomments

end Exact

theorem Does.comments_of_outside (h : Does Call.Outside s s') : s'.comments = s.comments :=
  h.comments_eq fun c hc heq => by cases c <;> first | exact hc.elim | cases heq

/-! ## Counting again -/

def cleared : CommentObject := { c with children := 0 }

def tallied : CommentObject := { c with children := (c.children + 1) % 2 ^ 32 }

def clearChildren (s : Objects) (rows : List (Nat × CommentObject)) : Result Objects :=
  rows.foldlM (fun s r => do
    let comments ← dbModify s.comments r.1 (cleared r.2)
    pure { s with comments := comments }) s

def tallyChildren (s : Objects) (rows : List (Nat × CommentObject)) : Result Objects :=
  rows.foldlM (fun s r =>
    if r.2.parentAuthor = "" then pure s
    else do
      let p ← s.getComment r.2.parentAuthor r.2.parentPermlink
      changeAncestors tallied s.comments.rows.length s p) s

/-- `database::retally_comment_children`. -/
def retallyCommentChildren (s : Objects) : Result Objects := do
  let s ← s.clearChildren s.comments.rows
  s.tallyChildren s.comments.rows

variable {rows : List (Nat × CommentObject)} (n : Nat → Nat) (i : Nat)

theorem clearChildren_eq (hforest : Forest s.comments)
    (hrows : ∀ r ∈ rows, r ∈ s.comments.rows) (hids : rows.Pairwise fun r r' => r.1 ≠ r'.1) :
    s.clearChildren rows =
      .ok { s with comments := s.comments.mapRows (changeAt (rows.map Prod.fst) cleared) } := by
  have hlinks (c : CommentObject) : SameLinks (cleared c) c := {}
  induction rows generalizing s with
  | nil =>
    rw [map_nil, mapRows_changeAt_nil]
    rfl
  | cons r rows ih =>
    obtain ⟨hr, hrest⟩ := forall_mem_cons.1 hrows
    obtain ⟨hne, hids⟩ := pairwise_cons.1 hids
    have hmod := dbModify_changeAt hlinks hforest.unique hr
    unfold clearChildren
    rw [foldlM_cons, hmod]
    refine (ih (s := { s with comments := s.comments.mapRows (changeAt [r.1] cleared) })
      (hforest.mapRows (changeAt_sameLinks _ hlinks)) (fun r' hr' => ?_) hids).trans ?_
    · refine mem_mapRows.2 ⟨r'.2, hrest r' hr', if_neg fun hmem => ?_⟩
      exact hne r' hr' (mem_singleton.1 hmem).symm
    · change Except.ok { s with comments := _ } = Except.ok { s with comments := _ }
      rw [mapRows_mapRows]
      congr 2
      refine mapRows_congr fun i a _ => ?_
      unfold changeAt
      by_cases hi : i = r.1 <;> by_cases hi' : i ∈ rows.map Prod.fst <;> simp [hi, hi', cleared]

def withChildren (c : CommentObject) : CommentObject :=
  { c with children := n i % 2 ^ 32 }

theorem withChildren_sameLinks (c : CommentObject) :
    SameLinks (withChildren n i c) c := {}

theorem tallyChildren_eq {t : ObjectIndex CommentObject} {n : Nat → Nat}
    (hforest : Forest t) (hrows : ∀ r ∈ rows, r ∈ t.rows) (hs : s.comments = t.mapRows (withChildren n)) :
    s.tallyChildren rows = .ok { s with
      comments := t.mapRows (withChildren fun i => n i + rows.countP fun r => i ∈ above t r.2) } := by
  induction rows generalizing s n with
  | nil =>
    simp only [countP_nil, Nat.add_zero]
    rw [← show s.comments = _ from hs]
    rfl
  | cons r rows ih =>
    obtain ⟨hr, hrest⟩ := forall_mem_cons.1 hrows
    have hlinks := withChildren_sameLinks n
    -- the counters after the comments above `r` were counted
    have hstep : (if r.2.parentAuthor = "" then pure s else do
        let p ← s.getComment r.2.parentAuthor r.2.parentPermlink
        changeAncestors tallied s.comments.rows.length s p) = .ok { s with
          comments := t.mapRows (withChildren fun i => n i + if i ∈ above t r.2 then 1 else 0) } := by
      cases hforest.linked r hr with
      | root hroot =>
        rw [if_pos hroot, hforest.above_eq hr (.root hroot)]
        change Except.ok s = _
        simp only [not_mem_nil, if_false, Nat.add_zero]
        rw [← show s.comments = _ from hs]
      | @reply p hp =>
        have hroot : r.2.parentAuthor ≠ "" := ((parent?_eq_some_iff hforest.unique).1 hp).1
        have hfound : r.2.parent? s.comments = some (p.1, withChildren n p.1 p.2) := by
          rw [hs, parent?_mapRows hlinks {}, hp]
          rfl
        have hget : s.getComment r.2.parentAuthor r.2.parentPermlink = .ok (p.1, withChildren n p.1 p.2) := by
          rw [parent?, if_neg hroot] at hfound
          exact getRow_ok_iff.2 hfound
        have hforest' : Forest s.comments := hs ▸ hforest.mapRows hlinks
        have hclimbs : Climbs s.comments (withChildren n p.1 p.2) (above t p.2) :=
          hs ▸ (hforest.climbs_above (parent?_mem hp)).mapRows hlinks (hlinks p.1 p.2)
        rw [if_neg hroot, hget]
        refine (changeAncestors_eq (f := tallied) (fun _ => {}) hforest'
          (parent?_mem hfound) hclimbs (hforest'.length_lt (parent?_mem hfound) hclimbs)).trans ?_
        rw [hs, mapRows_mapRows, hforest.parent_mem_above hr hp]
        congr 2
        refine mapRows_congr fun i a _ => ?_
        by_cases hi : i ∈ p.1 :: above t p.2
        · simp only [changeAt, withChildren, tallied, if_pos hi, Nat.mod_add_mod]
        · simp only [changeAt, withChildren, if_neg hi, Nat.add_zero]
    unfold tallyChildren
    rw [foldlM_cons, hstep]
    refine (ih hrest rfl).trans ?_
    congr 2
    refine mapRows_congr fun i a _ => ?_
    simp only [withChildren, countP_cons, decide_eq_true_eq]
    congr 2
    omega

theorem retallyCommentChildren_eq (hforest : Forest s.comments) :
    s.retallyCommentChildren = .ok { s with
      comments := s.comments.mapRows (withChildren (descendants s.comments)) } := by
  have hids : s.comments.rows.Pairwise fun r r' => r.1 ≠ r'.1 := s.comments.sorted.imp fun hlt => hlt.ne
  have hcleared : s.comments.mapRows (changeAt (s.comments.rows.map Prod.fst) cleared) =
      s.comments.mapRows (withChildren fun _ => 0) :=
    mapRows_congr fun i a ha => if_pos (mem_map.2 ⟨_, ha, rfl⟩)
  have hlinks := withChildren_sameLinks fun _ => 0
  have hforest' := hforest.mapRows hlinks
  unfold retallyCommentChildren
  rw [clearChildren_eq hforest (fun _ => id) hids, hcleared]
  refine (tallyChildren_eq (t := s.comments.mapRows (withChildren fun _ => 0)) (n := fun _ => 0) hforest'
    (fun _ => id) ?_).trans ?_
  · rw [mapRows_mapRows]
    rfl
  · rw [mapRows_mapRows]
    congr 2
    refine mapRows_congr fun i a _ => ?_
    have hcount := hforest.descendants_mapRows hlinks (i := i)
    unfold descendants at hcount
    simp only [withChildren, Nat.zero_add, descendants]
    rw [← hcount]

theorem CountsBy.retally (h : CountsBy Exact s.comments) : s.retallyCommentChildren = .ok s := by
  rw [retallyCommentChildren_eq h.forest]
  congr 1
  have hsame : s.comments.mapRows (withChildren (descendants s.comments)) = s.comments := by
    refine (mapRows_congr fun i a ha => ?_).trans (mapRows_eq_self fun _ a => rfl)
    have hexact := h.counts _ ha
    unfold withChildren
    rw [← hexact.1, Nat.mod_eq_of_lt hexact.2]
  rw [hsame]

end Objects

open Objects CommentTree

theorem countsBy_genesis (R : Nat → Nat → Prop) (key : PublicKey) : CountsBy R (genesis key).comments :=
  ⟨⟨unique_empty, nofun⟩, nofun⟩

section Runs

variable {cr : Crypto} {key : PublicKey} {steps : List OpStep} {s : Objects}

theorem children_counted_iff (h : OperationRun cr (Valid cr) (genesis key) steps s) :
    ((∀ step ∈ steps, step.1.Counted) ∧ s.Counted ↔ ∀ step ∈ steps, KeepsTally step) ∧
      ((∀ step ∈ steps, KeepsTally step) → s.retallyCommentChildren = .ok s) := by
  constructor
  · refine h.invariant_iff (J := fun s => CountsBy Exact s.comments) (countsBy_genesis _ key)
      (fun hs r hr => (hs.counts r hr).1) (fun hs _ hop => applyOperation_tallied hs hop)
      (fun hs hother => hother.comments_of_outside ▸ hs) fun hother hs' => ?_
    unfold Counted at hs' ⊢
    rwa [← hother.comments_of_outside]
  · intro hkeeps
    exact (h.invariant (countsBy_genesis _ key) (fun hmem hs _ hop =>
      (applyOperation_tallied hs hop).1 (hkeeps _ hmem))
      fun hs hother => hother.comments_of_outside ▸ hs).1.retally

def toyComment (author : WalletName) (permlink : String) (parentAuthor : WalletName)
    (parentPermlink : String) : CommentOperation where
  parentAuthor := parentAuthor
  parentPermlink := parentPermlink
  author := author
  permlink := permlink
  title := ""
  body := "text"
  jsonMetadata := ""

theorem children_miscounted : ∃ (blocks : List SignedBlock) (s : Objects) (r : Nat × CommentObject),
    AcceptedChain toyParams blocks s ∧ r ∈ s.comments.rows ∧ r.2.children = 2 ∧
      descendants s.comments r.1 = 1 := by
  let blocks := toyRun [] .zero 3
    [[.comment (toyComment xgtTempWallet "a" "" "topic")],
     [.comment (toyComment xgtTempWallet "b" xgtTempWallet "a")],
     [.comment (toyComment xgtTempWallet "c" xgtTempWallet "b")],
     [.deleteComment ⟨xgtTempWallet, "c"⟩]]
  obtain ⟨s, hs, hrow⟩ := exists_ok_of_any (x := runBlocks toyParams toyEnv blocks)
    (p := fun s => s.comments.rows.any fun r => r.2.children = 2 ∧ descendants s.comments r.1 = 1)
    (by decide +kernel)
  obtain ⟨r, hr, hcount⟩ := any_eq_true.1 hrow
  rw [decide_eq_true_eq] at hcount
  exact ⟨blocks, s, r, acceptedChain_of_runBlocks rfl (by decide +kernel) hs, hr, hcount⟩

theorem replyDeleted_run : ∃ (steps : List OpStep) (s : Objects),
    OperationRun toyParams.toCrypto (Valid toyParams.toCrypto) (genesis ⟨1⟩) steps s ∧
      steps.length = 3 ∧ s.comments.rows.length = 1 := by
  let ops : List Operation := [.comment (toyComment xgtTempWallet "a" "" "topic"),
    .comment (toyComment xgtInitMinerName "b" xgtTempWallet "a"), .deleteComment ⟨xgtInitMinerName, "b"⟩]
  obtain ⟨s, hs, hlength⟩ := exists_ok_of_any
    (x := (genesis ⟨1⟩).applyOperations toyParams.toCrypto toyEnv ops)
    (p := fun s => s.comments.rows.length = 1) (by decide +kernel)
  have hvalid : ops.forM (fun op => op.validate toyParams.toCrypto) = .ok () := by decide +kernel
  have hrun := OperationRun.of_applyOperations (V := Valid toyParams.toCrypto)
    (forM_ok_iff.1 hvalid) hs
  exact ⟨_, s, hrun, by decide +kernel, of_decide_eq_true hlength⟩

theorem children_counted_reply : ∃ (steps : List OpStep) (s : Objects),
    steps.length = 3 ∧ s.comments.rows.length = 1 ∧
      ((∀ step ∈ steps, step.1.Counted) ∧ s.Counted ↔ ∀ step ∈ steps, KeepsTally step) ∧
      ((∀ step ∈ steps, KeepsTally step) → s.retallyCommentChildren = .ok s) := by
  obtain ⟨steps, s, hrun, hsteps, hrows⟩ := replyDeleted_run
  exact ⟨steps, s, hsteps, hrows, children_counted_iff hrun⟩

end Runs

end Xgt
