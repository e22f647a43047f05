import XgtChain.Base.RowCall
import XgtChain.Chain.Evaluators

/-!
# What an accepted operation did

For each evaluator with more than one use: the rows that it found and the tables that it wrote.
-/

namespace Xgt

open Base

namespace Objects

variable {s s' : Objects} {name worker : WalletName} {delta : Asset} {env : Env} {a b c : Asset}

theorem of_getRow {α : Type} {t : ObjectIndex α} {f : α → Bool} {r : Nat × α}
    (h : getRow (t.find? f) = .ok r) : (r.1, r.2) ∈ t.rows ∧ f r.2 = true :=
  ObjectIndex.of_find? (getRow_ok_iff.1 h)

/-! ## Balances -/

theorem of_safeInt64 {n m : Int} (h : safeInt64 n = .ok m) : m = n := by
  unfold safeInt64 at h
  split_ifs at h
  exact (Except.ok.inj h).symm

theorem of_assetAdd (h : a.add b = .ok c) : a.symbol = b.symbol ∧ c = ⟨a.amount + b.amount, a.symbol⟩ := by
  obtain ⟨_, hsym, h⟩ := of_bind h
  obtain ⟨n, hn, h⟩ := of_bind h
  cases h
  cases of_safeInt64 hn
  exact ⟨by simpa using hsym, rfl⟩

theorem of_assetSub (h : a.sub b = .ok c) : a.symbol = b.symbol ∧ c = ⟨a.amount - b.amount, a.symbol⟩ := by
  obtain ⟨_, hsym, h⟩ := of_bind h
  obtain ⟨n, hn, h⟩ := of_bind h
  cases h
  cases of_safeInt64 hn
  exact ⟨by simpa using hsym, rfl⟩

def WalletObject.withAmount (w : WalletObject) (amount : Int) : WalletObject :=
  { w with balance := ⟨amount, w.balance.symbol⟩ }

theorem modifyBalance_ok (h : s.modifyBalance name delta = .ok s') :
    ∃ w wallets, s.getAccount name = .ok w ∧ w.2.balance.symbol = delta.symbol ∧
      0 ≤ w.2.balance.amount + delta.amount ∧
      s.wallets.modify? w.1 (WalletObject.withAmount w.2 (w.2.balance.amount + delta.amount)) =
        some wallets ∧
      s' = { s with wallets := wallets } := by
  simp only [modifyBalance, bind_ok_iff, fcAssert_ok_iff, decide_eq_true_eq, dbModify_ok_iff] at h
  obtain ⟨w, hw, balance, hbalance, _, hpos, wallets, hmod, ⟨⟩⟩ := h
  obtain ⟨hsym, rfl⟩ := of_assetAdd hbalance
  exact ⟨w, wallets, hw, hsym, hpos, hmod, rfl⟩

theorem adjustSupply_ok (h : s.adjustSupply delta = .ok s') (hxtt : delta.symbol ≠ xgtSymbol) :
    ∃ (t : Nat × XttTokenObject) (tokens : ObjectIndex XttTokenObject),
      t ∈ s.xttTokens.rows ∧ t.2.liquidSymbol = delta.symbol ∧
      (0 ≤ t.2.currentSupply + delta.amount ∧ t.2.currentSupply + delta.amount < 2 ^ 63) ∧
      s.xttTokens.modify? t.1 { t.2 with currentSupply := t.2.currentSupply + delta.amount } = some tokens ∧
      s' = { s with xttTokens := tokens } := by
  rw [adjustSupply, if_pos (c := delta.symbol.isXtt = true) (decide_eq_true hxtt)] at h
  simp only [bind_ok_iff, fcAssert_ok_iff, decide_eq_true_eq, dbModify_ok_iff] at h
  obtain ⟨t, ht, supply, hsupply, _, hpos, tokens, hmod, ⟨⟩⟩ := h
  obtain ⟨hrow, hsym⟩ := of_getRow ht
  unfold safeInt64 at hsupply
  split_ifs at hsupply with hrange
  cases hsupply
  exact ⟨t, tokens, hrow, of_decide_eq_true hsym, ⟨hpos, hrange.2⟩, hmod, rfl⟩

theorem adjustXttBalance_ok (h : s.adjustXttBalance name delta = .ok s') :
    delta.amount = 0 ∧ s' = s ∨
      (∃ balances, 0 ≤ delta.amount ∧
        s.balances.create? { name := name, liquid := delta } = some balances ∧
        s' = { s with balances := balances }) ∨
      ∃ (b : Nat × AccountRegularBalanceObject) (balances : ObjectIndex AccountRegularBalanceObject),
        (b ∈ s.balances.rows ∧ b.2.name = name) ∧ b.2.liquid.symbol = delta.symbol ∧
        0 ≤ b.2.liquid.amount + delta.amount ∧
        s.balances.modify? b.1 { b.2 with
          liquid := ⟨b.2.liquid.amount + delta.amount, b.2.liquid.symbol⟩ } = some balances ∧
        s' = { s with balances := balances } := by
  unfold adjustXttBalance at h
  split at h
  · obtain ⟨_, hpos, h⟩ := of_bind h
    split_ifs at h with hzero
    · cases h
      exact .inl ⟨hzero, rfl⟩
    · obtain ⟨balances, hnew, h⟩ := of_bind h
      cases h
      exact .inr (.inl ⟨balances, by simpa using hpos, dbCreate_ok_iff.1 hnew, rfl⟩)
  · next b hb =>
    simp only [bind_ok_iff, fcAssert_ok_iff, decide_eq_true_eq, dbModify_ok_iff] at h
    obtain ⟨liquid, hliquid, _, hpos, balances, hmod, ⟨⟩⟩ := h
    obtain ⟨hsym, rfl⟩ := of_assetAdd hliquid
    obtain ⟨hrow, hname⟩ := ObjectIndex.of_find? hb
    exact .inr (.inr ⟨b, balances, ⟨hrow, of_decide_eq_true (Bool.and_eq_true _ _ ▸ hname).1⟩, hsym,
      hpos, hmod, rfl⟩)

theorem adjustBalance_ok (h : s.adjustBalance name delta = .ok s') :
    (delta.amount < 0 → ∃ available, s.getBalance name delta.symbol = .ok available ∧
      -delta.amount ≤ available.amount) ∧
    (delta.symbol = xgtSymbol ∧ s.modifyBalance name delta = .ok s' ∨
      delta.symbol ≠ xgtSymbol ∧ (s.adjustSupply ⟨-delta.amount, delta.symbol⟩ = .ok s' ∨
        s.adjustXttBalance name delta = .ok s')) := by
  have hwritten : (if delta.symbol.isXtt then
      if name = xgtNullWallet then do
        let n ← safeInt64 (-delta.amount)
        s.adjustSupply ⟨n, delta.symbol⟩
      else s.adjustXttBalance name delta
    else s.modifyBalance name delta) = .ok s' → delta.symbol = xgtSymbol ∧ s.modifyBalance name delta = .ok s' ∨
      delta.symbol ≠ xgtSymbol ∧ (s.adjustSupply ⟨-delta.amount, delta.symbol⟩ = .ok s' ∨
        s.adjustXttBalance name delta = .ok s') := by
    intro h
    split_ifs at h with hxtt
    · obtain ⟨n, hn, h⟩ := of_bind h
      cases of_safeInt64 hn
      exact .inr ⟨of_decide_eq_true hxtt, .inl h⟩
    · exact .inr ⟨of_decide_eq_true hxtt, .inr h⟩
    · exact .inl ⟨not_not.1 fun hne => hxtt (decide_eq_true hne), h⟩
  unfold adjustBalance at h
  by_cases hneg : delta.amount < 0
  · rw [if_pos hneg] at h
    obtain ⟨available, havailable, h⟩ := of_bind h
    obtain ⟨required, hrequired, h⟩ := of_bind h
    cases of_safeInt64 hrequired
    obtain ⟨_, hle, h⟩ := of_bind h
    exact ⟨fun _ => ⟨available, havailable, of_fcAssert hle⟩, hwritten h⟩
  · rw [if_neg hneg] at h
    exact ⟨fun hlt => absurd hlt hneg, hwritten h⟩

theorem adjustBalance_eq (h : s.adjustBalance name delta = .ok s') :
    ∃ wallets tokens balances,
      s' = { s with wallets := wallets, xttTokens := tokens, balances := balances } := by
  obtain ⟨-, ⟨-, h⟩ | ⟨hne, h | h⟩⟩ := adjustBalance_ok h
  · obtain ⟨w, wallets, -, -, -, -, rfl⟩ := modifyBalance_ok h
    exact ⟨wallets, s.xttTokens, s.balances, rfl⟩
  · obtain ⟨t, tokens, -, -, -, -, rfl⟩ := adjustSupply_ok h hne
    exact ⟨s.wallets, tokens, s.balances, rfl⟩
  · rcases adjustXttBalance_ok h with ⟨-, rfl⟩ | ⟨balances, -, -, rfl⟩ | ⟨b, balances, -, -, -, -, rfl⟩
    · exact ⟨s'.wallets, s'.xttTokens, s'.balances, rfl⟩
    · exact ⟨s.wallets, s.xttTokens, balances, rfl⟩
    · exact ⟨s.wallets, s.xttTokens, balances, rfl⟩

/-! ## Comments -/

def newComment (s : Objects) (o : CommentOperation) (parent : Option (Nat × CommentObject)) : CommentObject :=
  match parent with
  | none => { author := o.author, permlink := o.permlink, lastUpdate := s.headBlockTime,
              created := s.headBlockTime, active := s.headBlockTime, parentPermlink := o.parentPermlink,
              category := o.parentPermlink, rootComment := s.comments.nextId }
  | some p => { author := o.author, permlink := o.permlink, lastUpdate := s.headBlockTime,
                created := s.headBlockTime, active := s.headBlockTime, parentAuthor := p.2.author,
                parentPermlink := p.2.permlink, depth := p.2.depth + 1, category := p.2.category,
                rootComment := p.2.rootComment }

def newContent (s : Objects) (o : CommentOperation) : CommentContentObject where
  comment := s.comments.nextId
  title := o.title
  body := if o.body.utf8ByteSize < 1024 * 1024 * 128 then o.body else ""
  jsonMetadata := o.jsonMetadata

section Comments

open ObjectIndex

variable {o : CommentOperation} {auth : Nat × WalletObject} {parent : Option (Nat × CommentObject)}

theorem create?_newComment (parent : Option (Nat × CommentObject))
    (hnone : s.findComment o.author o.permlink = none) :
    s.comments.create? (s.newComment o parent) = some (s.comments.append (s.newComment o parent)) := by
  have hname : (s.newComment o parent).author = o.author ∧ (s.newComment o parent).permlink = o.permlink := by
    cases parent <;> exact ⟨rfl, rfl⟩
  refine create?_eq_some_iff.2 ⟨fun c hc => ?_, rfl⟩
  have hother := find?_eq_none.1 hnone c hc
  simpa only [Keyed.clash, hname.1, hname.2, eq_comm] using hother

theorem create?_newContent (hcontents : ∀ r ∈ s.commentContents.rows, r.2.comment < s.comments.nextId) :
    s.commentContents.create? (s.newContent o) = some (s.commentContents.append (s.newContent o)) := by
  refine create?_eq_some_iff.2 ⟨List.forall_mem_map.2 fun r hr => ?_, rfl⟩
  exact decide_eq_false (hcontents r hr).ne'

theorem findComment_eq_some {author : WalletName} {permlink : String} {r : Nat × CommentObject}
    (hunique : s.comments.Unique) (hr : r ∈ s.comments.rows) (hauthor : r.2.author = author)
    (hpermlink : r.2.permlink = permlink) : s.findComment author permlink = some r := by
  refine (hunique.find?_iff fun a b ha hb => ?_).2 ⟨hr, by simp [hauthor, hpermlink]⟩
  simp only [Bool.and_eq_true, decide_eq_true_eq] at ha hb
  simp [Keyed.clash, ha.1, ha.2, hb.1, hb.2]

theorem findAccount_set {x y : WalletName} {w v : Nat × WalletObject} {f : WalletObject → WalletObject}
    (hf : ∀ a, (f a).name = a.name) (hw : s.findAccount x = some w)
    (hwallets : s'.wallets = s.wallets.set w.1 (f w.2)) (hv : s.findAccount y = some v) :
    s'.findAccount y = some (v.1, if y = x then f v.2 else v.2) := by
  obtain ⟨hwrow, hwname⟩ := of_find? hw
  obtain ⟨hvrow, hvname⟩ := of_find? hv
  have hsame : v.1 = w.1 ↔ y = x := by
    constructor
    · intro hid
      have hname := congrArg (fun r => r.2.name) (eq_of_mem hvrow hwrow hid)
      exact (of_decide_eq_true hvname).symm.trans (hname.trans (of_decide_eq_true hwname))
    · rintro rfl
      rw [hv] at hw
      rw [Option.some.inj hw]
  unfold findAccount at hv ⊢
  rw [hwallets, set_eq_mapRows hwrow, find?_mapRows fun i a => ?_, hv]
  · simp [hsame]
  · split_ifs
    · rw [hf]
    · rfl

theorem commentParent_ok (h : s.commentParent o = .ok parent) :
    o.parentAuthor = "" ∧ parent = none ∨
      ∃ p, parent = some p ∧ o.parentAuthor ≠ "" ∧ s.findComment o.parentAuthor o.parentPermlink = some p ∧
        p.2.depth < 0xffff := by
  unfold commentParent at h
  split_ifs at h with hroot
  · cases h
    exact .inl ⟨hroot, rfl⟩
  · obtain ⟨p, hp, h⟩ := of_bind h
    obtain ⟨_, hdepth, h⟩ := of_bind h
    cases h
    exact .inr ⟨p, rfl, hroot, getRow_ok_iff.1 hp, by simpa using hdepth⟩

theorem commentParent_mem {p : Nat × CommentObject} (h : s.commentParent o = .ok parent) (hp : p ∈ parent) :
    (p.1, p.2) ∈ s.comments.rows := by
  rcases commentParent_ok h with ⟨-, rfl⟩ | ⟨q, rfl, -, hq, -⟩
  · cases hp
  · cases hp
    exact (ObjectIndex.of_find? hq).1

theorem createComment_ok (h : s.createComment o auth parent = .ok s') :
    ∃ (wallet : WalletObject) (wallets : ObjectIndex WalletObject) (comments : ObjectIndex CommentObject)
      (contents : ObjectIndex CommentContentObject), s.wallets.modify? auth.1 wallet = some wallets ∧
      (wallet.name = auth.2.name ∧ wallet.balance = auth.2.balance) ∧
      s.comments.create? (s.newComment o parent) = some comments ∧
      s.commentContents.create? (s.newContent o) = some contents ∧
      ({ s with wallets := wallets, comments := comments, commentContents := contents } :
        Objects).countInAncestors comments.rows.length parent = .ok s' := by
  cases parent with
  | none =>
    simp only [createComment, bind_ok_iff, dbModify_ok_iff, dbCreate_ok_iff] at h
    obtain ⟨_, -, wallets, hmod, _, -, _, -, comments, hnew, contents, hcontent, h⟩ := h
    exact ⟨_, wallets, comments, contents, hmod, ⟨rfl, rfl⟩, hnew, hcontent, h⟩
  | some p =>
    simp only [createComment, bind_ok_iff, dbModify_ok_iff, dbCreate_ok_iff] at h
    obtain ⟨_, -, _, -, _, -, wallets, hmod, _, -, _, -, comments, hnew, contents, hcontent, h⟩ := h
    exact ⟨_, wallets, comments, contents, hmod, ⟨rfl, rfl⟩, hnew, hcontent, h⟩

theorem applyComment_ok {cr : Crypto} (h : s.applyComment cr o = .ok s') :
    ∃ auth parent, ((auth.1, auth.2) ∈ s.wallets.rows ∧ auth.2.name = o.author) ∧
      s.commentParent o = .ok parent ∧
      (s.findComment o.author o.permlink = none ∧ s.createComment o auth parent = .ok s' ∨
        ∃ r comments wallets, s.findComment o.author o.permlink = some r ∧
          s.comments.modify? r.1 { r.2 with lastUpdate := s.headBlockTime, active := s.headBlockTime } =
            some comments ∧
          s.wallets.modify? auth.1 { auth.2 with lastPostEdit := s.headBlockTime } = some wallets ∧
          s' = { s with comments := comments, wallets := wallets }) := by
  unfold applyComment at h
  simp only [bind_ok_iff] at h
  obtain ⟨_, -, auth, hauth, parent, hparent, _, -, h⟩ := h
  refine ⟨auth, parent, ⟨(of_getRow hauth).1, of_decide_eq_true (of_getRow hauth).2⟩, hparent, ?_⟩
  split at h
  · next hnone => exact .inl ⟨hnone, h⟩
  · next r hr =>
    simp only [editComment, bind_ok_iff, dbModify_ok_iff] at h
    obtain ⟨_, -, _, -, _, -, comments, hmod, wallets, hwallet, ⟨⟩⟩ := h
    exact .inr ⟨r, comments, wallets, hr, hmod, hwallet, rfl⟩

theorem applyCommentOptions_ok {o : CommentOptionsOperation} (h : s.applyCommentOptions o = .ok s') :
    ∃ (r : Nat × CommentObject) (comments : ObjectIndex CommentObject), r ∈ s.comments.rows ∧
      s.comments.modify? r.1 { r.2 with allowVotes := o.allowVotes } = some comments ∧
      s' = { s with comments := comments } := by
  simp only [applyCommentOptions, bind_ok_iff, dbModify_ok_iff] at h
  obtain ⟨r, hr, _, -, comments, hmod, ⟨⟩⟩ := h
  exact ⟨r, comments, (of_getRow hr).1, hmod, rfl⟩

theorem applyDeleteComment_ok {o : DeleteCommentOperation} (h : s.applyDeleteComment o = .ok s') :
    ∃ r, s.findComment o.author o.permlink = some r ∧ r.2.children = 0 ∧
      (r.2.parentAuthor = "" ∧ s' = { s with comments := s.comments.remove r.1 } ∨
        ∃ p comments, r.2.parentAuthor ≠ "" ∧ s.findComment r.2.parentAuthor r.2.parentPermlink = some p ∧
          s.comments.modify? p.1 { p.2 with
            children := (p.2.children + 2 ^ 32 - 1) % 2 ^ 32, active := s.headBlockTime } = some comments ∧
          s' = { s with comments := comments.remove r.1 }) := by
  unfold applyDeleteComment at h
  obtain ⟨r, hr, h⟩ := of_bind h
  obtain ⟨_, hzero, h⟩ := of_bind h
  refine ⟨r, getRow_ok_iff.1 hr, by simpa using hzero, ?_⟩
  split_ifs at h with hroot
  · obtain ⟨p, hp, h⟩ := of_bind h
    obtain ⟨comments, hmod, h⟩ := of_bind h
    cases h
    exact .inr ⟨p, comments, hroot, getRow_ok_iff.1 hp, dbModify_ok_iff.1 hmod, rfl⟩
  · cases h
    exact .inl ⟨not_not.1 hroot, rfl⟩

end Comments

theorem applyEscrowTransfer_ok {o : EscrowTransferOperation} (h : s.applyEscrowTransfer o = .ok s') :
    ∃ spent s1 escrows, escrowSpent o = .ok spent ∧
      s.adjustBalance o.fromWallet ⟨-spent.amount, spent.symbol⟩ = .ok s1 ∧
      s1.escrows.create?
        { escrowId := o.escrowId, fromWallet := o.fromWallet, toWallet := o.toWallet,
          agent := o.agent, ratificationDeadline := o.ratificationDeadline,
          escrowExpiration := o.escrowExpiration, xgtBalance := o.xgtAmount, pendingFee := o.fee } =
        some escrows ∧ s' = { s1 with escrows := escrows } := by
  unfold applyEscrowTransfer at h
  iterate 5 obtain ⟨_, -, h⟩ := of_bind h
  simp only [bind_ok_iff] at h
  obtain ⟨spent, hspent, n, hn, s1, hpaid, escrows, hnew, h⟩ := h
  cases h
  cases of_safeInt64 hn
  exact ⟨spent, s1, escrows, hspent, hpaid, dbCreate_ok_iff.1 hnew, rfl⟩

/-! ## Tokens -/

variable {sym : AssetSymbol} {t : Nat × XttTokenObject} {o : XttCreateOperation}

theorem of_findTokenAgnostic (h : s.findTokenAgnostic sym = .ok (some t)) : t ∈ s.xttTokens.rows := by
  unfold findTokenAgnostic at h
  iterate 2 obtain ⟨_, -, h⟩ := of_bind h
  have hfound := (Option.filter_eq_some_iff.1 (Except.ok.inj h)).1
  -- the scan keeps nothing or a row of the table
  refine List.foldlRecOn (motive := fun best : Option (Nat × XttTokenObject) =>
    ∀ r ∈ best, r ∈ s.xttTokens.rows) s.xttTokens.rows _ (fun _ h => absurd h (Option.not_mem_none _))
    ?_ t hfound
  intro best hbest r hr q hq
  split_ifs at hq
  · exact hbest q hq
  · split at hq
    · cases hq
      exact hr
    · split_ifs at hq <;> cases hq
      · exact hr
      · exact hbest _ rfl

theorem payOrResetXtt_ok {token : Option (Nat × XttTokenObject)} (h : s.payOrResetXtt o token = .ok s') :
    (0 < o.xttCreationFee.amount ∧ token = none ∧ ∃ s1,
      s.adjustBalance o.controlAccount ⟨-o.xttCreationFee.amount, o.xttCreationFee.symbol⟩ = .ok s1 ∧
      s1.adjustBalance xgtNullWallet o.xttCreationFee = .ok s') ∨
      ∃ t, token = some t ∧ t.2.phase = .setup ∧ s' = { s with xttTokens := s.xttTokens.remove t.1 } := by
  unfold payOrResetXtt at h
  split_ifs at h with hfee
  · obtain ⟨_, hnone, h⟩ := of_bind h
    iterate 2 obtain ⟨_, -, h⟩ := of_bind h
    obtain ⟨s1, hpaid, h⟩ := of_bind h
    exact .inl ⟨hfee, Option.isNone_iff_eq_none.1 (fcAssert_ok_iff.1 hnone), s1, hpaid, h⟩
  · cases token with
    | none => cases h
    | some t =>
      obtain ⟨_, -, h⟩ := of_bind h
      obtain ⟨_, hphase, h⟩ := of_bind h
      cases h
      exact .inr ⟨t, rfl, of_fcAssert hphase, rfl⟩

theorem removeFromNaiPool_eq (s : Objects) (sym : AssetSymbol) :
    ∃ pool, s.removeFromNaiPool sym = { s with naiPool := pool } := by
  unfold removeFromNaiPool
  dsimp only
  split_ifs
  · exact ⟨_, rfl⟩
  · exact ⟨s.naiPool, rfl⟩

theorem replenishNaiPool_ok (h : s.replenishNaiPool = .ok s') : ∃ pool, s' = { s with naiPool := pool } := by
  unfold replenishNaiPool replenishNaiPoolWith at h
  split_ifs at h
  · obtain ⟨_, -, h⟩ := of_bind h
    cases h
    exact ⟨_, rfl⟩
  · cases h
    exact ⟨s.naiPool, rfl⟩

def newToken (o : XttCreateOperation) : XttTokenObject :=
  { liquidSymbol := o.symbol, controlAccount := o.controlAccount, desiredTicker := o.desiredTicker }

theorem createXtt_ok (h : s.createXtt o = .ok s') :
    ∃ token s1 tokens, s.findTokenAgnostic o.symbol = .ok token ∧ s.payOrResetXtt o token = .ok s1 ∧
      s1.xttTokens.create? (newToken o) = some tokens ∧
      s' = { s1 with xttTokens := tokens }.removeFromNaiPool o.symbol := by
  unfold createXtt at h
  simp only [bind_ok_iff] at h
  obtain ⟨token, htoken, s1, hpaid, tokens, hnew, h⟩ := h
  cases h
  exact ⟨token, s1, tokens, htoken, hpaid, dbCreate_ok_iff.1 hnew, rfl⟩

theorem applyXttCreate_ok (h : s.applyXttCreate env o = .ok s') :
    ∃ token s1 tokens pool, s.findTokenAgnostic o.symbol = .ok token ∧ s.payOrResetXtt o token = .ok s1 ∧
      s1.xttTokens.create? (newToken o) = some tokens ∧
      s' = { s1 with xttTokens := tokens, naiPool := pool } := by
  unfold applyXttCreate at h
  obtain ⟨s2, hcreate, h⟩ := of_bind h
  obtain ⟨token, s1, tokens, htoken, hpaid, hnew, rfl⟩ := createXtt_ok hcreate
  obtain ⟨pool, hpool⟩ := removeFromNaiPool_eq { s1 with xttTokens := tokens } o.symbol
  rw [hpool] at h
  refine ⟨token, s1, tokens, s'.naiPool, htoken, hpaid, hnew, ?_⟩
  split_ifs at h
  · cases h
    rfl
  · obtain ⟨pool', rfl⟩ := replenishNaiPool_ok h
    rfl

theorem commonPreSetupEvaluation_ok (h : s.commonPreSetupEvaluation sym name = .ok t) :
    t ∈ s.xttTokens.rows ∧ t.2.liquidSymbol = sym ∧ t.2.phase = .setup := by
  unfold commonPreSetupEvaluation at h
  split at h
  · cases h
  · next r hr =>
    obtain ⟨_, -, h⟩ := of_bind h
    obtain ⟨_, hphase, h⟩ := of_bind h
    cases h
    obtain ⟨hrow, hsym⟩ := ObjectIndex.of_find? hr
    refine ⟨hrow, of_decide_eq_true hsym, ?_⟩
    have hrank : t.2.phase.rank < 1 := of_fcAssert hphase
    cases hp : t.2.phase <;> rw [hp] at hrank <;> first | rfl | exact absurd hrank (by decide)

theorem pushRequiredAction_ok {a : RequiredAutomatedAction} {time : TimePointSec}
    (h : s.pushRequiredAction env a time = .ok s') :
    ∃ actions, (actions = s.pendingRequiredActions ∨ ∃ a, s.pendingRequiredActions.create? a = some actions) ∧
      s' = { s with pendingRequiredActions := actions } := by
  unfold pushRequiredAction at h
  obtain ⟨_, -, h⟩ := of_bind h
  split_ifs at h
  · cases h
    exact ⟨s.pendingRequiredActions, .inl rfl, rfl⟩
  · obtain ⟨actions, hnew, h⟩ := of_bind h
    cases h
    exact ⟨actions, .inr ⟨_, dbCreate_ok_iff.1 hnew⟩, rfl⟩

theorem applyXttSetup_ok {o : XttSetupOperation} (h : s.applyXttSetup env o = .ok s') :
    ∃ (t : Nat × XttTokenObject) (tokens : ObjectIndex XttTokenObject) (ico : XttIcoObject)
      (icos : ObjectIndex XttIcoObject) (actions : ObjectIndex PendingRequiredActionObject),
      t ∈ s.xttTokens.rows ∧ t.2.liquidSymbol = o.symbol ∧ t.2.phase = .setup ∧
      s.xttTokens.modify? t.1 { t.2 with phase := .setupCompleted, maxSupply := o.maxSupply } = some tokens ∧
      (ico.symbol = o.symbol ∧ ico.contributed = .xgt 0 ∧ s.xttIcos.create? ico = some icos) ∧
      (actions = s.pendingRequiredActions ∨ ∃ a, s.pendingRequiredActions.create? a = some actions) ∧
      s' = { s with xttTokens := tokens, xttIcos := icos, pendingRequiredActions := actions } := by
  unfold applyXttSetup at h
  obtain ⟨t, ht, h⟩ := of_bind h
  obtain ⟨hrow, hsym, hphase⟩ := commonPreSetupEvaluation_ok ht
  split_ifs at h
  · split at h
    all_goals
      simp only [bind_ok_iff] at h
      obtain ⟨_, -, tokens, hmod, icos, hnew, h⟩ := h
      obtain ⟨actions, hlaunch, rfl⟩ := pushRequiredAction_ok h
      exact ⟨t, tokens, _, icos, actions, hrow, hsym, hphase, dbModify_ok_iff.1 hmod,
        ⟨hsym, rfl, dbCreate_ok_iff.1 hnew⟩, hlaunch, rfl⟩
  · obtain ⟨tokens, hmod, h⟩ := of_bind h
    obtain ⟨icos, hnew, h⟩ := of_bind h
    obtain ⟨actions, hlaunch, rfl⟩ := pushRequiredAction_ok h
    exact ⟨t, tokens, _, icos, actions, hrow, hsym, hphase, dbModify_ok_iff.1 hmod,
      ⟨hsym, rfl, dbCreate_ok_iff.1 hnew⟩, hlaunch, rfl⟩

theorem applyXttSetupIcoTier_ok {o : XttSetupIcoTierOperation} (h : s.applyXttSetupIcoTier o = .ok s') :
    ∃ t, t ∈ s.xttTokens.rows ∧ t.2.phase = .setup ∧
      ((∃ r : Nat × XttIcoTierObject, r ∈ s.xttIcoTiers.rows ∧ r.2.symbol = t.2.liquidSymbol ∧
          s' = { s with xttIcoTiers := s.xttIcoTiers.remove r.1 }) ∨
        ∃ a tiers, a.symbol = t.2.liquidSymbol ∧ a.xgtUnitsCap = o.xgtUnitsCap ∧
          s.xttIcoTiers.create? a = some tiers ∧ s' = { s with xttIcoTiers := tiers }) := by
  unfold applyXttSetupIcoTier at h
  obtain ⟨t, ht, h⟩ := of_bind h
  obtain ⟨hrow, -, hphase⟩ := commonPreSetupEvaluation_ok ht
  refine ⟨t, hrow, hphase, ?_⟩
  split_ifs at h
  · split at h
    · cases h
    · next r hr =>
      cases h
      obtain ⟨hr, hkey⟩ := ObjectIndex.of_find? hr
      exact .inl ⟨r, hr, of_decide_eq_true (Bool.and_eq_true _ _ ▸ hkey).1, rfl⟩
  · iterate 3 obtain ⟨_, -, h⟩ := of_bind h
    obtain ⟨tiers, hnew, h⟩ := of_bind h
    cases h
    exact .inr ⟨_, tiers, rfl, rfl, dbCreate_ok_iff.1 hnew, rfl⟩

def Retunes (s s' : Objects) : Prop :=
  ∃ (id : Nat) (old a : XttTokenObject) (tokens : ObjectIndex XttTokenObject), (id, old) ∈ s.xttTokens.rows ∧
    a.liquidSymbol = old.liquidSymbol ∧ a.currentSupply = old.currentSupply ∧ a.phase = old.phase ∧
    s.xttTokens.modify? id a = some tokens ∧ s' = { s with xttTokens := tokens }

theorem retunes_of_foldl {α : Type} {f : XttTokenObject → α → XttTokenObject} {l : List α}
    (hf : ∀ t a, (f t a).liquidSymbol = t.liquidSymbol ∧ (f t a).currentSupply = t.currentSupply ∧
      (f t a).phase = t.phase) (h : (do
      let t ← s.commonPreSetupEvaluation sym name
      let tokens ← dbModify s.xttTokens t.1 (l.foldl f t.2)
      pure { s with xttTokens := tokens }) = .ok s') : s.Retunes s' := by
  simp only [bind_ok_iff, dbModify_ok_iff] at h
  obtain ⟨t, ht, tokens, hmod, ⟨⟩⟩ := h
  obtain ⟨hsym, hsupply, hphase⟩ := List.foldlRecOn l f (motive := fun u => u.liquidSymbol = t.2.liquidSymbol ∧
    u.currentSupply = t.2.currentSupply ∧ u.phase = t.2.phase) ⟨rfl, rfl, rfl⟩ fun u hu a _ => by
      obtain ⟨hsym, hsupply, hphase⟩ := hf u a
      exact ⟨hsym.trans hu.1, hsupply.trans hu.2.1, hphase.trans hu.2.2⟩
  exact ⟨t.1, t.2, _, tokens, (commonPreSetupEvaluation_ok ht).1, hsym, hsupply, hphase, hmod, rfl⟩

theorem applyXttSetSetupParameters_ok {o : XttSetSetupParametersOperation}
    (h : s.applyXttSetSetupParameters o = .ok s') : s.Retunes s' :=
  retunes_of_foldl (fun t a => by cases a; exact ⟨rfl, rfl, rfl⟩) h

theorem applyXttSetRuntimeParameters_ok {o : XttSetRuntimeParametersOperation}
    (h : s.applyXttSetRuntimeParameters o = .ok s') : s.Retunes s' :=
  retunes_of_foldl (fun t a => by cases a <;> exact ⟨rfl, rfl, rfl⟩) h

theorem applyXttContribute_ok {o : XttContributeOperation} (h : s.applyXttContribute o = .ok s') :
    ∃ (ico : Nat × XttIcoObject) (cap : Int) (contributed : Asset) (s1 : Objects)
      (contributions : ObjectIndex XttContributionObject) (icos : ObjectIndex XttIcoObject),
      ((ico.1, ico.2) ∈ s.xttIcos.rows ∧ ico.2.symbol = o.symbol ∧ s.xgtUnitsHardCap o.symbol = some cap) ∧
      ico.2.contributed.add o.contribution = .ok contributed ∧ contributed.amount ≤ cap ∧
      s.adjustBalance o.contributor ⟨-o.contribution.amount, o.contribution.symbol⟩ = .ok s1 ∧
      s.xttContributions.create? ⟨o.symbol, o.contributor, o.contributionId, o.contribution⟩ =
        some contributions ∧
      s.xttIcos.modify? ico.1 { ico.2 with contributed := contributed } = some icos ∧
      s' = { s1 with xttContributions := contributions, xttIcos := icos } := by
  unfold applyXttContribute at h
  obtain ⟨t, ht, h⟩ := of_bind h
  iterate 2 obtain ⟨_, -, h⟩ := of_bind h
  split at h
  · cases h
  · next cap hcap =>
    simp only [bind_ok_iff] at h
    obtain ⟨ico, hico, _, -, total, htotal, _, hle, _, -, n, hn, s1, hpaid, contributions, hnew,
      contributed, hadd, icos, hmod, h⟩ := h
    cases h
    cases of_safeInt64 hn
    cases of_safeInt64 htotal
    have hamount : contributed.amount = ico.2.contributed.amount + o.contribution.amount := by
      rw [(of_assetAdd hadd).2]
    obtain ⟨hrow, hsym⟩ := of_getRow hico
    have htsym := of_decide_eq_true (of_getRow ht).2
    obtain ⟨_, _, _, hs1⟩ := adjustBalance_eq hpaid
    have hcontributions : s1.xttContributions = s.xttContributions := by rw [hs1]
    have hicos : s1.xttIcos = s.xttIcos := by rw [hs1]
    rw [hcontributions] at hnew
    rw [hicos] at hmod
    exact ⟨ico, cap, contributed, s1, contributions, icos,
      ⟨hrow, (of_decide_eq_true hsym).trans htsym, hcap⟩, hadd,
      hamount.trans_le (of_fcAssert hle), hpaid, dbCreate_ok_iff.1 hnew,
      dbModify_ok_iff.1 hmod, rfl⟩

/-! ## Wallets -/

theorem createWallet_ok {memo : PublicKey} {auth : AccountAuthorityObject}
    (h : s.createWallet name memo auth = .ok s') :
    ∃ wallets auths,
      s.wallets.create? { name := name, memoKey := memo, created := s.dgp.time } = some wallets ∧
      s.authorities.create? auth = some auths ∧ s' = { s with wallets := wallets, authorities := auths } := by
  simp only [createWallet, bind_ok_iff, dbCreate_ok_iff] at h
  obtain ⟨wallets, hwallet, auths, hauth, ⟨⟩⟩ := h
  exact ⟨wallets, auths, hwallet, hauth, rfl⟩

section WalletUpdate

variable {o : WalletUpdateOperation}

theorem upsertWallet_ok (h : s.upsertWallet o = .ok s') :
    (s.findAccount o.wallet).isSome = true ∧ s' = s ∨
      (s.findAccount o.wallet).isSome = false ∧ ∃ memo auth, auth.account = o.wallet ∧
        s.createWallet o.wallet memo auth = .ok s' := by
  unfold upsertWallet at h
  split at h
  · next hw =>
    cases h
    exact .inl ⟨by rw [hw]; rfl, rfl⟩
  · next hw =>
    iterate 4 obtain ⟨_, -, h⟩ := of_bind h
    exact .inr ⟨by rw [hw]; rfl, _, _, rfl, h⟩

theorem setRecovery_ok (h : s.setRecovery o = .ok s') :
    o.recovery = none ∧ s' = s ∨ ∃ recovery r history auths, o.recovery = some recovery ∧
      s.getAuthority o.wallet = .ok r ∧ s.recordRecovery r.2 = .ok history ∧
      s.authorities.modify? r.1 { r.2 with recovery := recovery, lastRecoveryUpdate := s.headBlockTime } =
        some auths ∧
      s' = { s with recoveryHistory := history, authorities := auths } := by
  unfold setRecovery at h
  split at h
  · next hnone =>
    cases h
    exact .inl ⟨hnone, rfl⟩
  · next recovery hsome =>
    simp only [updateRecoveryAuthority, bind_ok_iff, dbModify_ok_iff] at h
    obtain ⟨_, -, _, -, _, -, r, hr, history, hhistory, auths, hmod, ⟨⟩⟩ := h
    exact .inr ⟨recovery, r, history, auths, hsome, hr, hhistory, hmod, rfl⟩

theorem setWalletData_ok (h : s.setWalletData o = .ok s') :
    ∃ (w : Nat × WalletObject) (a : WalletObject) (wallets : ObjectIndex WalletObject),
      (w ∈ s.wallets.rows ∧ w.2.name = o.wallet) ∧ s.wallets.modify? w.1 a = some wallets ∧
        (a.name = w.2.name ∧ a.balance = w.2.balance) ∧
      (o.jsonMetadata = "" ∧ o.socialJsonMetadata = "" ∧ s' = { s with wallets := wallets } ∨
        ∃ (m : Nat × AccountMetadataObject) (b : AccountMetadataObject)
          (metadata : ObjectIndex AccountMetadataObject), m ∈ s.metadata.rows ∧
          s.metadata.modify? m.1 b = some metadata ∧ b.account = m.2.account ∧
          s' = { s with wallets := wallets, metadata := metadata }) := by
  unfold setWalletData at h
  obtain ⟨w, hw, h⟩ := of_bind h
  obtain ⟨wallets, hmod, h⟩ := of_bind h
  refine ⟨w, _, wallets, ⟨(of_getRow hw).1, of_decide_eq_true (of_getRow hw).2⟩,
    dbModify_ok_iff.1 hmod, ⟨rfl, rfl⟩, ?_⟩
  by_cases hmeta : o.jsonMetadata ≠ "" ∨ o.socialJsonMetadata ≠ ""
  · rw [if_pos hmeta] at h
    obtain ⟨m, hm, h⟩ := of_bind h
    obtain ⟨metadata, hmod', h⟩ := of_bind h
    cases h
    exact .inr ⟨m, _, metadata, (of_getRow hm).1, dbModify_ok_iff.1 hmod', rfl, rfl⟩
  · rw [if_neg hmeta] at h
    cases h
    rw [not_or, not_not, not_not] at hmeta
    exact .inl ⟨hmeta.1, hmeta.2, rfl⟩

theorem setMoneySocial_ok (h : s.setMoneySocial o = .ok s') :
    s' = s ∨ ∃ r auths, s.getAuthority o.wallet = .ok r ∧
      s.authorities.modify? r.1 { r.2 with
        money := o.money.getD r.2.money, social := o.social.getD r.2.social } = some auths ∧
      s' = { s with authorities := auths } := by
  unfold setMoneySocial at h
  split_ifs at h
  · obtain ⟨r, hr, h⟩ := of_bind h
    obtain ⟨auths, hmod, h⟩ := of_bind h
    cases h
    exact .inr ⟨r, auths, hr, dbModify_ok_iff.1 hmod, rfl⟩
  · cases h
    exact .inl rfl

theorem applyWalletUpdate_ok (h : s.applyWalletUpdate o = .ok s') :
    ∃ s1 s2 s3, s.upsertWallet o = .ok s1 ∧ s1.setRecovery o = .ok s2 ∧
      s2.setWalletData o = .ok s3 ∧ s3.setMoneySocial o = .ok s' := by
  unfold applyWalletUpdate at h
  iterate 2 obtain ⟨_, -, h⟩ := of_bind h
  obtain ⟨s1, h1, h⟩ := of_bind h
  iterate 5 obtain ⟨_, -, h⟩ := of_bind h
  obtain ⟨s2, h2, h⟩ := of_bind h
  iterate 2 obtain ⟨_, -, h⟩ := of_bind h
  obtain ⟨s3, h3, h⟩ := of_bind h
  exact ⟨s1, s2, s3, h1, h2, h3, h⟩

end WalletUpdate

variable {o : TransferOperation}

theorem createReceiver_ok (h : s.createReceiver env o = .ok s') :
    (s.findAccount o.toWallet).isSome = true ∧ s' = s ∨
      (s.findAccount o.toWallet).isSome = false ∧ ∃ memo auth, s.createWallet o.toWallet memo auth = .ok s' ∧
        auth.account = o.toWallet ∧ auth.recovery = .ofKey 1 (env.random s.wallets.nextId).recovery 1 ∧
        auth.money = .ofKey 1 (env.random s.wallets.nextId).money 1 := by
  unfold createReceiver at h
  split at h
  · next hw =>
    cases h
    exact .inl ⟨by rw [hw]; rfl, rfl⟩
  · next hw => exact .inr ⟨by rw [hw]; rfl, _, _, h, rfl, rfl, rfl⟩

theorem applyTransfer_ok (h : s.applyTransfer env o = .ok s') :
    ∃ s1 s2, s.createReceiver env o = .ok s1 ∧
      s1.adjustBalance o.fromWallet ⟨-o.amount.amount, o.amount.symbol⟩ = .ok s2 ∧
      s2.adjustBalance o.toWallet o.amount = .ok s' := by
  unfold applyTransfer at h
  obtain ⟨s1, hnew, h⟩ := of_bind h
  obtain ⟨n, hn, h⟩ := of_bind h
  cases of_safeInt64 hn
  obtain ⟨s2, hspent, hpaid⟩ := of_bind h
  exact ⟨s1, s2, hnew, hspent, hpaid⟩

variable {o : PowOperation}

theorem createWorker_ok {key : PublicKey} (h : s.createWorker o worker key = .ok s') :
    ∃ auth s1 w witnesses, auth.account = worker ∧ s.createWallet worker key auth = .ok s1 ∧
      w.owner = worker ∧ s1.witnesses.create? w = some witnesses ∧ s' = { s1 with witnesses := witnesses } := by
  simp only [createWorker, bind_ok_iff, dbCreate_ok_iff] at h
  obtain ⟨s1, hnew, props, -, witnesses, hwitness, ⟨⟩⟩ := h
  exact ⟨_, s1, _, witnesses, rfl, hnew, rfl, hwitness, rfl⟩

def countPow (s : Objects) : Objects :=
  { s with dgp := { s.dgp with
      totalPow := (s.dgp.totalPow + 1) % 2 ^ 64
      numPowWitnesses := (s.dgp.numPowWitnesses + 1) % 2 ^ 32 } }

def creditWork (s : Objects) (o : PowOperation) (worker : WalletName) : Result Objects :=
  match s.findAccount worker, o.newRecoveryKey with
  | some _, _ => s.rewardWorker o worker
  | none, none => pure s
  | none, some key => do
    let s ← s.createWorker o worker key
    s.rewardWorker o worker

theorem applyPow_eq (s : Objects) (env : Env) (o : PowOperation) :
    s.applyPow env o = if 2116800 ≤ s.headBlockNum then .ok s
      else (do
        let work ← getSha2Pow o.work
        s.checkPow env o work
        s.countPow.creditWork o work.input.workerAccount) := rfl

theorem of_getSha2Pow {work : Sha2Pow} (h : getSha2Pow o.work = .ok work) :
    o.work = .sha2Pow work ∧ o.getWorkerName = work.input.workerAccount := by
  unfold PowOperation.getWorkerName
  cases hw : o.work with
  | pow w => simp [getSha2Pow, hw] at h
  | sha2Pow w =>
    simp only [getSha2Pow, hw, Except.ok.injEq] at h
    simp [PowWork.input, h]

theorem applyPow_ok (h : s.applyPow env o = .ok s') :
    2116800 ≤ s.headBlockNum ∧ s' = s ∨
      s.headBlockNum < 2116800 ∧ s.countPow.creditWork o o.getWorkerName = .ok s' := by
  rw [applyPow_eq] at h
  split_ifs at h with hnum
  · cases h
    exact .inl ⟨hnum, rfl⟩
  · obtain ⟨work, hwork, h⟩ := of_bind h
    obtain ⟨_, -, h⟩ := of_bind h
    rw [(of_getSha2Pow hwork).2]
    exact .inr ⟨Nat.not_le.1 hnum, h⟩

end Objects

end Xgt
