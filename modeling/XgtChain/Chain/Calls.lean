import XgtChain.Chain.EscrowSteps

/-!
# Which tables an operation writes

Every change of the chain's objects is a call of `create`, `modify` or `remove` on a table, or of `modify`
on one of the objects of which there is one (`Call`).
-/

namespace Xgt

open Base ObjectIndex List

inductive TableName where
  | dynamicGlobalProperty
  | wallet
  | accountMetadata
  | accountAuthority
  | witness
  | transaction
  | blockSummary
  | comment
  | commentContent
  | hardforkProperty
  | recoveryAuthorityHistory
  | escrow
  | pendingRequiredAction
  | xttToken
  | accountRegularBalance
  | naiPool
  | xttContribution
  | xttIco
  | xttIcoTier
  | contract
  deriving DecidableEq

inductive Call where
  | wallet (c : RowCall WalletObject)
  | authority (c : RowCall AccountAuthorityObject)
  | metadata (c : RowCall AccountMetadataObject)
  | recoveryHistory (c : RowCall RecoveryAuthorityHistoryObject)
  | witness (c : RowCall WitnessObject)
  | transaction (c : RowCall TransactionObject)
  | escrow (c : RowCall EscrowObject)
  | contract (c : RowCall ContractObject)
  | comment (c : RowCall CommentObject)
  | commentContent (c : RowCall CommentContentObject)
  | xttToken (c : RowCall XttTokenObject)
  | xttIco (c : RowCall XttIcoObject)
  | xttIcoTier (c : RowCall XttIcoTierObject)
  | xttContribution (c : RowCall XttContributionObject)
  | balance (c : RowCall AccountRegularBalanceObject)
  | pendingRequiredAction (c : RowCall PendingRequiredActionObject)
  | naiPool (p : NaiPoolObject)
  | dgp (f : DynamicGlobalPropertyObject → DynamicGlobalPropertyObject)
  | blockSummary (i : Nat) (id : BlockId)

inductive Call.Runs : Objects → Call → Objects → Prop where
  | wallet {s : Objects} {c t} (h : c.Runs s.wallets t) : Runs s (.wallet c) { s with wallets := t }
  | authority {s : Objects} {c t} (h : c.Runs s.authorities t) :
      Runs s (.authority c) { s with authorities := t }
  | metadata {s : Objects} {c t} (h : c.Runs s.metadata t) : Runs s (.metadata c) { s with metadata := t }
  | recoveryHistory {s : Objects} {c t} (h : c.Runs s.recoveryHistory t) :
      Runs s (.recoveryHistory c) { s with recoveryHistory := t }
  | witness {s : Objects} {c t} (h : c.Runs s.witnesses t) : Runs s (.witness c) { s with witnesses := t }
  | transaction {s : Objects} {c t} (h : c.Runs s.transactions t) :
      Runs s (.transaction c) { s with transactions := t }
  | escrow {s : Objects} {c t} (h : c.Runs s.escrows t) : Runs s (.escrow c) { s with escrows := t }
  | contract {s : Objects} {c t} (h : c.Runs s.contracts t) :
      Runs s (.contract c) { s with contracts := t }
  | comment {s : Objects} {c t} (h : c.Runs s.comments t) : Runs s (.comment c) { s with comments := t }
  | commentContent {s : Objects} {c t} (h : c.Runs s.commentContents t) :
      Runs s (.commentContent c) { s with commentContents := t }
  | xttToken {s : Objects} {c t} (h : c.Runs s.xttTokens t) :
      Runs s (.xttToken c) { s with xttTokens := t }
  | xttIco {s : Objects} {c t} (h : c.Runs s.xttIcos t) : Runs s (.xttIco c) { s with xttIcos := t }
  | xttIcoTier {s : Objects} {c t} (h : c.Runs s.xttIcoTiers t) :
      Runs s (.xttIcoTier c) { s with xttIcoTiers := t }
  | xttContribution {s : Objects} {c t} (h : c.Runs s.xttContributions t) :
      Runs s (.xttContribution c) { s with xttContributions := t }
  | balance {s : Objects} {c t} (h : c.Runs s.balances t) : Runs s (.balance c) { s with balances := t }
  | pendingRequiredAction {s : Objects} {c t} (h : c.Runs s.pendingRequiredActions t) :
      Runs s (.pendingRequiredAction c) { s with pendingRequiredActions := t }
  | naiPool {s : Objects} (p : NaiPoolObject) : Runs s (.naiPool p) { s with naiPool := p }
  | dgp {s : Objects} (f : DynamicGlobalPropertyObject → DynamicGlobalPropertyObject) :
      Runs s (.dgp f) { s with dgp := f s.dgp }
  | blockSummary {s : Objects} (i : Nat) (id : BlockId) :
      Runs s (.blockSummary i id)
        { s with blockSummaries := fun j => if j = i then id else s.blockSummaries j }

structure ChainPart where
  headBlockNumber : Nat
  headBlockId : BlockId
  time : TimePointSec
  miningTarget : Sha256
  maximumBlockSize : Nat
  lastIrreversibleBlockNum : Nat
  hardforks : HardforkPropertyObject
  blockSummaries : Nat → BlockId

def Objects.chainPart (s : Objects) : ChainPart where
  headBlockNumber := s.dgp.headBlockNumber
  headBlockId := s.dgp.headBlockId
  time := s.dgp.time
  miningTarget := s.dgp.miningTarget
  maximumBlockSize := s.dgp.maximumBlockSize
  lastIrreversibleBlockNum := s.lib
  hardforks := s.hardforks
  blockSummaries := s.blockSummaries

def Operation.written (cr : Crypto) : Operation → List WalletName
  | .walletCreate o => [o.getWalletName cr]
  | .walletUpdate o => [o.wallet]
  | .comment o => [o.author]
  | .transfer o => [o.fromWallet, o.toWallet]
  | .escrowTransfer o => [o.fromWallet]
  | .escrowApprove o => [o.fromWallet, o.agent]
  | .escrowRelease o => [o.receiver]
  | .pow o => [o.getWorkerName]
  | .xttCreate o => [o.controlAccount, xgtNullWallet]
  | .xttContribute o => [o.contributor]
  | _ => []

namespace Objects

variable {s s' s'' : Objects}

/-- The calls lead from one state to the other. -/
inductive Trace : Objects → List Call → Objects → Prop where
  | nil {s : Objects} : Trace s [] s
  | call {s s' : Objects} {c : Call} (h : c.Runs s s') : Trace s [c] s'
  | append {s s' s'' : Objects} {cs cs' : List Call} (h : Trace s cs s') (h' : Trace s' cs' s'') :
      Trace s (cs ++ cs') s''

def Does (p : Call → Prop) (s s' : Objects) : Prop := ∃ cs, Trace s cs s' ∧ ∀ c ∈ cs, p c

variable {p q : Call → Prop}

theorem Does.refl : Does p s s := ⟨[], .nil, fun _ h => absurd h not_mem_nil⟩

theorem Does.call {c : Call} (h : Call.Runs s c s') (hc : p c) : Does p s s' :=
  ⟨[c], .call h, fun _ hmem => mem_singleton.1 hmem ▸ hc⟩

theorem Does.trans (h : Does p s s') (h' : Does p s' s'') : Does p s s'' := by
  obtain ⟨cs, hcs, hp⟩ := h
  obtain ⟨cs', hcs', hp'⟩ := h'
  exact ⟨cs ++ cs', hcs.append hcs', fun c hc => (mem_append.1 hc).elim (hp c) (hp' c)⟩

theorem Does.mono (h : Does p s s') (hpq : ∀ c, p c → q c) : Does q s s' := by
  obtain ⟨cs, hcs, hp⟩ := h
  exact ⟨cs, hcs, fun c hc => hpq c (hp c hc)⟩

theorem Does.lift {R : Objects → Objects → Prop} (h : Does p s s') (refl : ∀ s, R s s)
    (trans : ∀ {s s' s''}, R s s' → R s' s'' → R s s'')
    (call : ∀ {s s' c}, p c → Call.Runs s c s' → R s s') : R s s' := by
  obtain ⟨cs, hcs, hp⟩ := h
  induction hcs with
  | nil => exact refl _
  | call h => exact call (hp _ (mem_singleton_self _)) h
  | append _ _ ih ih' =>
    exact trans (ih fun c hc => hp c (mem_append_left _ hc))
      (ih' fun c hc => hp c (mem_append_right _ hc))

theorem Does.keeps {β : Type} (f : Objects → β) (h : Does p s s')
    (call : ∀ {s s' c}, p c → Call.Runs s c s' → f s' = f s) : f s' = f s :=
  h.lift (R := fun s s' => f s' = f s) (fun _ => rfl) (fun h h' => h'.trans h) call

theorem of_row {α : Type} {t : ObjectIndex α} {Q : α → Prop} {id : Nat} {a : α}
    (h : ∀ a ∈ t.objects, Q a) (hrow : (id, a) ∈ t.rows) : Q a :=
  h a (mem_objects.2 ⟨id, hrow⟩)

end Objects

/-! ## Kinds of calls -/

namespace Call

variable {c : Call} (ts : List TableName) (p : Call → Prop) (names : List WalletName)

@[simp] def table : Call → TableName
  | .wallet _ => .wallet
  | .authority _ => .accountAuthority
  | .metadata _ => .accountMetadata
  | .recoveryHistory _ => .recoveryAuthorityHistory
  | .witness _ => .witness
  | .transaction _ => .transaction
  | .escrow _ => .escrow
  | .contract _ => .contract
  | .comment _ => .comment
  | .commentContent _ => .commentContent
  | .xttToken _ => .xttToken
  | .xttIco _ => .xttIco
  | .xttIcoTier _ => .xttIcoTier
  | .xttContribution _ => .xttContribution
  | .balance _ => .accountRegularBalance
  | .pendingRequiredAction _ => .pendingRequiredAction
  | .naiPool _ => .naiPool
  | .dgp _ => .dynamicGlobalProperty
  | .blockSummary _ _ => .blockSummary

def On (c : Call) : Prop := c.table ∈ ts ∧ p c

def Token : Call → Prop
  | .xttToken _ | .balance _ => True
  | _ => False

def KeepsBalance : RowCall WalletObject → Prop
  | .create a => a.balance = .xgt 0
  | .modify _ old a => a.balance = old.balance
  | .remove _ _ => False

def NewIco : RowCall XttIcoObject → Prop
  | .create a => a.contributed = .xgt 0
  | _ => False

def Idle : Call → Prop
  | .wallet c => KeepsBalance c
  | .xttIco c => NewIco c
  | .authority _ | .escrow _ | .transaction _ | .dgp _ | .blockSummary _ _ => False
  | _ => True

def Still : Call → Prop
  | .wallet c => KeepsBalance c
  | .xttIco c => NewIco c
  | .escrow _ => False
  | .dgp f => ∀ d, (f d).currentSupply = d.currentSupply
  | _ => True

def Liquid : Call → Prop
  | .escrow _ | .authority _ | .transaction _ | .dgp _ | .blockSummary _ _ => False
  | _ => True

def Plain : Call → Prop
  | .authority _ | .transaction _ | .dgp _ | .blockSummary _ _ => False
  | _ => True

def KeepsSupply : Call → Prop
  | .dgp f => ∀ d, (f d).currentSupply = d.currentSupply
  | _ => True

def Outside : Call → Prop
  | .wallet (.modify _ _ _) | .witness _ | .transaction _ | .dgp _ | .blockSummary _ _ => True
  | _ => False

/-- A call that creates no wallet, writes no row of a wallet outside `names`, and leaves the chain's head. -/
def Of : Call → Prop
  | .wallet (.modify _ old _) => old.name ∈ names
  | .authority (.modify _ old a) => old.account ∈ names ∧ a.account = old.account
  | .balance (.create b) => b.name ∈ names
  | .balance (.modify _ old b) => old.name ∈ names ∧ b.name = old.name
  | .wallet _ | .authority _ | .balance _ | .blockSummary _ _ => False
  | .dgp f => ∀ s : Objects, ({ s with dgp := f s.dgp } : Objects).chainPart = s.chainPart
  | _ => True

/-- Tables without rows of a wallet and without the chain's head. -/
abbrev Away : Prop :=
  ∀ t ∈ ts, t ∉ [TableName.wallet, .accountAuthority, .accountRegularBalance,
    .dynamicGlobalProperty, .blockSummary]

def For (c : Call) : Prop := p c ∧ c.Of names

theorem Token.idle (h : c.Token) : c.Idle := by
  cases c <;> first | exact h.elim | trivial

theorem Idle.still (h : c.Idle) : c.Still := by
  cases c <;> first | exact h | exact h.elim

theorem Idle.liquid (h : c.Idle) : c.Liquid := by
  cases c <;> first | exact h | trivial

theorem Liquid.plain (h : c.Liquid) : c.Plain := by
  cases c <;> first | exact h | trivial

theorem Plain.keepsSupply (h : c.Plain) : c.KeepsSupply := by
  cases c <;> first | exact h.elim | trivial

theorem Still.keepsSupply (h : c.Still) : c.KeepsSupply := by
  cases c <;> first | exact h | trivial

end Call

open Call

namespace Objects

variable {s s' : Objects}

section On

variable {p : Call → Prop} {ts ts' : List TableName}

theorem Does.on {c : Call} (ht : c.table ∈ ts) (h : Call.Runs s c s') (hc : p c) :
    Does (On ts p) s s' := .call h ⟨ht, hc⟩

variable (h : Does (On ts p) s s')
include h

theorem Does.all : Does p s s' := h.mono fun _ => And.right

theorem Does.on_mono {q : Call → Prop} (hts : ts ⊆ ts')
    (hpq : ∀ c, p c → q c) : Does (On ts' q) s s' :=
  h.mono fun _ hc => ⟨hts hc.1, hpq _ hc.2⟩

theorem Does.widen (hts : ts ⊆ ts' := by decide) : Does (On ts' p) s s' :=
  h.on_mono hts fun _ => id

end On

variable {names : List WalletName} {ts : List TableName} {p : Call → Prop}

theorem Does.kind (h : Does (On ts (For p names)) s s') : Does p s s' := h.mono fun _ hc => hc.2.1

theorem Does.away
    (h : Does (On ts p) s s') (hts : Away ts) : Does (On ts (For p names)) s s' := by
  refine h.mono fun c hc => ⟨hc.1, hc.2, ?_⟩
  have htable := hts _ hc.1
  cases c <;> first | trivial | exact absurd htable (by simp)

variable {delta : Asset} {name : WalletName} {names : List WalletName} {env : Env} {cr : Crypto}
  {parent : Option (Nat × CommentObject)} {o : CommentOperation} {e : EscrowObject} {op : Operation}

theorem Does.liquid (h : Does Idle s s') : Does Liquid s s' := h.mono fun _ => Idle.liquid

theorem Does.still (h : Does Idle s s') : Does Still s s' := h.mono fun _ => Idle.still

theorem Does.plain (h : Does Liquid s s') : Does Plain s s' := h.mono fun _ => Liquid.plain

theorem Does.calls_of_liquid (h : Does Liquid s s') : Does KeepsSupply s s' :=
  h.mono fun _ hc => (Liquid.plain hc).keepsSupply

theorem Does.calls_of_still (h : Does Still s s') : Does KeepsSupply s s' :=
  h.mono fun _ => Still.keepsSupply

theorem name_eq_of_sameKeys {a w : WalletObject} (h : SameKeys a w) : a.name = w.name :=
  of_decide_eq_true ((h w).trans (decide_eq_true rfl))

theorem adjustSupply_token (h : s.adjustSupply delta = .ok s') (hxtt : delta.symbol ≠ xgtSymbol) :
    Does (For Token names) s s' := by
  obtain ⟨t, tokens, hrow, -, -, hmod, rfl⟩ := adjustSupply_ok h hxtt
  exact .call (.xttToken (.modify hrow hmod fun _ => rfl)) ⟨trivial, trivial⟩

theorem adjustXttBalance_token (hname : name ∈ names) (h : s.adjustXttBalance name delta = .ok s') :
    Does (For Token names) s s' := by
  rcases adjustXttBalance_ok h with ⟨-, rfl⟩ | ⟨balances, -, hnew, rfl⟩ | ⟨b, balances, ⟨hrow, rfl⟩,
    -, -, hmod, rfl⟩
  · exact .refl
  · exact .call (.balance (.create hnew)) ⟨trivial, hname⟩
  · exact .call (.balance (.modify hrow hmod fun _ => rfl)) ⟨trivial, hname, rfl⟩

section

variable (hname : name ∈ names) (h : s.adjustBalance name delta = .ok s')
include hname h

theorem adjustBalance_cases :
    delta.symbol ≠ xgtSymbol ∧ Does (For Token names) s s' ∨
      delta.symbol = xgtSymbol ∧ s.modifyBalance name delta = .ok s' := by
  obtain ⟨-, hxgt | ⟨hne, h | h⟩⟩ := adjustBalance_ok h
  · exact .inr hxgt
  · exact .inl ⟨hne, adjustSupply_token h hne⟩
  · exact .inl ⟨hne, adjustXttBalance_token hname h⟩

theorem adjustBalance_liquid :
    Does (On [.wallet, .xttToken, .accountRegularBalance] (For Liquid names)) s s' := by
  rcases adjustBalance_cases hname h with ⟨-, htoken⟩ | ⟨-, hmod⟩
  · refine htoken.mono fun c hc => ⟨?_, hc.1.idle.liquid, hc.2⟩
    cases c <;> first | exact hc.1.elim | simp
  · obtain ⟨w, wallets, hw, -, -, hwallet, rfl⟩ := modifyBalance_ok hmod
    obtain ⟨hrow, hw⟩ := of_getRow hw
    rw [← of_decide_eq_true hw] at hname
    exact .on (by simp) (.wallet (.modify hrow hwallet fun _ => rfl)) ⟨trivial, hname⟩

end

theorem applyWitnessUpdate_idle {o : WitnessUpdateOperation}
    (h : s.applyWitnessUpdate o = .ok s') : Does (On [.witness] Idle) s s' := by
  unfold applyWitnessUpdate at h
  iterate 5 obtain ⟨_, -, h⟩ := of_bind h
  split at h
  · next w hw =>
    obtain ⟨witnesses, hmod, h⟩ := of_bind h
    cases h
    exact .on (by simp) (.witness (.modify (of_find? hw).1 (dbModify_ok_iff.1 hmod) fun _ => rfl)) trivial
  · obtain ⟨witnesses, hnew, h⟩ := of_bind h
    cases h
    exact .on (by simp) (.witness (.create (dbCreate_ok_iff.1 hnew))) trivial

theorem applyCustom_eq {o : CustomOperation} (h : s.applyCustom env o = .ok s') : s' = s := by
  unfold applyCustom at h
  split_ifs at h
  all_goals
    repeat obtain ⟨_, -, h⟩ := of_bind h
    cases h
    rfl

theorem applyCustomJson_eq {o : CustomJsonOperation} (h : s.applyCustomJson env o = .ok s') : s' = s := by
  unfold applyCustomJson at h
  split_ifs at h
  all_goals
    repeat obtain ⟨_, -, h⟩ := of_bind h
    cases h
    rfl

theorem applyContractCreate_idle {o : ContractCreateOperation}
    (h : s.applyContractCreate o = .ok s') : Does (On [.contract] Idle) s s' := by
  unfold applyContractCreate at h
  obtain ⟨contracts, hnew, h⟩ := of_bind h
  cases h
  exact .on (by simp) (.contract (.create (dbCreate_ok_iff.1 hnew))) trivial

theorem countInAncestors_idle {fuel : Nat} (hparent : ∀ p ∈ parent, (p.1, p.2) ∈ s.comments.rows)
    (h : s.countInAncestors fuel parent = .ok s') : Does (On [.comment] Idle) s s' := by
  induction fuel generalizing s parent with
  | zero =>
    cases parent with
    | none =>
      cases h
      exact .refl
    | some p => cases h
  | succ fuel ih =>
    cases parent with
    | none =>
      cases h
      exact .refl
    | some p =>
      unfold countInAncestors at h
      obtain ⟨comments, hmod, h⟩ := of_bind h
      have hcount : Does (On [.comment] Idle) s { s with comments := comments } :=
        .on (by simp) (.comment (.modify (hparent p rfl) (dbModify_ok_iff.1 hmod) fun _ => rfl)) trivial
      split_ifs at h
      · cases h
        exact hcount
      · obtain ⟨next, hnext, h⟩ := of_bind h
        refine hcount.trans (ih ?_ h)
        rintro _ ⟨⟩
        exact (of_getRow hnext).1

theorem createComment_idle {auth : Nat × WalletObject}
    (hauth : (auth.1, auth.2) ∈ s.wallets.rows) (hnames : auth.2.name ∈ names)
    (hparent : ∀ p ∈ parent, (p.1, p.2) ∈ s.comments.rows) (h : s.createComment o auth parent = .ok s') :
    Does (On [.wallet, .comment, .commentContent] (For Idle names)) s s' := by
  obtain ⟨wallet, wallets, comments, contents, hmod, ⟨hname, hbalance⟩, hnew, hcontent, h⟩ := createComment_ok h
  have hkeys : SameKeys wallet auth.2 := fun c => by simp only [Keyed.clash, hname]
  refine .trans (.on (by simp) (.wallet (.modify hauth hmod hkeys)) ⟨hbalance, hnames⟩) ?_
  refine .trans (.on (by simp) (.comment (.create hnew)) ⟨trivial, trivial⟩) ?_
  refine .trans (.on (by simp) (.commentContent (.create hcontent)) ⟨trivial, trivial⟩) ?_
  refine ((countInAncestors_idle (fun p hp => ?_) h).away (by decide)).widen
  rw [create?_eq hnew]
  exact mem_append_left _ (hparent p hp)

theorem applyComment_idle (h : s.applyComment cr o = .ok s') :
    Does (On [.wallet, .comment, .commentContent] (For Idle [o.author])) s s' := by
  obtain ⟨auth, parent, ⟨hauth, hname⟩, hparent, ⟨-, h⟩ | ⟨r, comments, wallets, hr, hmod, hwallet,
    rfl⟩⟩ := applyComment_ok h
  · exact createComment_idle hauth (mem_singleton.2 hname) (fun p hp => commentParent_mem hparent hp) h
  · refine .trans (.on (by simp) (.comment (.modify (of_find? hr).1 hmod fun _ => rfl)) ⟨trivial, trivial⟩) ?_
    exact .on (by simp) (.wallet (.modify hauth hwallet fun _ => rfl)) ⟨rfl, mem_singleton.2 hname⟩

theorem applyCommentOptions_idle {o : CommentOptionsOperation}
    (h : s.applyCommentOptions o = .ok s') : Does (On [.comment] Idle) s s' := by
  obtain ⟨r, comments, hr, hmod, rfl⟩ := applyCommentOptions_ok h
  exact .on (by simp) (.comment (.modify hr hmod fun _ => rfl)) trivial

theorem applyDeleteComment_idle {o : DeleteCommentOperation}
    (h : s.applyDeleteComment o = .ok s') : Does (On [.comment] Idle) s s' := by
  obtain ⟨r, hr, -, ⟨-, rfl⟩ | ⟨p, comments, -, hp, hmod, rfl⟩⟩ := applyDeleteComment_ok h
  · exact .on (by simp) (.comment (.remove (of_find? hr).1)) trivial
  · refine .trans (.on (by simp) (.comment (.modify (of_find? hp).1 hmod fun _ => rfl)) trivial) ?_
    -- the comment may be its own parent
    obtain ⟨old, hold⟩ := exists_mem_modify? hmod (of_find? hr).1
    exact .on (by simp) (.comment (.remove hold)) trivial

theorem applyVote_eq {o : VoteOperation} (h : s.applyVote o = .ok s') : s' = s := by
  unfold applyVote at h
  repeat obtain ⟨_, -, h⟩ := of_bind h
  cases h
  rfl

theorem applyEscrowTransfer_plain {o : EscrowTransferOperation} (h : s.applyEscrowTransfer o = .ok s') :
    Does (On [.wallet, .xttToken, .accountRegularBalance, .escrow]
      (For Plain [o.fromWallet])) s s' := by
  obtain ⟨spent, s1, escrows, -, hpaid, hnew, rfl⟩ := applyEscrowTransfer_ok h
  exact ((adjustBalance_liquid (by simp) hpaid).on_mono (by decide) fun _ => And.imp_left Liquid.plain).trans
    (.on (by simp) (.escrow (.create hnew)) ⟨trivial, trivial⟩)

theorem written_of_mem_payments (cr : Crypto) {p : WalletName × Asset}
    (hp : p ∈ e.payments op) : p.1 ∈ op.written cr := by
  cases op with
  | escrowApprove o =>
    simp only [EscrowObject.payments] at hp
    split_ifs at hp
    · rw [mem_singleton.1 hp]
      simp [Operation.written]
    · cases hp
    · simp only [mem_cons, not_mem_nil, or_false] at hp
      rcases hp with rfl | rfl <;> simp [Operation.written]
  | escrowRelease o =>
    rw [mem_singleton.1 hp]
    simp [Operation.written]
  | _ => cases hp

theorem Answers.plain (cr : Crypto) {i : Nat} {u : Objects} (h : Answers s op s' i e u) :
    Does (On [.wallet, .xttToken, .accountRegularBalance, .escrow]
      (For Plain (op.written cr))) s s' := by
  have hpaid : Does (On [.wallet, .xttToken, .accountRegularBalance]
      (For Liquid (op.written cr))) s u :=
    foldlM_ok_of_step (P := Does _ s) h.paid .refl fun _ _ _ hp hdoes hstep =>
      hdoes.trans (adjustBalance_liquid (written_of_mem_payments cr hp) hstep)
  obtain ⟨t, hruns, rfl⟩ := h.call
  exact (hpaid.on_mono (by decide) fun _ => And.imp_left Liquid.plain).trans
    (.on (by simp) (.escrow hruns) ⟨trivial, trivial⟩)

theorem applyEscrowDispute_plain {o : EscrowDisputeOperation}
    (h : s.applyEscrowDispute o = .ok s') : Does (On [.escrow] Plain) s s' := by
  obtain ⟨i, e, hanswers⟩ := applyEscrowDispute_answers h
  rw [hanswers.eq]
  exact .on (by simp) (.escrow hanswers.runs) trivial

theorem applyXttCreate_liquid {o : XttCreateOperation} (h : s.applyXttCreate env o = .ok s') :
    Does (On [.wallet, .xttToken, .accountRegularBalance, .naiPool]
      (For Liquid [o.controlAccount, xgtNullWallet])) s s' := by
  obtain ⟨token, s1, tokens, pool, htoken, hpaid, hnew, rfl⟩ := applyXttCreate_ok h
  refine .trans ?_ (.trans (.on (by simp) (.xttToken (.create hnew)) ⟨trivial, trivial⟩)
    (.on (by simp) (.naiPool pool) ⟨trivial, trivial⟩))
  rcases payOrResetXtt_ok hpaid with ⟨-, -, s2, hspent, hnull⟩ | ⟨t, rfl, -, rfl⟩
  · exact ((adjustBalance_liquid (by simp) hspent).trans (adjustBalance_liquid (by simp) hnull)).widen
  · exact .on (by simp) (.xttToken (.remove (of_findTokenAgnostic htoken))) ⟨trivial, trivial⟩

theorem applyXttSetup_idle {o : XttSetupOperation} (h : s.applyXttSetup env o = .ok s') :
    Does (On [.xttToken, .xttIco, .pendingRequiredAction] Idle) s s' := by
  obtain ⟨t, tokens, ico, icos, actions, hrow, -, -, hmod, ⟨-, hnone, hnew⟩, hlaunch, rfl⟩ := applyXttSetup_ok h
  refine .trans (.on (by simp) (.xttToken (.modify hrow hmod fun _ => rfl)) trivial) ?_
  refine .trans (.on (by simp) (.xttIco (.create hnew)) hnone) ?_
  rcases hlaunch with rfl | ⟨a, ha⟩
  · exact .refl
  · exact .on (by simp) (.pendingRequiredAction (.create ha)) trivial

theorem applyXttSetupIcoTier_idle {o : XttSetupIcoTierOperation}
    (h : s.applyXttSetupIcoTier o = .ok s') : Does (On [.xttIcoTier] Idle) s s' := by
  obtain ⟨t, -, -, ⟨r, hr, -, rfl⟩ | ⟨a, tiers, -, -, hnew, rfl⟩⟩ := applyXttSetupIcoTier_ok h
  · exact .on (by simp) (.xttIcoTier (.remove hr)) trivial
  · exact .on (by simp) (.xttIcoTier (.create hnew)) trivial

theorem Retunes.idle (h : s.Retunes s') : Does (On [.xttToken] Idle) s s' := by
  obtain ⟨id, old, a, tokens, hrow, hsym, -, -, hmod, rfl⟩ := h
  exact .on (by simp) (.xttToken (.modify hrow hmod fun c => by simp only [Keyed.clash, hsym])) trivial

theorem applyXttContribute_liquid {o : XttContributeOperation} (h : s.applyXttContribute o = .ok s') :
    Does (On [.wallet, .xttToken, .accountRegularBalance, .xttContribution, .xttIco]
      (For Liquid [o.contributor])) s s' := by
  obtain ⟨ico, cap, contributed, s1, contributions, icos, ⟨hico, -⟩, -, -, hpaid, hnew, hmod, rfl⟩ :=
    applyXttContribute_ok h
  refine (adjustBalance_liquid (by simp) hpaid).widen.trans ?_
  obtain ⟨_, _, _, rfl⟩ := adjustBalance_eq hpaid
  exact .trans (.on (by simp) (.xttContribution (.create hnew)) ⟨trivial, trivial⟩)
    (.on (by simp) (.xttIco (.modify hico hmod fun _ => rfl)) ⟨trivial, trivial⟩)

theorem createWallet_still {memo : PublicKey} {auth : AccountAuthorityObject}
    (h : s.createWallet name memo auth = .ok s') : Does (On [.wallet, .accountAuthority] Still) s s' := by
  obtain ⟨wallets, auths, hwallet, hauth, rfl⟩ := createWallet_ok h
  refine .trans (.on (by simp) (.wallet (.create hwallet)) rfl) ?_
  exact .on (by simp) (.authority (.create hauth)) trivial

section WalletUpdate

variable {o : WalletUpdateOperation}

theorem upsertWallet_still (h : s.upsertWallet o = .ok s') :
    Does (On [.wallet, .accountAuthority] Still) s s' := by
  rcases upsertWallet_ok h with ⟨-, rfl⟩ | ⟨-, memo, auth, -, h⟩
  · exact .refl
  · exact createWallet_still h

theorem setRecovery_still (h : s.setRecovery o = .ok s') :
    Does (On [.recoveryAuthorityHistory, .accountAuthority] (For Still [o.wallet])) s s' := by
  rcases setRecovery_ok h with ⟨-, rfl⟩ | ⟨recovery, r, history, auths, -, hr, hhistory, hmod, rfl⟩
  · exact .refl
  · obtain ⟨hrow, hname⟩ := of_getRow hr
    have hrecord : Does (On [.recoveryAuthorityHistory, .accountAuthority]
        (For Still [o.wallet])) s { s with recoveryHistory := history } := by
      unfold recordRecovery at hhistory
      split_ifs at hhistory
      · exact .on (by simp) (.recoveryHistory (.create (dbCreate_ok_iff.1 hhistory))) ⟨trivial, trivial⟩
      · cases hhistory
        exact .refl
    refine hrecord.trans ?_
    exact .on (by simp) (.authority (.modify hrow hmod fun _ => rfl)) ⟨trivial, by simpa using hname, rfl⟩

theorem setWalletData_idle (h : s.setWalletData o = .ok s') :
    Does (On [.wallet, .accountMetadata] (For Idle [o.wallet])) s s' := by
  obtain ⟨w, a, wallets, ⟨hw, hwallet⟩, hmod, ⟨hname, hbalance⟩, h⟩ := setWalletData_ok h
  have hkeys : SameKeys a w.2 := fun c => by simp only [Keyed.clash, hname]
  refine .trans (.on (by simp) (.wallet (.modify hw hmod hkeys)) ⟨hbalance, mem_singleton.2 hwallet⟩) ?_
  rcases h with ⟨-, -, rfl⟩ | ⟨m, b, metadata, hm, hmod', haccount, rfl⟩
  · exact .refl
  · exact .on (by simp) (.metadata (.modify hm hmod' fun c => by simp only [Keyed.clash, haccount]))
      ⟨trivial, trivial⟩

theorem setMoneySocial_still (h : s.setMoneySocial o = .ok s') :
    Does (On [.accountAuthority] (For Still [o.wallet])) s s' := by
  rcases setMoneySocial_ok h with rfl | ⟨r, auths, hr, hmod, rfl⟩
  · exact .refl
  · obtain ⟨hrow, hname⟩ := of_getRow hr
    exact .on (by simp) (.authority (.modify hrow hmod fun _ => rfl)) ⟨trivial, by simpa using hname, rfl⟩

theorem updateWallet_still {s1 s2 : Objects} (h1 : s.setRecovery o = .ok s1) (h2 : s1.setWalletData o = .ok s2)
    (h3 : s2.setMoneySocial o = .ok s') :
    Does (On [.wallet, .accountAuthority, .recoveryAuthorityHistory, .accountMetadata]
      (For Still [o.wallet])) s s' :=
  (setRecovery_still h1).widen.trans <|
    ((setWalletData_idle h2).on_mono (by decide) fun _ => And.imp_left Idle.still).trans
      (setMoneySocial_still h3).widen

theorem applyWalletUpdate_still (h : s.applyWalletUpdate o = .ok s') :
    Does (On [.wallet, .accountAuthority, .recoveryAuthorityHistory, .accountMetadata] Still) s s' := by
  obtain ⟨s1, s2, s3, h1, h2, h3, h4⟩ := applyWalletUpdate_ok h
  exact (upsertWallet_still h1).widen.trans
    ((updateWallet_still h2 h3 h4).mono fun _ => And.imp_right And.left)

end WalletUpdate

variable {worker : WalletName} {o : PowOperation}

theorem createReceiver_still {env : Env} {o : TransferOperation}
    (h : s.createReceiver env o = .ok s') : Does (On [.wallet, .accountAuthority] Still) s s' := by
  rcases createReceiver_ok h with ⟨-, rfl⟩ | ⟨-, memo, auth, h, -⟩
  · exact .refl
  · exact createWallet_still h

/-! ## Work -/

theorem createWorker_still {key : PublicKey} (h : s.createWorker o worker key = .ok s') :
    Does (On [.wallet, .accountAuthority, .witness] Still) s s' := by
  obtain ⟨auth, s1, w, witnesses, -, hnew, -, hwitness, rfl⟩ := createWorker_ok h
  refine (createWallet_still hnew).widen.trans ?_
  exact .on (by simp) (.witness (.create hwitness)) trivial

theorem rewardWorker_ok (h : s.rewardWorker o worker = .ok s') :
    (s.findWitness worker).isSome = false ∧ s' = s ∨
      (s.findWitness worker).isSome = true ∧ ∃ witnesses,
        Does (On [.witness] Idle) s { s with witnesses := witnesses } ∧
        ({ s with witnesses := witnesses } : Objects).adjustBalance worker
          (miningReward s.headBlockNum) = .ok s' := by
  unfold rewardWorker at h
  split at h
  · next hnone =>
    cases h
    exact .inl ⟨by rw [hnone]; rfl, rfl⟩
  · next w hw =>
    obtain ⟨_, -, h⟩ := of_bind h
    obtain ⟨witnesses, hmod, h⟩ := of_bind h
    refine .inr ⟨by rw [hw]; rfl, witnesses, ?_, h⟩
    exact .on (by simp) (.witness (.modify (of_find? hw).1 (dbModify_ok_iff.1 hmod) fun _ => rfl)) trivial

theorem rewardWorker_liquid (h : s.rewardWorker o worker = .ok s') :
    Does (On [.witness, .wallet, .xttToken, .accountRegularBalance]
      (For Liquid [worker])) s s' := by
  rcases rewardWorker_ok h with ⟨-, rfl⟩ | ⟨-, _, hvote, hpaid⟩
  · exact .refl
  · exact ((hvote.away (by decide)).on_mono (by decide) fun _ => And.imp_left Idle.liquid).trans
      (adjustBalance_liquid (by simp) hpaid).widen

theorem countPow_runs : Call.Runs s (.dgp fun d => { d with
    totalPow := (d.totalPow + 1) % 2 ^ 64
    numPowWitnesses := (d.numPowWitnesses + 1) % 2 ^ 32 }) s.countPow := .dgp _

def earnsReward (s : Objects) (o : PowOperation) : Bool :=
  s.headBlockNum < 2116800 &&
    if (s.findAccount o.getWorkerName).isSome then (s.findWitness o.getWorkerName).isSome
    else o.newRecoveryKey.isSome

/-- What accepted work does; the reward is the last of it. -/
def Rewards (s : Objects) (o : PowOperation) (s' : Objects) : Prop :=
  ∃ u, Does (On [.dynamicGlobalProperty, .wallet, .accountAuthority, .witness] Still) s u ∧
    if s.earnsReward o then u.adjustBalance o.getWorkerName (miningReward s.headBlockNum) = .ok s' else s' = u

theorem applyPow_rewards (h : s.applyPow env o = .ok s') : s.Rewards o s' := by
  have credited {t : Objects}
      (ht : Does (On [.dynamicGlobalProperty, .wallet, .accountAuthority, .witness] Still) s t)
      (hnum : t.headBlockNum = s.headBlockNum) (h : t.rewardWorker o o.getWorkerName = .ok s')
      (hearns : s.earnsReward o = (t.findWitness o.getWorkerName).isSome) : s.Rewards o s' := by
    unfold Rewards
    rw [hearns, ← hnum]
    rcases rewardWorker_ok h with ⟨hnone, rfl⟩ | ⟨hsome, witnesses, hvote, hpaid⟩
    · exact ⟨_, ht, by simp [hnone]⟩
    · exact ⟨_, ht.trans (hvote.on_mono (by decide) fun _ => Idle.still), by simpa [hsome] using hpaid⟩
  rcases applyPow_ok h with ⟨hlate, rfl⟩ | ⟨hearly, h⟩
  · exact ⟨_, .refl, by simp [earnsReward, Nat.not_lt.2 hlate]⟩
  have hcount : Does (On [.dynamicGlobalProperty, .wallet, .accountAuthority, .witness] Still)
      s s.countPow := .on (by simp) countPow_runs fun _ => rfl
  unfold creditWork at h
  rw [show s.countPow.findAccount o.getWorkerName = s.findAccount o.getWorkerName from rfl] at h
  split at h
  · next hw => exact credited hcount rfl h (by simp [earnsReward, hearly, hw]; rfl)
  · next hw hkey =>
    cases h
    exact ⟨_, hcount, by simp [earnsReward, hw, hkey]⟩
  · next key hw hkey =>
    obtain ⟨s1, hnew, h⟩ := of_bind h
    have hworker := hcount.trans (createWorker_still hnew).widen
    obtain ⟨auth, s2, w, witnesses, -, hwallet, howner, hwitness, rfl⟩ := createWorker_ok hnew
    obtain ⟨wallets, auths, -, -, rfl⟩ := createWallet_ok hwallet
    refine credited hworker rfl h ?_
    have hsome : (witnesses.find? fun x => x.owner = o.getWorkerName).isSome := by
      rw [create?_eq hwitness]
      exact find?_isSome.2 ⟨_, mem_concat_self, decide_eq_true howner⟩
    rw [findWitness, hsome]
    simp [earnsReward, hearly, hw, hkey]

end Objects

/-! ## Every operation -/

def Operation.tables : Operation → List TableName
  | .comment _ => [.wallet, .comment, .commentContent]
  | .transfer _ => [.wallet, .accountAuthority, .xttToken, .accountRegularBalance]
  | .walletCreate _ => [.wallet, .accountAuthority]
  | .walletUpdate _ => [.wallet, .accountAuthority, .recoveryAuthorityHistory, .accountMetadata]
  | .witnessUpdate _ => [.witness]
  | .deleteComment _ | .commentOptions _ => [.comment]
  | .escrowTransfer _ | .escrowRelease _ | .escrowApprove _ =>
    [.wallet, .xttToken, .accountRegularBalance, .escrow]
  | .escrowDispute _ => [.escrow]
  | .pow _ => [.dynamicGlobalProperty, .wallet, .accountAuthority, .witness, .xttToken,
      .accountRegularBalance]
  | .xttSetup _ => [.xttToken, .xttIco, .pendingRequiredAction]
  | .xttSetupIcoTier _ => [.xttIcoTier]
  | .xttSetSetupParameters _ | .xttSetRuntimeParameters _ => [.xttToken]
  | .xttCreate _ => [.wallet, .xttToken, .accountRegularBalance, .naiPool]
  | .xttContribute _ => [.wallet, .xttToken, .accountRegularBalance, .xttContribution, .xttIco]
  | .contractCreate _ => [.contract]
  | _ => []

def Operation.creates (cr : Crypto) (s : Objects) : Operation → Option WalletName
  | .walletCreate o => some (o.getWalletName cr)
  | .walletUpdate o => if (s.findAccount o.wallet).isSome then none else some o.wallet
  | .transfer o => if (s.findAccount o.toWallet).isSome then none else some o.toWallet
  | .pow o =>
    if 2116800 ≤ s.headBlockNum ∨ (s.findAccount o.getWorkerName).isSome ∨ o.newRecoveryKey.isNone then none
    else some o.getWorkerName
  | _ => none

def Operation.isEscrow : Operation → Bool
  | .escrowTransfer _ | .escrowApprove _ | .escrowDispute _ | .escrowRelease _ => true
  | _ => false

namespace Objects

variable {s s' : Objects} (cr : Crypto) (env : Env) (op : Operation) (a : AccountAuthorityObject)

def DrawnKeys : Prop :=
  ∃ id, a.money = .ofKey 1 (env.random id).money 1 ∧ a.recovery = .ofKey 1 (env.random id).recovery 1

def Writes : Prop :=
  match op with
  | .walletCreate o =>
    a.account = o.getWalletName cr ∧ a.money = o.money ∧ a.recovery = o.recovery
  | .walletUpdate o => a.account = o.wallet
  | .pow o => a.account = o.getWorkerName
  | .transfer o => a.account = o.toWallet ∧ DrawnKeys env a
  | _ => False

/-- The calls of an operation: none writes the authorities of a wallet unless the operation updates it. -/
def Makes : Call → Prop :=
  On op.tables (For
    (fun c => c.KeepsSupply ∧ (c.table = .accountAuthority → ∃ o, op = .walletUpdate o)) (op.written cr))

/-- The wallet that an operation creates, if any. -/
inductive Creates (cr : Crypto) (env : Env) (op : Operation) (s : Objects) : Objects → Objects → Prop where
  | none {u : Objects} (h : op.creates cr s = none) : Creates cr env op s u u
  | some {u u' : Objects} {name : WalletName} {memo : PublicKey} {auth : AccountAuthorityObject}
      (h : op.creates cr s = some name) (hname : name ∈ op.written cr) (haccount : auth.account = name)
      (hauth : Writes cr env op auth) (hnew : u.createWallet name memo auth = .ok u') :
      Creates cr env op s u u'

variable {cr} {env} {op} {ts : List TableName}

theorem Does.makes (h : Does (On ts (For Plain (op.written cr))) s s')
    (hts : ts ⊆ op.tables) : Does (Makes cr op) s s' := by
  refine h.on_mono hts fun c hc => ⟨⟨hc.1.keepsSupply, fun ht => ?_⟩, hc.2⟩
  obtain ⟨hplain, -⟩ := hc
  cases c <;> first | exact hplain.elim | cases ht

theorem Does.makes_of_liquid (h : Does (On ts (For Liquid (op.written cr))) s s')
    (hts : ts ⊆ op.tables) : Does (Makes cr op) s s' :=
  (h.on_mono (List.Subset.refl _) fun _ => And.imp_left Liquid.plain).makes hts

/-- An operation creates at most one wallet; the calls before and after it are on rows of the wallets that the
operation writes. -/
theorem applyOperation_parts (h : s.applyOperation cr env op = .ok s') :
    ∃ u u', Does (Makes cr op) s u ∧ Creates cr env op s u u' ∧ Does (Makes cr op) u' s' := by
  have whole (h : Does (Makes cr op) s s') (hnone : op.creates cr s = none) :
      ∃ u u', Does (Makes cr op) s u ∧ Creates cr env op s u u' ∧ Does (Makes cr op) u' s' :=
    ⟨s, s, .refl, .none hnone, h⟩
  have liquid (h : Does (On op.tables (For Liquid (op.written cr))) s s') :=
    whole (h.makes_of_liquid (List.Subset.refl _))
  have idle {ts : List TableName} (h : Does (On ts Idle) s s') (haway : Away ts)
      (hts : ts = op.tables) :=
    liquid (hts ▸ (h.mono fun _ => And.imp_right Idle.liquid).away haway)
  cases op with
  | comment o =>
    exact liquid ((applyComment_idle h).mono fun _ => And.imp_right (And.imp_left Idle.liquid)) rfl
  | transfer o =>
    obtain ⟨s1, s2, hnew, hspent, hpaid⟩ := applyTransfer_ok h
    have hmoved : Does (Makes cr (.transfer o)) s1 s' :=
      ((adjustBalance_liquid (by simp [Operation.written]) hspent).trans
        (adjustBalance_liquid (by simp [Operation.written]) hpaid)).makes_of_liquid (by simp [Operation.tables])
    rcases createReceiver_ok hnew with ⟨hfound, rfl⟩ | ⟨hfound, memo, auth, hnew, haccount, hrecovery, hmoney⟩
    · exact whole hmoved (by simp [Operation.creates, hfound])
    · exact ⟨s, s1, .refl, .some (by simp [Operation.creates, hfound]) (by simp [Operation.written]) haccount
        ⟨haccount, s.wallets.nextId, hmoney, hrecovery⟩ hnew, hmoved⟩
  | walletCreate o =>
    exact ⟨s, s', .refl, .some rfl (mem_singleton_self _) rfl ⟨rfl, rfl, rfl⟩ h, .refl⟩
  | walletUpdate o =>
    obtain ⟨s1, s2, s3, h1, h2, h3, h4⟩ := applyWalletUpdate_ok h
    have hupdated : Does (Makes cr (.walletUpdate o)) s1 s' := (updateWallet_still h2 h3 h4).on_mono
      (List.Subset.refl _) fun c hc => ⟨⟨hc.1.keepsSupply, fun _ => ⟨o, rfl⟩⟩, hc.2⟩
    rcases upsertWallet_ok h1 with ⟨hfound, rfl⟩ | ⟨hfound, memo, auth, haccount, hnew⟩
    · exact whole hupdated (by simp [Operation.creates, hfound])
    · exact ⟨s, s1, .refl, .some (by simp [Operation.creates, hfound]) (mem_singleton_self _) haccount
        haccount hnew, hupdated⟩
  | witnessUpdate o => exact idle (applyWitnessUpdate_idle h) (by decide) rfl rfl
  | custom o =>
    cases applyCustom_eq h
    exact whole .refl rfl
  | deleteComment o => exact idle (applyDeleteComment_idle h) (by decide) rfl rfl
  | customJson o =>
    cases applyCustomJson_eq h
    exact whole .refl rfl
  | commentOptions o => exact idle (applyCommentOptions_idle h) (by decide) rfl rfl
  | escrowTransfer o => exact whole ((applyEscrowTransfer_plain h).makes (List.Subset.refl _)) rfl
  | escrowDispute o => exact whole (((applyEscrowDispute_plain h).away (by decide)).makes
      (List.Subset.refl _)) rfl
  | escrowApprove o | escrowRelease o =>
    obtain ⟨_, _, _, hanswers⟩ := applyOperation_answers rfl h
    exact whole ((hanswers.plain cr).makes (List.Subset.refl _)) rfl
  | pow o =>
    have hrewarded {t : Objects} (h : t.rewardWorker o o.getWorkerName = .ok s') :
        Does (Makes cr (.pow o)) t s' := (rewardWorker_liquid h).makes_of_liquid (by simp [Operation.tables])
    rcases applyPow_ok h with ⟨hlate, rfl⟩ | ⟨hearly, h⟩
    · exact whole .refl (by simp [Operation.creates, hlate])
    · have hcount : Does (Makes cr (.pow o)) s s.countPow :=
        .on (by simp [Operation.tables]) countPow_runs ⟨⟨fun _ => rfl, nofun⟩, fun _ => rfl⟩
      unfold creditWork at h
      rw [show s.countPow.findAccount o.getWorkerName = s.findAccount o.getWorkerName from rfl] at h
      cases hfound : s.findAccount o.getWorkerName with
      | some w =>
        rw [hfound] at h
        exact ⟨_, _, hcount, .none (by simp [Operation.creates, hfound]), hrewarded h⟩
      | none =>
        cases hkey : o.newRecoveryKey with
        | none =>
          rw [hfound, hkey] at h
          cases h
          exact ⟨_, _, hcount, .none (by simp [Operation.creates, hkey]), .refl⟩
        | some key =>
          rw [hfound, hkey] at h
          obtain ⟨s1, hworker, hreward⟩ := of_bind h
          obtain ⟨auth, s2, w, witnesses, haccount, hnew, -, hwitness, rfl⟩ := createWorker_ok hworker
          refine ⟨_, s2, hcount, .some (by simp [Operation.creates, hkey, hfound, hearly])
            (mem_singleton_self _) haccount haccount hnew, .trans ?_ (hrewarded hreward)⟩
          exact .on (by simp [Operation.tables]) (.witness (.create hwitness)) ⟨⟨trivial, nofun⟩, trivial⟩
  | vote o =>
    cases applyVote_eq h
    exact whole .refl rfl
  | xttSetup o => exact idle (applyXttSetup_idle h) (by decide) rfl rfl
  | xttSetupIcoTier o => exact idle (applyXttSetupIcoTier_idle h) (by decide) rfl rfl
  | xttSetSetupParameters o => exact idle (applyXttSetSetupParameters_ok h).idle (by decide) rfl rfl
  | xttSetRuntimeParameters o => exact idle (applyXttSetRuntimeParameters_ok h).idle (by decide) rfl rfl
  | xttCreate o => exact liquid (applyXttCreate_liquid h) rfl
  | xttContribute o => exact liquid (applyXttContribute_liquid h) rfl
  | contractCreate o => exact idle (applyContractCreate_idle h) (by decide) rfl rfl
  | reportOverProduction o | contractInvoke o =>
    cases h
    exact whole .refl rfl
  | _ => cases h

theorem applyOperation_calls (h : s.applyOperation cr env op = .ok s') :
    Does (On op.tables KeepsSupply) s s' := by
  have made {t t' : Objects} (h : Does (Makes cr op) t t') : Does (On op.tables KeepsSupply) t t' :=
    h.mono fun _ => And.imp_right fun hc => hc.1.1
  obtain ⟨u, u', hbefore, hcreates, hafter⟩ := applyOperation_parts h
  refine (made hbefore).trans (.trans ?_ (made hafter))
  cases hcreates with
  | none => exact .refl
  | some hname _ _ _ hnew =>
    refine (createWallet_still hnew).on_mono ?_ fun _ => Still.keepsSupply
    cases op <;> first | (cases hname; done) | simp [Operation.tables]

theorem Does.escrows_eq {p : Call → Prop} (h : Does p s s') (hp : ∀ c, ¬p (.escrow c)) :
    s'.escrows = s.escrows := by
  refine h.keeps Objects.escrows fun hc hrun => ?_
  cases hrun with
  | escrow h => exact absurd hc (hp _)
  | _ => rfl

theorem Does.escrows_of_still (h : Does Still s s') : s'.escrows = s.escrows :=
  h.escrows_eq fun _ => id

theorem Does.escrows_of_liquid (h : Does Liquid s s') : s'.escrows = s.escrows :=
  h.escrows_eq fun _ => id

theorem applyOperation_escrows (hop : op.isEscrow = false)
    (h : s.applyOperation cr env op = .ok s') : s'.escrows = s.escrows := by
  refine (applyOperation_calls h).escrows_eq fun c hc => ?_
  have hmem : TableName.escrow ∈ op.tables := hc.1
  cases op <;> first | exact Bool.false_ne_true hop.symm | exact absurd hmem (by simp [Operation.tables])

end Objects

end Xgt
