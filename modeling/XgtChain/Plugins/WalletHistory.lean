import Mathlib.Data.List.Sort
import XgtChain.Chain.IrreversibleSignals

/-!
# The wallet history plugin

Operations that pass the filters wait as `volatile_operation_object`s in the chain's own database, so that
a block that is popped or refused takes them back.
-/

namespace Xgt

open Base List Nat

structure OperationNotification where
  trxId : TransactionId
  block : Nat
  trxInBlock : Nat
  opInTrx : Nat
  virtualOp : Nat
  op : Operation

structure VolatileOperation where
  trxId : TransactionId
  block : Nat
  trxInBlock : Nat
  opInTrx : Nat
  virtualOp : Nat
  timestamp : TimePointSec
  op : Operation
  impacted : List WalletName
  deriving DecidableEq

structure StoredOperation where
  trxId : TransactionId
  block : Nat
  trxInBlock : Nat
  opInTrx : Nat
  virtualOp : Nat
  timestamp : TimePointSec
  op : Operation
  deriving DecidableEq

def StoredOperation.ofVolatile (o : VolatileOperation) : StoredOperation where
  trxId := o.trxId
  block := o.block
  trxInBlock := o.trxInBlock
  opInTrx := o.opInTrx % 2 ^ 16
  virtualOp := o.virtualOp % 2 ^ 16
  timestamp := o.timestamp
  op := o.op

structure HistoryConfig where
  isTrackedOperation : Operation → Bool
  getImpactedAccounts : Operation → List WalletName

def HistoryConfig.onPostApplyOperation (cfg : HistoryConfig) (headBlockTime : TimePointSec)
    (n : OperationNotification) : Option VolatileOperation :=
  if !cfg.isTrackedOperation n.op then none
  else if (cfg.getImpactedAccounts n.op).isEmpty then none
  else some
    { trxId := n.trxId
      block := n.block
      trxInBlock := n.trxInBlock
      opInTrx := n.opInTrx
      virtualOp := n.virtualOp
      timestamp := headBlockTime
      op := n.op
      impacted := cfg.getImpactedAccounts n.op }

def SignedBlock.notes (cr : Crypto) (b : SignedBlock) : List OperationNotification :=
  b.transactions.zipIdx.flatMap fun t => t.1.operations.zipIdx.map fun op =>
    ⟨cr.transactionId t.1.toTransaction, b.blockNum, t.2, op.2, 0, op.1⟩

def SignedBlock.clearedNote (b : SignedBlock) (s : Objects) : Option OperationNotification :=
  match s.getAccount xgtNullWallet with
  | .ok w => if 0 < w.2.balance.amount then
      some ⟨⟨0⟩, b.blockNum, 2 ^ 32 - 1, 0, 1, .clearNullWalletBalance [w.2.balance]⟩ else none
  | .error _ => none

section Entries

variable (cfg : HistoryConfig) (P : Params) (s : Objects) (env : Env) (b : SignedBlock)

def entriesBefore : List VolatileOperation :=
  (b.notes P.toCrypto).filterMap (cfg.onPostApplyOperation s.headBlockTime)

def entriesAfter : List VolatileOperation :=
  match s.reachIrreversible P env b with
  | .ok r => (b.clearedNote r).toList.filterMap (cfg.onPostApplyOperation r.headBlockTime)
  | .error _ => []

variable {cfg P s env b} {o : VolatileOperation}

theorem block_of_onPostApplyOperation {n : OperationNotification} {time : TimePointSec}
    (h : cfg.onPostApplyOperation time n = some o) : o.block = n.block := by
  unfold HistoryConfig.onPostApplyOperation at h
  split_ifs at h
  cases h
  rfl

theorem block_of_mem_entriesBefore (h : o ∈ entriesBefore cfg P s b) : o.block = b.blockNum := by
  obtain ⟨n, hn, ho⟩ := mem_filterMap.1 h
  rw [block_of_onPostApplyOperation ho]
  obtain ⟨t, -, hn⟩ := mem_flatMap.1 hn
  obtain ⟨op, -, rfl⟩ := mem_map.1 hn
  rfl

theorem block_of_mem_entriesAfter (h : o ∈ entriesAfter cfg P s env b) : o.block = b.blockNum := by
  unfold entriesAfter at h
  split at h
  · obtain ⟨n, hn, ho⟩ := mem_filterMap.1 h
    rw [block_of_onPostApplyOperation ho]
    unfold SignedBlock.clearedNote at hn
    split at hn
    · split_ifs at hn
      · cases mem_singleton.1 hn
        rfl
      · cases hn
    · cases hn
  · cases h

end Entries

/-! ## The notices of irreversible blocks -/

def getLib : Nat := 0

def byBlock (a b : VolatileOperation) : Prop := a.block ≤ b.block

instance : DecidableRel byBlock := fun a b => inferInstanceAs (Decidable (a.block ≤ b.block))

instance : Std.Total byBlock := ⟨fun a b => le_total a.block b.block⟩

instance : IsTrans VolatileOperation byBlock := ⟨fun _ _ _ => le_trans⟩

def onIrreversibleBlock (table : List VolatileOperation) (blockNum : Nat) :
    List VolatileOperation × List StoredOperation :=
  if blockNum ≤ getLib then (table, [])
  else
    (table.filter fun o => blockNum < o.block,
      ((table.insertionSort byBlock).takeWhile fun o => o.block ≤ blockNum).map .ofVolatile)

def importDue (table : List VolatileOperation) : List Nat → List VolatileOperation × List StoredOperation
  | [] => (table, [])
  | n :: ns =>
    let r := onIrreversibleBlock table n
    let r' := importDue r.1 ns
    (r'.1, r.2 ++ r'.2)

section Import

variable {table : List VolatileOperation} {n : Nat}

theorem takeWhile_of_pairwise (h : table.Pairwise byBlock) :
    (table.takeWhile fun o => o.block ≤ n) = table.filter fun o => o.block ≤ n := by
  induction table with
  | nil => rfl
  | cons o table ih =>
    obtain ⟨hfirst, hrest⟩ := pairwise_cons.1 h
    by_cases ho : o.block ≤ n
    · rw [takeWhile_cons_of_pos (by simpa using ho), filter_cons_of_pos (by simpa using ho), ih hrest]
    · have hnone : (table.filter fun o => o.block ≤ n) = [] := by
        refine filter_eq_nil_iff.2 fun a ha hle => ho ?_
        exact (hfirst a ha).trans (of_decide_eq_true hle)
      rw [takeWhile_cons_of_neg (by simpa using ho), filter_cons_of_neg (by simpa using ho), hnone]

theorem onIrreversibleBlock_spec (hpos : ∀ o ∈ table, 0 < o.block) :
    (onIrreversibleBlock table n).1 = table.filter (fun o => !decide (o.block ≤ n)) ∧
      (onIrreversibleBlock table n).2.Perm ((table.filter fun o => o.block ≤ n).map .ofVolatile) := by
  unfold onIrreversibleBlock
  split_ifs with hn
  · have hzero : n = 0 := le_zero.1 hn
    subst hzero
    have hall : (table.filter fun o => !decide (o.block ≤ 0)) = table :=
      filter_eq_self.2 fun o ho => by simpa using (hpos o ho).ne'
    have hnone : (table.filter fun o => o.block ≤ 0) = [] :=
      filter_eq_nil_iff.2 fun o ho hle => by
        have := hpos o ho
        have := of_decide_eq_true hle
        omega
    rw [hall, hnone]
    exact ⟨rfl, .refl _⟩
  · rw [takeWhile_of_pairwise (pairwise_insertionSort byBlock table)]
    refine ⟨filter_congr fun o _ => ?_, ((perm_insertionSort byBlock table).filter _).map _⟩
    rw [← decide_not]
    exact decide_eq_decide.2 not_le.symm

theorem filter_append_filter_perm {α : Type} (p q : α → Bool) (l : List α) :
    (l.filter p ++ (l.filter fun a => !p a).filter q).Perm (l.filter fun a => p a || q a) := by
  induction l with
  | nil => exact .nil
  | cons a l ih =>
    cases hp : p a <;> cases hq : q a <;> simp only [filter_cons, hp, hq, if_true, if_false, Bool.not_true,
      Bool.not_false, Bool.or_true, Bool.or_false, Bool.false_eq_true]
    · exact ih
    · exact perm_middle.trans (ih.cons a)
    · exact ih.cons a
    · exact ih.cons a

theorem importDue_spec (ns : List Nat) (hpos : ∀ o ∈ table, 0 < o.block) :
    (importDue table ns).1 = table.filter (fun o => !ns.any fun n => o.block ≤ n) ∧
      (importDue table ns).2.Perm ((table.filter fun o => ns.any fun n => o.block ≤ n).map .ofVolatile) := by
  induction ns generalizing table with
  | nil =>
    refine ⟨(filter_eq_self.2 fun _ _ => rfl).symm, ?_⟩
    rw [show (table.filter fun o => ([] : List Nat).any fun n => o.block ≤ n) = [] from
      filter_eq_nil_iff.2 fun _ _ => Bool.false_ne_true]
    exact .nil
  | cons n ns ih =>
    obtain ⟨hstay, himport⟩ := onIrreversibleBlock_spec (n := n) hpos
    have hpos' : ∀ o ∈ (onIrreversibleBlock table n).1, 0 < o.block := fun o ho =>
      hpos o (mem_of_mem_filter (hstay ▸ ho))
    obtain ⟨hstay', himport'⟩ := ih hpos'
    rw [hstay] at hstay' himport'
    simp only [importDue, hstay]
    constructor
    · simp only [hstay', filter_filter, any_cons, Bool.not_or, Bool.and_comm]
    · refine (himport.append himport').trans ?_
      rw [← map_append]
      exact (filter_append_filter_perm _ _ table).map _

/-- The operations of the blocks up to a number. -/
def due (n : Nat) (l : List VolatileOperation) : List VolatileOperation := l.filter fun o => o.block ≤ n

/-- The operations of the blocks above a number. -/
def waiting (n : Nat) (l : List VolatileOperation) : List VolatileOperation := l.filter fun o =>
    !decide (o.block ≤ n)

variable {m : Nat} (l : List VolatileOperation)

theorem due_append : due n (table ++ l) = due n table ++ due n l := filter_append ..

theorem waiting_append : waiting n (table ++ l) = waiting n table ++ waiting n l := filter_append ..

theorem due_of_lt (h : ∀ o ∈ table, n < o.block) : due n table = [] := by simpa [due] using h

theorem waiting_of_lt (h : ∀ o ∈ table, n < o.block) : waiting n table = table := by simpa [waiting] using h

theorem waiting_waiting : waiting m (waiting n table) = waiting (max n m) table := by
  unfold waiting
  rw [filter_filter]
  refine filter_congr fun o _ => ?_
  rw [Bool.eq_iff_iff]
  simp only [Bool.and_eq_true, Bool.not_eq_true', decide_eq_false_iff_not]
  omega

theorem due_waiting_perm : (due n table ++ due m (waiting n table)).Perm (due (max n m) table) := by
  refine (filter_append_filter_perm _ _ table).trans (.of_eq (filter_congr fun o _ => ?_))
  rw [Bool.eq_iff_iff]
  simp only [Bool.or_eq_true, decide_eq_true_eq]
  omega

end Import

structure HistoryState where
  objects : Objects
  volatileOperations : List VolatileOperation
  tracked : List VolatileOperation

namespace HistoryState

variable (cfg : HistoryConfig) (P : Params) (t : HistoryState) (env : Env) (b : SignedBlock) (s : Objects)

def headBlockNum : Nat := t.objects.headBlockNum

def lib : Nat := t.objects.lib

def imports : List VolatileOperation × List StoredOperation :=
  match t.objects.reachIrreversible P env b with
  | .ok r => importDue (t.volatileOperations ++ entriesBefore cfg P t.objects b) r.noticesOfUpdate
  | .error _ => (t.volatileOperations, [])

def applied : HistoryState where
  objects := s
  volatileOperations := (t.imports cfg P env b).1 ++ entriesAfter cfg P t.objects env b
  tracked := t.tracked ++ (entriesBefore cfg P t.objects b ++ entriesAfter cfg P t.objects env b)

def replayed : HistoryState where
  objects := s
  volatileOperations := t.volatileOperations
  tracked := t.tracked ++ (entriesBefore cfg P t.objects b ++ entriesAfter cfg P t.objects env b)

def init : HistoryState := ⟨genesis P.initPublicKey, [], []⟩

end HistoryState

open HistoryState

structure WalletHistory where
  db : UndoStack HistoryState
  store : List StoredOperation

inductive HistoryEvent where
  | chain (e : ChainEvent)
  | restart
  | reindex (blocks : List (Env × SignedBlock))

namespace WalletHistory

variable (cfg : HistoryConfig) (P : Params)

def init : WalletHistory := ⟨⟨.init P, 0, []⟩, []⟩

def replayBlock (h : HistoryState × List StoredOperation) (x : Env × SignedBlock) :
    HistoryState × List StoredOperation :=
  match h.1.objects.applyBlock P x.1 x.2 with
  | .ok s => (h.1.replayed cfg P x.1 x.2 s, h.2 ++ (entriesBefore cfg P h.1.objects x.2 ++
      entriesAfter cfg P h.1.objects x.1 x.2).map .ofVolatile)
  | .error _ => h

def step (h : WalletHistory) : HistoryEvent → WalletHistory
  | .chain (.apply env b accepted) =>
    let store := h.store ++ (h.db.state.imports cfg P env b).2
    if accepted then
      match h.db.state.objects.applyBlock P env b with
      | .ok s => ⟨(h.db.start.set (h.db.state.applied cfg P env b s)).commit
          s.lib, store⟩
      | .error _ => ⟨h.db, store⟩
    else ⟨h.db, store⟩
  | .chain .pop => ⟨h.db.undo, h.store⟩
  | .restart => ⟨h.db.undoAll, h.store⟩
  | .reindex blocks =>
    let r := blocks.foldl (replayBlock cfg P) (.init P, [])
    ⟨⟨r.1, r.1.headBlockNum, []⟩, r.2⟩

/-- The store has each tracked operation of the blocks that cannot be undone, once. -/
def Exact (h : WalletHistory) : Prop := h.store.Perm (h.db.oldest.tracked.map .ofVolatile)

end WalletHistory

open WalletHistory

namespace HistoryEvent

variable (cfg : HistoryConfig) (P : Params)

/-- What the event imports is stored once: nothing, or blocks above the ones that cannot be undone. -/
def Settles (h : WalletHistory) : HistoryEvent → Prop
  | .chain (.apply env b accepted) => (h.db.state.imports cfg P env b).2 = [] ∨
      accepted = true ∧ h.db.oldest.headBlockNum < b.blockNum - xgtMaxWitnesses
  | _ => True

def InOrder (h : WalletHistory) : HistoryEvent → Prop
  | .chain e => e.IsNext P (h.db.map objects)
  | .restart => True
  | .reindex blocks => blocks.map (fun x => x.2.blockNum) = List.range' 1 blocks.length ∧
      ∃ s, blocks.foldlM (fun s x => Objects.applyBlock s P x.1 x.2) (genesis P.initPublicKey) = .ok s

end HistoryEvent

/-! ## What the table holds -/

namespace HistoryState

variable {cfg : HistoryConfig} {P : Params} {t : HistoryState} {env : Env} {b : SignedBlock} {s : Objects}
  {floor : Nat}

/-- The table has the tracked operations that no notice has imported. -/
structure Filed (floor : Nat) (t : HistoryState) : Prop where
  lib : t.lib = t.headBlockNum - xgtMaxWitnesses
  blocks : ∀ o ∈ t.tracked, 0 < o.block ∧ o.block ≤ t.headBlockNum
  waiting : t.volatileOperations = waiting (max t.lib floor) t.tracked

theorem Filed.due_eq (h : t.Filed floor) : due t.headBlockNum t.tracked = t.tracked :=
  filter_eq_self.2 fun o ho => decide_eq_true (h.blocks o ho).2

structure Extends (old new : HistoryState) : Prop where
  num : new.headBlockNum = old.headBlockNum + 1
  tracked : ∃ entries, new.tracked = old.tracked ++ entries ∧ ∀ o ∈ entries, o.block = new.headBlockNum

structure Next (P : Params) (t : HistoryState) (env : Env) (b : SignedBlock) (s : Objects) : Prop where
  num : b.blockNum = t.headBlockNum + 1
  ok : t.objects.applyBlock P env b = .ok s

section

variable (h : Next P t env b s)
include h

theorem Next.headBlockNum : s.headBlockNum = t.headBlockNum + 1 :=
  (congrArg Prod.fst (Objects.applyBlock_tip h.ok)).trans h.num

theorem Next.block_of_mem {o : VolatileOperation}
    (ho : o ∈ entriesBefore cfg P t.objects b ++ entriesAfter cfg P t.objects env b) :
    o.block = t.headBlockNum + 1 :=
  ((mem_append.1 ho).elim block_of_mem_entriesBefore block_of_mem_entriesAfter).trans h.num

theorem Next.blocks
    (hold : ∀ o ∈ t.tracked, 0 < o.block ∧ o.block ≤ t.headBlockNum) (o : VolatileOperation)
    (ho : o ∈ (t.applied cfg P env b s).tracked) : 0 < o.block ∧ o.block ≤ s.headBlockNum := by
  have hnum := h.headBlockNum
  rcases mem_append.1 ho with ho | ho
  · have := hold o ho
    omega
  · have := h.block_of_mem ho
    omega

theorem Next.lib (ht : t.Filed floor) : s.lib = t.headBlockNum + 1 - xgtMaxWitnesses := by
  have htip := congrArg (fun t => t.2.2) (Objects.applyBlock_tip h.ok)
  have hlib : t.objects.lib = t.headBlockNum - xgtMaxWitnesses := ht.lib
  dsimp only [Objects.tip] at htip
  rw [htip, h.num]
  split_ifs <;> omega

end

theorem Next.extends (cfg : HistoryConfig) (h : Next P t env b s) : Extends t (t.applied cfg P env b s) where
  num := h.headBlockNum
  tracked := ⟨_, rfl, fun _ ho => (h.block_of_mem ho).trans h.headBlockNum.symm⟩

theorem Next.imports (cfg : HistoryConfig) (h : Next P t env b s) (ht : t.Filed floor) :
    (t.imports cfg P env b).1 = waiting s.lib
        (t.volatileOperations ++ entriesBefore cfg P t.objects b) ∧
      (t.imports cfg P env b).2.Perm ((due s.lib t.volatileOperations).map .ofVolatile) := by
  have hlib := h.lib ht
  have hold : t.objects.lib = t.headBlockNum - xgtMaxWitnesses := ht.lib
  obtain ⟨r, hr, hnew⟩ := Objects.applyBlock_reach h.ok
  have hpos : ∀ o ∈ t.volatileOperations ++ entriesBefore cfg P t.objects b, 0 < o.block := by
    intro o ho
    rcases mem_append.1 ho with ho | ho
    · rw [ht.waiting] at ho
      exact (ht.blocks o (mem_of_mem_filter ho)).1
    · rw [block_of_mem_entriesBefore ho, h.num]
      exact succ_pos _
  have hreach : ∀ o : VolatileOperation, (r.noticesOfUpdate.any fun n => o.block ≤ n) =
      decide (o.block ≤ s.lib) := by
    intro o
    rw [Objects.noticesOfUpdate, ← hnew, Objects.reachIrreversible_lastIrreversible hr, Bool.eq_iff_iff]
    simp only [any_eq_true, mem_range'_1, decide_eq_true_eq]
    constructor
    · rintro ⟨n, hn, hle⟩
      omega
    · intro hle
      exact ⟨s.lib, by omega, hle⟩
  obtain ⟨hstay, himport⟩ := importDue_spec r.noticesOfUpdate hpos
  simp only [hreach] at hstay himport
  have hnone : due s.lib (entriesBefore cfg P t.objects b) = [] := due_of_lt fun o ho => by
    have hten : xgtMaxWitnesses = 10 := rfl
    rw [block_of_mem_entriesBefore ho, h.num]
    omega
  rw [← due, due_append, hnone, append_nil] at himport
  unfold HistoryState.imports
  rw [hr]
  exact ⟨hstay, himport⟩

theorem Next.filed (h : Next P t env b s) (ht : t.Filed floor) (hfloor : floor ≤ t.headBlockNum) :
    (t.applied cfg P env b s).Filed floor := by
  have hlib := h.lib ht
  have hnum : s.headBlockNum = t.headBlockNum + 1 := h.headBlockNum
  have hten : xgtMaxWitnesses = 10 := rfl
  refine ⟨?_, h.blocks ht.blocks, ?_⟩
  · change s.lib = s.headBlockNum - _
    rw [hlib, hnum]
  · have hlow : max t.lib floor ≤ max s.lib floor := by
      have hold : t.lib = t.headBlockNum - xgtMaxWitnesses := ht.lib
      omega
    have hhigh : max s.lib floor < t.headBlockNum + 1 := by omega
    have hnew (l : List VolatileOperation) (hl : ∀ o ∈ l, o.block = t.headBlockNum + 1) (m : Nat)
        (hm : m < t.headBlockNum + 1) : waiting m l = l := waiting_of_lt fun o ho => hl o ho ▸ hm
    change (t.imports cfg P env b).1 ++ entriesAfter cfg P t.objects env b =
      waiting (max s.lib floor) (t.tracked ++ (_ ++ _))
    rw [(h.imports cfg ht).1, waiting_append, waiting_append,
      hnew _ (fun _ => h.block_of_mem) _ hhigh,
      hnew _ (fun _ ho => h.block_of_mem (mem_append_left _ ho)) _ (by omega),
      append_assoc, ht.waiting, waiting_waiting]
    congr 2
    omega

end HistoryState

/-! ## The sessions -/

/-- Sessions above block `c`, with the operations up to block `floor` imported by a reindex. -/
structure Tidy (c floor : Nat) (u : UndoStack HistoryState) : Prop where
  tracks : u.Tracks headBlockNum HistoryState.Extends
  spans : u.Spans c
  floor_le : floor ≤ c
  filed : ∀ t ∈ u.states, t.Filed floor
  lib_le : ∀ t ∈ u.states, t.lib ≤ c

namespace Tidy

variable {cfg : HistoryConfig} {P : Params} {u : UndoStack HistoryState} {c floor : Nat} {env : Env}
  {b : SignedBlock} {s : Objects}

theorem up (old new : HistoryState) (h : old.Extends new) : new.headBlockNum = old.headBlockNum + 1 := h.num

section

variable (h : Tidy c floor u)
include h

theorem le : c ≤ u.state.headBlockNum := h.tracks.revision ▸ h.spans.le

theorem head_oldest : u.oldest.headBlockNum = c := h.tracks.level_oldest h.spans

theorem tracked_of_mem {t : HistoryState} (ht : t ∈ u.states) :
    t.tracked = due t.headBlockNum u.state.tracked := by
  suffices hlist : ∀ (l : List HistoryState) (s : HistoryState),
      (s :: l).IsChain (fun new old => HistoryState.Extends old new) → (∀ t ∈ s :: l, t.Filed floor) →
      ∀ t ∈ s :: l, t.headBlockNum ≤ s.headBlockNum ∧
        t.tracked = due t.headBlockNum s.tracked from
    (hlist _ _ h.tracks.chain h.filed t ht).2
  intro l
  induction l with
  | nil =>
    intro s _ hfiled t ht
    rw [mem_singleton.1 ht]
    exact ⟨le_refl _, (hfiled s (.head _)).due_eq.symm⟩
  | cons s' l ih =>
    intro s hchain hfiled t ht
    obtain ⟨hextends, hchain'⟩ := isChain_cons_cons.1 hchain
    rcases mem_cons.1 ht with rfl | ht
    · exact ⟨le_refl _, (hfiled t (.head _)).due_eq.symm⟩
    · obtain ⟨hle, htracked⟩ := ih s' hchain' (fun t ht => hfiled t (.tail _ ht)) t ht
      obtain ⟨hnum, entries, hentries, hblock⟩ := hextends
      refine ⟨by omega, ?_⟩
      have hnone : due t.headBlockNum entries = [] := due_of_lt fun o ho => by
        rw [hblock o ho]
        omega
      rw [hentries, due_append, hnone, append_nil, htracked]

theorem tracked_oldest : u.oldest.tracked = due c u.state.tracked := by
  rw [← h.head_oldest]
  exact h.tracked_of_mem (mem_of_getElem? u.getElem?_states_length)

theorem undo : Tidy c floor u.undo where
  tracks := h.tracks.undo up
  spans := h.spans.undo
  floor_le := h.floor_le
  filed t ht := h.filed t (u.undo_states_suffix.mem ht)
  lib_le t ht := h.lib_le t (u.undo_states_suffix.mem ht)

theorem undoAll : Tidy c floor u.undoAll := by
  have hmem := mem_of_getElem? u.getElem?_states_length
  rw [h.spans.undoAll]
  refine ⟨?_, ⟨le_refl c, by simp⟩, h.floor_le, fun t ht => ?_, fun t ht => ?_⟩
  · have htracks : UndoStack.Tracks headBlockNum HistoryState.Extends
        ⟨u.oldest, u.oldest.headBlockNum, []⟩ := .init u.oldest
    rw [h.head_oldest] at htracks
    exact htracks
  · exact h.filed t (mem_singleton.1 ht ▸ hmem)
  · exact h.lib_le t (mem_singleton.1 ht ▸ hmem)

theorem apply (hnext : u.state.Next P env b s) :
    Tidy (max c s.lib) floor
      ((u.start.set (u.state.applied cfg P env b s)).commit s.lib) := by
  have hfiled := h.filed u.state (.head _)
  have hlib := hnext.lib hfiled
  have hrevision := h.tracks.revision
  have hten : xgtMaxWitnesses = 10 := rfl
  have htracks := h.tracks.start_set up (hnext.extends cfg)
  have hspans : (u.start.set (u.state.applied cfg P env b s)).Spans c :=
    ⟨h.spans.start.le, h.spans.start.revisions⟩
  have hmem : ∀ t ∈ ((u.start.set (u.state.applied cfg P env b s)).commit
      s.lib).states, t = u.state.applied cfg P env b s ∨ t ∈ u.states :=
    fun t ht => mem_cons.1 ((UndoStack.commit_states_prefix ..).mem ht)
  refine ⟨htracks.commit _, hspans.commit ?_, h.floor_le.trans (le_max_left ..), fun t ht => ?_, fun t ht => ?_⟩
  · change s.lib ≤ u.revision + 1
    omega
  · rcases hmem t ht with rfl | ht
    · exact hnext.filed hfiled (h.floor_le.trans h.le)
    · exact h.filed t ht
  · rcases hmem t ht with rfl | ht
    · exact le_max_right ..
    · exact (h.lib_le t ht).trans (le_max_left ..)

end

theorem imports (cfg : HistoryConfig) (h : Tidy c floor u) (hnext : u.state.Next P env b s) :
    (u.state.imports cfg P env b).2.Perm ((due s.lib
      (waiting (max u.state.lib floor) u.state.tracked)).map .ofVolatile) := by
  have hfiled := h.filed u.state (.head _)
  exact hfiled.waiting ▸ (hnext.imports cfg hfiled).2

theorem tracked_oldest_apply (h : Tidy c floor u) (hnext : u.state.Next P env b s) :
    ((u.start.set (u.state.applied cfg P env b s)).commit s.lib).oldest.tracked =
      due (max c s.lib) u.state.tracked := by
  have hfiled := h.filed u.state (.head _)
  have hlib := hnext.lib hfiled
  have hle := h.le
  have hten : xgtMaxWitnesses = 10 := rfl
  rw [(h.apply hnext).tracked_oldest]
  obtain ⟨-, entries, hentries, hblock⟩ := hnext.extends cfg
  have hnum : (u.state.applied cfg P env b s).headBlockNum = u.state.headBlockNum + 1 := hnext.headBlockNum
  change due _ (u.state.applied cfg P env b s).tracked = _
  rw [hentries, due_append, append_right_eq_self]
  refine due_of_lt fun o ho => ?_
  rw [hblock o ho]
  omega

end Tidy

structure Replaying (t : HistoryState) (store : List StoredOperation) : Prop where
  lib : t.lib = t.headBlockNum - xgtMaxWitnesses
  blocks : ∀ o ∈ t.tracked, 0 < o.block ∧ o.block ≤ t.headBlockNum
  empty : t.volatileOperations = []
  store : store = t.tracked.map .ofVolatile

namespace Replaying

variable {cfg : HistoryConfig} {P : Params} {t : HistoryState} {store : List StoredOperation} {s : Objects}

theorem init (P : Params) : Replaying (.init P) [] :=
  ⟨rfl, nofun, rfl, rfl⟩

theorem filed (h : Replaying t store) : t.Filed t.headBlockNum := by
  refine ⟨h.lib, h.blocks, h.empty.trans (filter_eq_nil_iff.2 fun o ho hhigh => ?_).symm⟩
  have hle := (h.blocks o ho).2
  rw [Bool.not_eq_true', decide_eq_false_iff_not] at hhigh
  omega

theorem block {env : Env} {b : SignedBlock} (h : Replaying t store) (hnext : t.Next P env b s) :
    Replaying (t.replayed cfg P env b s) (store ++ (entriesBefore cfg P t.objects b ++
      entriesAfter cfg P t.objects env b).map .ofVolatile) := by
  have hnum : s.headBlockNum = t.headBlockNum + 1 := hnext.headBlockNum
  refine ⟨?_, hnext.blocks h.blocks, h.empty, ?_⟩
  · change s.lib = s.headBlockNum - _
    rw [hnext.lib h.filed, hnum]
  · rw [h.store, ← map_append]
    rfl

theorem foldl (cfg : HistoryConfig) {blocks : List (Env × SignedBlock)} (h : Replaying t store)
    (hnums : blocks.map (fun x => x.2.blockNum) = List.range' (t.headBlockNum + 1) blocks.length)
    (hok : blocks.foldlM (fun s x => Objects.applyBlock s P x.1 x.2) t.objects = .ok s) :
    Replaying (blocks.foldl (replayBlock cfg P) (t, store)).1
        (blocks.foldl (replayBlock cfg P) (t, store)).2 ∧
      (blocks.foldl (replayBlock cfg P) (t, store)).1.objects = s := by
  induction blocks generalizing t store with
  | nil =>
    cases hok
    exact ⟨h, rfl⟩
  | cons x blocks ih =>
    obtain ⟨s1, hs1, hrest⟩ := foldlM_cons_ok_iff.1 hok
    rw [map_cons, length_cons, range'_succ] at hnums
    obtain ⟨hnum, hnums'⟩ := List.cons.inj hnums
    have hnext : t.Next P x.1 x.2 s1 := ⟨hnum, hs1⟩
    rw [foldl_cons, replayBlock, hs1]
    refine ih (h.block hnext) ?_ hrest
    rw [hnums']
    exact congrArg (fun k => List.range' (k + 1) blocks.length) hnext.headBlockNum.symm

theorem tidy (h : Replaying t store) : Tidy t.headBlockNum t.headBlockNum ⟨t, t.headBlockNum, []⟩ := by
  refine ⟨.init t, ⟨le_refl _, by simp⟩, le_refl _, fun t' ht' => ?_, fun t' ht' => ?_⟩
  · exact mem_singleton.1 ht' ▸ h.filed
  · rw [mem_singleton.1 ht', h.lib]
    exact sub_le ..

end Replaying

/-! ## Steps -/

namespace WalletHistory

variable {cfg : HistoryConfig} {P : Params} {h : WalletHistory} {c floor : Nat}

def Sound (h : WalletHistory) : Prop := (∃ c floor, Tidy c floor h.db) ∧ h.Exact

theorem Sound.init (P : Params) : (init P).Sound := by
  have hreplaying : Replaying (.init P) [] := .init P
  exact ⟨⟨0, 0, hreplaying.tidy⟩, .nil⟩

theorem eq_nil_of_append_perm {store more : List StoredOperation} {tracked : List VolatileOperation}
    (hstore : store.Perm (tracked.map .ofVolatile)) (hmore : (store ++ more).Perm (tracked.map .ofVolatile)) :
    more = [] := by
  have hlength := hmore.length_eq
  rw [length_append, hstore.length_eq] at hlength
  exact length_eq_zero_iff.1 (add_eq_left.1 hlength)

theorem step_refused (hexact : h.Exact) (env : Env) (b : SignedBlock) :
    (h.step cfg P (.chain (.apply env b false))).Exact ↔ (h.db.state.imports cfg P env b).2 = [] := by
  constructor
  · exact eq_nil_of_append_perm hexact
  · intro hnil
    have hstep : h.step cfg P (.chain (.apply env b false)) = ⟨h.db, h.store ++ []⟩ := by rw [← hnil]; rfl
    rw [hstep, append_nil]
    exact hexact

theorem step_accepted (cfg : HistoryConfig) {env : Env} {b : SignedBlock} {s : Objects} (ht : Tidy c floor h.db)
    (hexact : h.Exact) (hnext : h.db.state.Next P env b s) :
    (∃ c' floor', Tidy c' floor' (h.step cfg P (.chain (.apply env b true))).db) ∧
      ((h.step cfg P (.chain (.apply env b true))).Exact ↔
        (h.db.state.imports cfg P env b).2 = [] ∨ c < b.blockNum - xgtMaxWitnesses) := by
  have hstep : h.step cfg P (.chain (.apply env b true)) =
      ⟨(h.db.start.set (h.db.state.applied cfg P env b s)).commit s.lib,
        h.store ++ (h.db.state.imports cfg P env b).2⟩ := by
    simp only [step, if_true, hnext.ok]
  have hfiled := ht.filed h.db.state (.head _)
  have hlib := hnext.lib hfiled
  rw [← hnext.num] at hlib
  have hold : h.db.state.lib = h.db.state.headBlockNum - xgtMaxWitnesses := hfiled.lib
  have hstore : h.store.Perm ((due c h.db.state.tracked).map .ofVolatile) :=
    ht.tracked_oldest ▸ hexact
  have himports := ht.imports cfg hnext
  rw [hstep]
  refine ⟨⟨_, _, ht.apply hnext⟩, ?_⟩
  unfold Exact
  rw [ht.tracked_oldest_apply hnext, ← hlib]
  by_cases hc : c < s.lib
  · refine iff_of_true ?_ (.inr hc)
    -- the last irreversible block moved on by one, from a block that could not be undone
    have hmax : max h.db.state.lib floor = c := by
      have hle := ht.lib_le h.db.state (.head _)
      have hfloor := ht.floor_le
      have hnum := hnext.num
      omega
    rw [hmax] at himports
    refine (hstore.append himports).trans ?_
    rw [← map_append]
    exact due_waiting_perm.map _
  · rw [max_eq_left (not_lt.1 hc), or_iff_left hc]
    constructor
    · exact eq_nil_of_append_perm hstore
    · intro hnil
      rw [hnil, append_nil]
      exact hstore

theorem step_exact_iff (cfg : HistoryConfig) {e : HistoryEvent} (hsound : h.Sound) (horder : e.InOrder P h) :
    (∃ c floor, Tidy c floor (h.step cfg P e).db) ∧ ((h.step cfg P e).Exact ↔ e.Settles cfg P h) := by
  obtain ⟨⟨c, floor, ht⟩, hexact⟩ := hsound
  cases e with
  | chain e =>
    cases e with
    | apply env b accepted =>
      cases accepted with
      | false =>
        refine ⟨⟨c, floor, ht⟩, (step_refused hexact env b).trans ?_⟩
        exact (or_iff_left fun hfalse => Bool.false_ne_true hfalse.1).symm
      | true =>
        obtain ⟨hnum, s, hs⟩ := horder rfl
        obtain ⟨htidy, hiff⟩ := step_accepted cfg ht hexact ⟨hnum, hs⟩
        refine ⟨htidy, hiff.trans ?_⟩
        simp only [HistoryEvent.Settles, ht.head_oldest, true_and]
    | pop =>
      refine ⟨⟨c, floor, ht.undo⟩, iff_of_true ?_ trivial⟩
      unfold Exact
      rw [show (h.step cfg P (.chain .pop)).db.oldest = h.db.oldest from h.db.oldest_undo]
      exact hexact
  | restart => exact ⟨⟨c, floor, ht.undoAll⟩, iff_of_true hexact trivial⟩
  | reindex blocks =>
    obtain ⟨hnums, s, hs⟩ := horder
    have hinit : Replaying (.init P) [] := .init P
    obtain ⟨hreplaying, -⟩ := hinit.foldl cfg hnums hs
    refine ⟨⟨_, _, hreplaying.tidy⟩, iff_of_true ?_ trivial⟩
    unfold Exact
    exact .of_eq hreplaying.store

end WalletHistory

end Xgt
