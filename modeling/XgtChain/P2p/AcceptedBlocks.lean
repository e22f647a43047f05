import XgtChain.P2p.NetNode

/-!
# The ids of accepted blocks

`_most_recent_blocks_accepted` is there to tell a block that the client accepted from one that it has not
seen.
-/

namespace Xgt.NetNode

open Base List

variable {P : Params} {cfg : NetConfig} {capacity : Nat} {α : Type} (n : NetNode P) (id : BlockId)

theorem mem_pushBack {buffer : List α} {x y : α}
    (h : y ∈ pushBack capacity buffer x) : y ∈ buffer ∨ y = x := by
  have := mem_of_mem_drop h
  simpa using this

theorem self_mem_pushBack (buffer : List α) (x : α) (h : 0 < capacity) : x ∈ pushBack capacity buffer x := by
  unfold pushBack
  rw [drop_append_of_le_length (by omega)]
  exact mem_append_right _ (mem_singleton_self x)

/-! ## What a step does to the record of accepted blocks -/

/-- The id of the first block or of one accepted since. -/
def AcceptedId : Prop :=
  n.start = some id ∨ ∃ b ∈ n.accepted, P.blockId b.toSignedBlockHeader = id

instance (n : NetNode P) : DecidablePred n.AcceptedId := fun id =>
  inferInstanceAs (Decidable (n.start = some id ∨ ∃ b ∈ n.accepted, P.blockId b.toSignedBlockHeader = id))

/-- The recent ids are of accepted blocks. -/
def AcceptedIds : Prop := ∀ id ∈ n.mostRecentBlocksAccepted, n.AcceptedId id

def taken : NetEvent P → Option BlockMessage
  | .handleSyncBlock now budget _ =>
    match n.backlog with
    | .sending _ m => if (n.client.handleBlock now budget m.block true).2.isOk then some m else none
    | _ => none
  | .handleBlock call now budget _ =>
    (n.delivering[call]?).bind fun (_, m) =>
      if (n.client.handleBlock now budget m.block false).2.isOk then some m else none
  | .produceBlock skip budget b =>
    if (n.client.node.pushBlock skip budget b).2.isOk then some (.ofBlock P b) else none
  | _ => none

inductive Recorded (n n' : NetNode P) : Option BlockMessage → Prop where
  | same (recent : n'.mostRecentBlocksAccepted = n.mostRecentBlocksAccepted)
      (accepted : n'.accepted = n.accepted) (start : n'.start = n.start) : Recorded n n' none
  | cleared (id : BlockId) (recent : n'.mostRecentBlocksAccepted = [id]) (start : n'.start = some id) :
      Recorded n n' none
  | again (id : BlockId) (known : id ∈ n.mostRecentBlocksAccepted)
      (recent : ∀ id' ∈ n'.mostRecentBlocksAccepted, id' ∈ n.mostRecentBlocksAccepted ∨ id' = id)
      (accepted : n'.accepted = n.accepted) (start : n'.start = n.start) : Recorded n n' none
  | took (m : BlockMessage)
      (recent : ∀ id ∈ n'.mostRecentBlocksAccepted, id ∈ n.mostRecentBlocksAccepted ∨ id = m.blockId)
      (claimed : m.blockId ∈ n'.mostRecentBlocksAccepted)
      (accepted : n'.accepted = m.block :: n.accepted) (start : n'.start = n.start) :
      Recorded n n' (some m)

theorem Recorded.refl : n.Recorded n none := .same rfl rfl rfl

theorem mem_pushAccepted {n : NetNode P} {id id' : BlockId}
    (h : id' ∈ (n.pushAccepted id).mostRecentBlocksAccepted) :
    id' ∈ n.mostRecentBlocksAccepted ∨ id' = id := mem_pushBack h

theorem self_mem_pushAccepted :
    id ∈ (n.pushAccepted id).mostRecentBlocksAccepted := self_mem_pushBack _ _ (by decide +kernel)

theorem Recorded.push {n n' : NetNode P} (m : BlockMessage)
    (recent : n'.mostRecentBlocksAccepted = (n.pushAccepted m.blockId).mostRecentBlocksAccepted)
    (accepted : n'.accepted = m.block :: n.accepted) (start : n'.start = n.start) :
    n.Recorded n' (some m) := by
  refine .took m (fun id hid => ?_) ?_ accepted start
  · rw [recent] at hid
    exact mem_pushAccepted hid
  · rw [recent]
    exact self_mem_pushAccepted n m.blockId

variable (peer : Nat)

theorem onItemIdsInventory_recorded (hashes : List MessageHash) :
    n.Recorded (onItemIdsInventory peer hashes n) none := by
  have hone : ∀ {n n' : NetNode P} {h : MessageHash}, n.onItemIdInventory peer h = some n' →
      n'.mostRecentBlocksAccepted = n.mostRecentBlocksAccepted ∧ n'.accepted = n.accepted ∧
        n'.start = n.start := by
    intro n n' h hn'
    unfold onItemIdInventory at hn'
    split_ifs at hn' <;> cases hn' <;> exact ⟨rfl, rfl, rfl⟩
  suffices hall : (onItemIdsInventory peer hashes n).mostRecentBlocksAccepted = n.mostRecentBlocksAccepted ∧
      (onItemIdsInventory peer hashes n).accepted = n.accepted ∧
      (onItemIdsInventory peer hashes n).start = n.start from .same hall.1 hall.2.1 hall.2.2
  induction hashes generalizing n with
  | nil => exact ⟨rfl, rfl, rfl⟩
  | cons h hashes ih =>
    unfold onItemIdsInventory
    split
    · rename_i n' hn'
      obtain ⟨hrecent, haccepted, hstart⟩ := hone hn'
      rw [← hrecent, ← haccepted, ← hstart]
      exact ih n'
    · exact ⟨rfl, rfl, rfl⟩

theorem processBlockMessage_recorded (m : BlockMessage) (synopsis : Option (List BlockId)) :
    n.Recorded (n.processBlockMessage cfg peer m synopsis) none := by
  unfold processBlockMessage
  split
  · exact .refl n
  · split_ifs
    · unfold processBlockDuringNormalOperation
      split_ifs with hknown
      · exact .again m.blockId hknown (fun _ => mem_pushBack) rfl rfl
      · exact .same rfl rfl rfl
    all_goals exact .same rfl rfl rfl

theorem processBacklogOfSyncBlocks_recorded : n.Recorded (n.processBacklogOfSyncBlocks cfg) none := by
  unfold processBacklogOfSyncBlocks
  split
  · exact .same rfl rfl rfl
  · split
    · exact .same rfl rfl rfl
    · dsimp only
      split_ifs <;> exact .same rfl rfl rfl
  · exact .refl n

theorem handleSyncBlock_recorded (now : TimePointSec) (budget : Nat)
    (synopsis : Nat → Option (List BlockId)) :
    n.Recorded (n.step cfg (.handleSyncBlock now budget synopsis))
      (n.taken (.handleSyncBlock now budget synopsis)) := by
  cases hbacklog : n.backlog with
  | done | scheduled | running =>
    simp only [step, taken, hbacklog]
    exact .refl n
  | sending blocksProcessed m =>
    simp only [step, taken, hbacklog, sendSyncBlockToNodeDelegate, handleBlock]
    rcases n.client.handleBlock now budget m.block true with ⟨client, e | r⟩
    · exact .same rfl rfl rfl
    · exact .push m rfl rfl rfl

theorem handleBlock_recorded (call : Nat) (now : TimePointSec) (budget : Nat)
    (synopsis : Option (List BlockId)) :
    n.Recorded (n.step cfg (.handleBlock call now budget synopsis))
      (n.taken (.handleBlock call now budget synopsis)) := by
  rcases hcall : n.delivering[call]? with _ | ⟨peer, m⟩
  · simp only [step, taken, hcall]
    exact .refl n
  · simp only [step, taken, hcall, Option.bind_some, deliver, handleBlock]
    rcases n.client.handleBlock now budget m.block false with ⟨client, e | r⟩
    · dsimp only
      split_ifs <;> first | contradiction | exact .same rfl rfl rfl
    · -- the id is remembered when the client returns, and once more for the broadcast
      refine .took m (fun id hid => ?_) (self_mem_pushAccepted _ _) rfl rfl
      rcases mem_pushAccepted hid with hid | rfl
      · exact mem_pushAccepted hid
      · exact .inr rfl

theorem produceBlock_recorded (skip : SkipFlags) (budget : Nat) (b : SignedBlock) :
    n.Recorded (n.produceBlock cfg skip budget b) (n.taken (.produceBlock skip budget b)) := by
  simp only [produceBlock, taken]
  rcases n.client.node.pushBlock skip budget b with ⟨node, _ | _⟩
  · exact .same rfl rfl rfl
  · exact .push (.ofBlock P b) rfl rfl rfl

theorem step_recorded (e : NetEvent P) : n.Recorded (n.step cfg e) (n.taken e) := by
  cases e with
  | syncFrom currentHeadBlock => exact .cleared currentHeadBlock rfl rfl
  | itemIdsInventory peer hashes => exact n.onItemIdsInventory_recorded peer hashes
  | block peer m synopsis => exact n.processBlockMessage_recorded peer m synopsis
  | backlog => exact n.processBacklogOfSyncBlocks_recorded
  | handleSyncBlock now budget synopsis => exact n.handleSyncBlock_recorded now budget synopsis
  | handleBlock call now budget synopsis => exact n.handleBlock_recorded call now budget synopsis
  | produceBlock skip budget b => exact n.produceBlock_recorded skip budget b
  | connect peer =>
    simp only [step, taken]
    split_ifs <;> exact .same rfl rfl rfl
  | close peer =>
    simp only [step, taken, onConnectionClosed]
    split <;> exact .same rfl rfl rfl
  | itemNotAvailable peer h =>
    simp only [step, taken, onItemNotAvailable]
    split_ifs <;> exact .same rfl rfl rfl
  | fetchItem peer h =>
    simp only [step, taken, NetNode.fetchItem]
    split
    · exact .refl n
    · split_ifs <;> exact .same rfl rfl rfl
  | fetchSyncItem peer id =>
    simp only [step, taken, NetNode.fetchSyncItem]
    split
    · exact .refl n
    · split_ifs <;> exact .same rfl rfl rfl
  | _ => exact .same rfl rfl rfl

/-- A block is taken under its own id or an accepted one. -/
def Vouched (event : NetNode P × NetEvent P) : Prop :=
  ∀ m, event.1.taken event.2 = some m →
    P.blockId m.block.toSignedBlockHeader = m.blockId ∨ event.1.AcceptedId m.blockId

variable {n} {n' : NetNode P} {e : NetEvent P}

theorem Recorded.acceptedIds (h : n.Recorded n' (n.taken e)) (hn : n.AcceptedIds) :
    n'.AcceptedIds ↔ Vouched (n, e) := by
  unfold Vouched
  dsimp only
  -- an id that was in order still is
  have hkept (taken : List SignedBlock) {id : BlockId} (haccepted : n'.accepted = taken ++ n.accepted)
      (hstart : n'.start = n.start) (hid : n.AcceptedId id) : n'.AcceptedId id := by
    unfold AcceptedId
    rw [haccepted, hstart]
    exact hid.imp_right fun ⟨b, hb, heq⟩ => ⟨b, mem_append_right _ hb, heq⟩
  generalize n.taken e = message at h
  cases h with
  | same recent accepted start =>
    refine iff_of_true (fun id hid => ?_) nofun
    rw [recent] at hid
    exact hkept [] accepted start (hn id hid)
  | cleared id recent start =>
    refine iff_of_true (fun id' hid => ?_) nofun
    rw [recent, mem_singleton] at hid
    exact .inl (hid ▸ start)
  | again id known recent accepted start =>
    refine iff_of_true (fun id' hid => ?_) nofun
    rcases recent id' hid with hid | rfl
    · exact hkept [] accepted start (hn id' hid)
    · exact hkept [] accepted start (hn id' known)
  | took m recent claimed accepted start =>
    constructor
    · rintro hn' _ ⟨⟩
      rcases hn' m.blockId claimed with hid | ⟨b, hb, hid⟩
      · exact .inr (.inl (start ▸ hid))
      · rw [accepted] at hb
        rcases mem_cons.1 hb with rfl | hb
        · exact .inl hid
        · exact .inr (.inr ⟨b, hb, hid⟩)
    · intro hvouched id hid
      rcases recent id hid with hid | rfl
      · exact hkept [m.block] accepted start (hn id hid)
      · rcases hvouched m rfl with hown | hid
        · exact .inr ⟨m.block, accepted ▸ mem_cons_self, hown⟩
        · exact hkept [m.block] accepted start hid

def skipped (cfg : NetConfig) (n : NetNode P) : NetEvent P → Option BlockMessage
  | .block peer m _ =>
    (n.peer? peer).bind fun c =>
      if m.blockId ∈ n.mostRecentBlocksAccepted ∧ (cfg.messageHash m ∈ c.itemsRequestedFromPeer ∨
        m.blockId ∉ c.syncItemsRequestedFromPeer) then some m else none
  | .backlog =>
    match n.backlog with
    | .running _ => n.nextSyncItem.filter fun m => m.blockId ∈ n.mostRecentBlocksAccepted
    | _ => none
  | _ => none

theorem skipped_mem {m : BlockMessage} (h : n.skipped cfg e = some m) :
    m.blockId ∈ n.mostRecentBlocksAccepted := by
  cases e with
  | block peer message synopsis =>
    obtain ⟨c, -, hc⟩ := Option.bind_eq_some_iff.1 h
    split_ifs at hc with hskipped
    cases hc
    exact hskipped.1
  | backlog =>
    simp only [skipped] at h
    split at h
    · exact of_decide_eq_true (Option.filter_eq_some_iff.1 h).2
    · cases h
  | _ => cases h

theorem accepted_ids_iff {n0 : NetNode P} {events : List (NetNode P × NetEvent P)}
    (hrun : NetRun cfg n0 events n) (h0 : n0.AcceptedIds) :
    (((∀ event ∈ events, event.1.AcceptedIds) ∧ n.AcceptedIds) ↔ ∀ event ∈ events, Vouched event) ∧
    ((∀ event ∈ events, Vouched event) → ∀ event ∈ events, ∀ m, event.1.skipped cfg event.2 = some m →
      P.blockId m.block.toSignedBlockHeader = m.blockId →
      event.1.AcceptedId (P.blockId m.block.toSignedBlockHeader)) := by
  have hiff : ((∀ event ∈ events, event.1.AcceptedIds) ∧ n.AcceptedIds) ↔
      ∀ event ∈ events, Vouched event := by
    refine Run.invariant_iff hrun h0 id fun {s s' e} hs hstep => ?_
    subst hstep
    have hrecorded : s.Recorded (s.step cfg e) (s.taken e) := s.step_recorded e
    have hkept := hrecorded.acceptedIds hs
    exact ⟨hkept.2, hkept.1⟩
  refine ⟨hiff, fun hvouched event hevent m hskipped hown => ?_⟩
  rw [hown]
  exact (hiff.2 hvouched).1 event hevent m.blockId (skipped_mem hskipped)

def toyNet : NetConfig where
  messageHash m := ⟨m.blockId.hash * 2 ^ 40 + m.block.timestamp⟩

def idleNet : NetNode toyParams := { client := { node := .init toyParams } }

def joins (synopsis : List BlockId) : List (NetEvent toyParams) :=
  [.connect peer, .activate peer (some synopsis), .blockchainItemIdsInventory peer synopsis 0 none]

def offers (m : BlockMessage) : List (NetEvent toyParams) :=
  [.itemIdsInventory peer [toyNet.messageHash m], .fetchItem peer (toyNet.messageHash m),
    .block peer m none, .handleBlock 0 m.block.timestamp 0 none]

def netBlock : SignedBlock := toyBlock .zero 3

def nextNetBlock : SignedBlock :=
  toyBlock (toyId netBlock) 6

theorem accepted_ids_honest :
    ∃ events n, NetRun toyNet idleNet events n ∧ n.accepted = [nextNetBlock, netBlock] ∧
      ((∀ event ∈ events, event.1.AcceptedIds) ∧ n.AcceptedIds) := by
  let es := joins 1 [] ++ offers 1 (.ofBlock toyParams netBlock) ++
    offers 1 (.ofBlock toyParams nextNetBlock)
  have hrun := Run.of_foldl (f := step toyNet) idleNet es
  refine ⟨_, _, hrun, by decide +kernel, (accepted_ids_iff hrun nofun).1.2 ?_⟩
  have hown : ∀ event ∈ Run.states (step toyNet) idleNet es, ∀ m ∈ event.1.taken event.2,
      toyParams.blockId m.block.toSignedBlockHeader = m.blockId := by
    decide +kernel
  exact fun event hevent m hm => .inl (hown event hevent m hm)

theorem skipped_block :
    ∃ (events : List (NetNode toyParams × NetEvent toyParams)) (n : NetNode toyParams),
      NetRun toyNet idleNet events n ∧ ¬ n.AcceptedIds ∧
      (∃ event ∈ events, event.1.skipped toyNet event.2 = some (.ofBlock toyParams nextNetBlock)) ∧
      n.accepted = [netBlock] ∧
      (n.client.handleBlock nextNetBlock.timestamp 0 nextNetBlock false).2 = .ok false := by
  let es := joins 1 [] ++ offers 1 ⟨netBlock, toyId nextNetBlock⟩ ++
    joins 2 [toyId netBlock] ++ offers 2 (.ofBlock toyParams nextNetBlock)
  refine ⟨_, _, Run.of_foldl (f := step toyNet) idleNet es, fun hids => ?_, ?_⟩
  · have hbad : toyId nextNetBlock ∈ (es.foldl (step toyNet) idleNet).mostRecentBlocksAccepted ∧
        ¬ (es.foldl (step toyNet) idleNet).AcceptedId (toyId nextNetBlock) := by
      decide +kernel
    exact hbad.2 (hids _ hbad.1)
  · decide +kernel

end Xgt.NetNode
