import XgtChain.Base.Run
import XgtChain.P2p.HandleBlock

/-!
# The network node

A node gets blocks from its peers in two ways.
-/

namespace Xgt

open Base

def xgtBlockInterval : Nat := 5

structure MessageHash where
  data : Nat
  deriving DecidableEq

structure BlockMessage where
  block : SignedBlock
  blockId : BlockId
  deriving DecidableEq

def BlockMessage.ofBlock (P : Params) (blk : SignedBlock) : BlockMessage :=
  ⟨blk, P.blockId blk.toSignedBlockHeader⟩

inductive ConnectionState where
  | handshaking
  | active
  | closing
  deriving DecidableEq

structure PeerConnection where
  state : ConnectionState := .handshaking
  inventoryPeerAdvertisedToUs : List MessageHash := []
  inventoryAdvertisedToPeer : List MessageHash := []
  itemsRequestedFromPeer : List MessageHash := []
  itemIdsRequestedFromPeer : Option (List BlockId) := none
  syncItemsRequestedFromPeer : List BlockId := []
  idsOfItemsToGet : List BlockId := []
  idsOfItemsBeingProcessed : List BlockId := []
  numberOfUnfetchedItemIds : Nat := 0
  peerNeedsSyncItemsFromUs : Bool := true
  weNeedSyncItemsFromPeer : Bool := true
  inhibitFetchingSyncBlocks : Bool := false

namespace PeerConnection

variable (c : PeerConnection) (synopsis : Option (List BlockId)) (id : BlockId) (hasItem : BlockId → Bool)
  (isFirstItemForOtherPeer : Bool) (ids : List BlockId)

def isInventoryAdvertisedToUsListFull : Bool :=
  c.inventoryPeerAdvertisedToUs.length > 2 * 1000 * 60 + (2 + 1) * 60 / xgtBlockInterval

def idle : Bool :=
  c.itemsRequestedFromPeer.isEmpty && c.syncItemsRequestedFromPeer.isEmpty &&
    c.itemIdsRequestedFromPeer.isNone

def disconnect : PeerConnection := { c with state := .closing }

def fetchNextBatchOfItemIds : PeerConnection :=
  if c.itemIdsRequestedFromPeer.isSome then c
  else match synopsis with
    | some blockchainSynopsis => { c with itemIdsRequestedFromPeer := some blockchainSynopsis }
    | none => c.disconnect

def startSynchronizing : PeerConnection :=
  { c with
    idsOfItemsToGet := []
    numberOfUnfetchedItemIds := 0
    weNeedSyncItemsFromPeer := true
    inhibitFetchingSyncBlocks := false }.fetchNextBatchOfItemIds synopsis

def waitsFor : Bool := c.state = .active ∧ c.idsOfItemsToGet.head? = some id

def popItemToGet : PeerConnection :=
  if c.waitsFor id then { c with
    idsOfItemsToGet := c.idsOfItemsToGet.tail
    idsOfItemsBeingProcessed := c.idsOfItemsBeingProcessed.insert id }
  else c

def syncBlockAccepted (synopsis : Option (List BlockId)) : PeerConnection :=
  if c.state ≠ .active then c
  else
    let processed := { c with idsOfItemsBeingProcessed := c.idsOfItemsBeingProcessed.erase id }
    let listsEmpty := processed.idsOfItemsToGet = [] ∧ processed.idsOfItemsBeingProcessed = []
    let fetched :=
      if id ∈ c.idsOfItemsBeingProcessed ∧ processed.idsOfItemsBeingProcessed = [] then
        processed.fetchNextBatchOfItemIds synopsis
      else processed
    if listsEmpty ∧ ¬ c.peerNeedsSyncItemsFromUs ∧ ¬ c.weNeedSyncItemsFromPeer then
      fetched.startSynchronizing synopsis
    else fetched

def Sequential : List BlockId → Prop
  | id :: next :: rest => next.num = (id.num + 1) % 2 ^ 32 ∧ Sequential (next :: rest)
  | _ => True

instance : DecidablePred Sequential := by
  intro ids
  induction ids with
  | nil => exact .isTrue trivial
  | cons id rest ih =>
    cases rest with
    | nil => exact .isTrue trivial
    | cons next rest => exact inferInstanceAs (Decidable (_ ∧ _))

def ValidReply (synopsisSent ids : List BlockId) : Prop :=
  Sequential ids ∧ ∀ first ∈ ids.head?,
    if synopsisSent = [] then numFromId first = 1 else first ∈ synopsisSent

instance (synopsisSent ids : List BlockId) : Decidable (ValidReply synopsisSent ids) :=
  inferInstanceAs (Decidable (_ ∧ ∀ first ∈ ids.head?, _))

def itemsToGet : List BlockId :=
  match ids with
  | [] => c.idsOfItemsToGet
  | first :: rest =>
    if c.idsOfItemsToGet = [] then
      if isFirstItemForOtherPeer then ids else ids.dropWhile hasItem
    else
      match c.idsOfItemsToGet.reverse.dropWhile (· ≠ first) with
      -- the peer switched forks, and `first` is a block of the synopsis
      | [] => rest
      -- the new list continues the old one
      | _ :: before => before.reverse ++ ids

def onBlockchainItemIdsInventory (totalRemaining : Nat) (synopsis : Option (List BlockId)) : PeerConnection :=
  match c.itemIdsRequestedFromPeer with
  | none => c
  | some synopsisSent =>
    if ¬ ValidReply synopsisSent ids then c.disconnect
    else
      let answered := { c with itemIdsRequestedFromPeer := none }
      if totalRemaining = 0 ∧ (ids = [] ∨ ids.length = 1 ∧ ids.all hasItem) ∧
          c.idsOfItemsToGet = [] ∧ c.numberOfUnfetchedItemIds = 0 then
        { answered with weNeedSyncItemsFromPeer := false }
      else
        let listed := { answered with
          idsOfItemsToGet := c.itemsToGet hasItem isFirstItemForOtherPeer ids
          numberOfUnfetchedItemIds := totalRemaining }
        if totalRemaining ≠ 0 then listed.fetchNextBatchOfItemIds synopsis else listed

end PeerConnection

structure NetConfig where
  messageHash : BlockMessage → MessageHash
  maximumBlocksPerPeerDuringSyncing : Nat := 100
  maximumNumberOfSyncBlocksToPrefetch : Nat := 20 * 100
  maximumNumberOfBlocksToHandleAtOneTime : Nat := 100

inductive Backlog where
  | done
  | scheduled
  | running (blocksProcessed : Nat)
  | sending (blocksProcessed : Nat) (m : BlockMessage)

@[irreducible]
def recentBlocksCapacity : Nat := 10000

def pushBack {α : Type} (capacity : Nat) (buffer : List α) (x : α) : List α :=
  (buffer ++ [x]).drop (buffer.length + 1 - capacity)

structure NetNode (P : Params) where
  client : P2pPlugin P
  connections : List (Nat × PeerConnection) := []
  itemsToFetch : List MessageHash := []
  newInventory : List MessageHash := []
  messageIdsCurrentlyBeingProcessed : List MessageHash := []
  activeSyncRequests : List BlockId := []
  newReceivedSyncItems : List BlockMessage := []
  receivedSyncItems : List BlockMessage := []
  mostRecentBlocksAccepted : List BlockId := []
  backlog : Backlog := .done
  delivering : List (Nat × BlockMessage) := []
  accepted : List SignedBlock := []
  start : Option BlockId := none

namespace NetNode

variable {P : Params} (n : NetNode P) (cfg : NetConfig) (peer : Nat) (id : BlockId) (m : BlockMessage)
  (now : TimePointSec) (budget : Nat)

def hasItem : Bool := (n.client.node.fetchBlockById id).isSome

def peer? : Option PeerConnection := (n.connections.find? (·.1 = peer)).map (·.2)

def mapPeers (f : Nat → PeerConnection → PeerConnection) : NetNode P :=
  { n with connections := n.connections.map fun (peer, c) => (peer, f peer c) }

def modifyPeer (f : PeerConnection → PeerConnection) : NetNode P :=
  n.mapPeers fun q c => if q = peer then f c else c

def anyActive (p : Nat → PeerConnection → Bool) : Bool :=
  n.connections.any fun (peer, c) => c.state = .active && p peer c

def pushAccepted : NetNode P :=
  { n with
    mostRecentBlocksAccepted := pushBack recentBlocksCapacity n.mostRecentBlocksAccepted id }

def broadcast : NetNode P :=
  { n.pushAccepted m.blockId with newInventory := n.newInventory.insert (cfg.messageHash m) }

def haveAlreadyReceivedSyncItem : Bool :=
  n.receivedSyncItems.any (·.blockId = id) || n.newReceivedSyncItems.any (·.blockId = id) ||
    n.mostRecentBlocksAccepted.contains id

def onItemIdInventory (h : MessageHash) : Option (NetNode P) :=
  if h ∈ n.messageIdsCurrentlyBeingProcessed ∨ h ∈ n.newInventory ∨
      n.anyActive fun _ c => c.inventoryAdvertisedToPeer.contains h then some n
  else if (n.peer? peer).any PeerConnection.isInventoryAdvertisedToUsListFull then none
  else
    let advertised := n.modifyPeer peer fun c =>
      { c with inventoryPeerAdvertisedToUs := c.inventoryPeerAdvertisedToUs.insert h }
    if n.anyActive fun _ c => c.itemsRequestedFromPeer.contains h then some advertised
    else some { advertised with itemsToFetch := n.itemsToFetch.insert h }

def onItemIdsInventory (peer : Nat) : List MessageHash → NetNode P → NetNode P
  | [], n => n
  | h :: hashes, n =>
    match n.onItemIdInventory peer h with
    | some n' => onItemIdsInventory peer hashes n'
    | none => n

def fetchItem (h : MessageHash) : NetNode P :=
  match n.peer? peer with
  | none => n
  | some c =>
    if c.state = .active ∧ c.idle ∧ h ∈ n.itemsToFetch ∧ h ∈ c.inventoryPeerAdvertisedToUs then
      { n.modifyPeer peer fun c => { c with itemsRequestedFromPeer := c.itemsRequestedFromPeer.insert h }
        with itemsToFetch := n.itemsToFetch.erase h }
    else n

def fetchSyncItem : NetNode P :=
  match n.peer? peer with
  | none => n
  | some c =>
    if c.state = .active ∧ ¬ c.inhibitFetchingSyncBlocks ∧ c.weNeedSyncItemsFromPeer ∧
        c.syncItemsRequestedFromPeer.length < cfg.maximumBlocksPerPeerDuringSyncing ∧
        n.activeSyncRequests.length + n.newReceivedSyncItems.length ≤
          cfg.maximumNumberOfSyncBlocksToPrefetch ∧
        id ∈ c.idsOfItemsToGet ∧ id ∉ n.activeSyncRequests ∧ ¬ n.haveAlreadyReceivedSyncItem id then
      { n.modifyPeer peer fun c =>
          { c with syncItemsRequestedFromPeer := c.syncItemsRequestedFromPeer.insert id }
        with activeSyncRequests := n.activeSyncRequests.insert id }
    else n

def onItemNotAvailable (h : MessageHash) : NetNode P :=
  if (n.peer? peer).any (·.itemsRequestedFromPeer.contains h) then
    let erased := n.modifyPeer peer fun c => { c with
      itemsRequestedFromPeer := c.itemsRequestedFromPeer.erase h
      inventoryPeerAdvertisedToUs := c.inventoryPeerAdvertisedToUs.erase h }
    if erased.anyActive fun _ c => c.inventoryPeerAdvertisedToUs.contains h then
      { erased with itemsToFetch := n.itemsToFetch.insert h }
    else erased
  else n

def onSyncItemNotAvailable : NetNode P :=
  n.modifyPeer peer fun c =>
    if id ∈ c.syncItemsRequestedFromPeer then
      let erased := { c with syncItemsRequestedFromPeer := c.syncItemsRequestedFromPeer.erase id }
      if c.peerNeedsSyncItemsFromUs then { erased with inhibitFetchingSyncBlocks := true }
      else erased.disconnect
    else c

def onConnectionClosed : NetNode P :=
  match n.peer? peer with
  | none => n
  | some c =>
    let closed := { n with
      connections := n.connections.filter (·.1 ≠ peer)
      activeSyncRequests := n.activeSyncRequests.filter fun id => id ∉ c.syncItemsRequestedFromPeer }
    { closed with
      itemsToFetch := c.itemsRequestedFromPeer.foldl (fun items h =>
        if closed.anyActive fun _ c => c.inventoryPeerAdvertisedToUs.contains h then items.insert h
        else items) n.itemsToFetch }

def processBlockDuringSync : NetNode P :=
  { n with
    newReceivedSyncItems := m :: n.newReceivedSyncItems
    backlog := match n.backlog with
      | .done => .scheduled
      | running => running }

def processBlockDuringNormalOperation : NetNode P :=
  if m.blockId ∈ n.mostRecentBlocksAccepted then n.broadcast cfg m
  else { n with
    messageIdsCurrentlyBeingProcessed :=
      n.messageIdsCurrentlyBeingProcessed.insert (cfg.messageHash m)
    delivering := n.delivering ++ [(peer, m)] }

def processBlockMessage (synopsis : Option (List BlockId)) : NetNode P :=
  match n.peer? peer with
  | none => n
  | some c =>
    if cfg.messageHash m ∈ c.itemsRequestedFromPeer then
      (n.modifyPeer peer fun c =>
        { c with itemsRequestedFromPeer := c.itemsRequestedFromPeer.erase (cfg.messageHash m) }
        ).processBlockDuringNormalOperation cfg peer m
    else if m.blockId ∈ c.syncItemsRequestedFromPeer then
      let received := { n.modifyPeer peer fun c =>
          { c with syncItemsRequestedFromPeer := c.syncItemsRequestedFromPeer.erase m.blockId }
        with activeSyncRequests := n.activeSyncRequests.erase m.blockId }
      let processed := received.processBlockDuringSync m
      if c.numberOfUnfetchedItemIds > 0 then
        processed.modifyPeer peer fun c => c.fetchNextBatchOfItemIds synopsis
      else processed
    else if m.blockId ∈ n.mostRecentBlocksAccepted then n
    else n.modifyPeer peer PeerConnection.disconnect

def nextSyncItem : Option BlockMessage :=
  n.receivedSyncItems.find? fun m => n.anyActive fun _ c => c.waitsFor m.blockId

def finishSyncItem (blocksProcessed : Nat) (m : BlockMessage) : NetNode P :=
  { n with
    receivedSyncItems := n.receivedSyncItems.erase m
    backlog :=
      if blocksProcessed + 1 < cfg.maximumNumberOfBlocksToHandleAtOneTime then
        .running (blocksProcessed + 1)
      else .done }

def processBacklogOfSyncBlocks : NetNode P :=
  match n.backlog with
  | .scheduled => { n with
      receivedSyncItems := n.newReceivedSyncItems.reverse ++ n.receivedSyncItems
      newReceivedSyncItems := []
      backlog := .running 0 }
  | .running blocksProcessed =>
    match n.nextSyncItem with
    | none => { n with backlog := .done }
    | some m =>
      let popped := n.mapPeers fun _ c => c.popItemToGet m.blockId
      if m.blockId ∈ n.mostRecentBlocksAccepted then popped.finishSyncItem cfg blocksProcessed m
      else { popped with backlog := .sending blocksProcessed m }
  | _ => n

def handleBlock (b : SignedBlock) (syncMode : Bool) : NetNode P × Result Bool :=
  let (client, result) := n.client.handleBlock now budget b syncMode
  match result with
  | .ok r => ({ n with client := client, accepted := b :: n.accepted }, .ok r)
  | .error e => ({ n with client := client }, .error e)

def sendSyncBlockToNodeDelegate (m : BlockMessage) (synopsis : Nat → Option (List BlockId)) : NetNode P :=
  match n.handleBlock now budget m.block true with
  | (handled, .ok _) =>
    (handled.pushAccepted m.blockId).mapPeers fun peer c =>
      c.syncBlockAccepted m.blockId (synopsis peer)
  | (handled, .error _) => handled

def deliver (peer : Nat) (m : BlockMessage) (synopsis : Option (List BlockId)) : NetNode P :=
  match n.handleBlock now budget m.block false with
  | (handled, .ok _) =>
    ({ handled with
      messageIdsCurrentlyBeingProcessed :=
        handled.messageIdsCurrentlyBeingProcessed.erase (cfg.messageHash m)
      }.pushAccepted m.blockId).broadcast cfg m
  | (handled, .error e) =>
    if e.kind = .netUnlinkableBlock then
      handled.modifyPeer peer fun c => c.startSynchronizing synopsis
    else
      handled.mapPeers fun q c => if q = peer ∨ c.waitsFor m.blockId then c.disconnect else c

def produceBlock (skip : SkipFlags) (budget : Nat) (b : SignedBlock) : NetNode P :=
  match n.client.node.pushBlock skip budget b with
  | (node, .ok _) =>
    { n with client := { n.client with node := node }, accepted := b :: n.accepted }.broadcast cfg
      (.ofBlock P b)
  | (node, .error _) => { n with client := { n.client with node := node } }

def advertiseInventory : NetNode P :=
  { n.mapPeers fun _ c =>
      if c.state = .active ∧ ¬ c.peerNeedsSyncItemsFromUs then
        { c with inventoryAdvertisedToPeer := c.inventoryAdvertisedToPeer ++ n.newInventory.filter fun h =>
          h ∉ c.inventoryAdvertisedToPeer ∧ h ∉ c.inventoryPeerAdvertisedToUs }
      else c
    with newInventory := [] }

def syncFrom (currentHeadBlock : BlockId) : NetNode P :=
  { n with mostRecentBlocksAccepted := [currentHeadBlock], start := some currentHeadBlock }

end NetNode

inductive NetEvent (P : Params) where
  | syncFrom (currentHeadBlock : BlockId)
  | connect (peer : Nat)
  | activate (peer : Nat) (synopsis : Option (List BlockId))
  | disconnect (peer : Nat)
  | close (peer : Nat)
  | peerInSync (peer : Nat) (inSync restart : Bool) (synopsis : Option (List BlockId))
  | itemIdsInventory (peer : Nat) (hashes : List MessageHash)
  | blockchainItemIdsInventory (peer : Nat) (ids : List BlockId) (totalRemaining : Nat)
      (synopsis : Option (List BlockId))
  | itemNotAvailable (peer : Nat) (h : MessageHash)
  | syncItemNotAvailable (peer : Nat) (id : BlockId)
  | block (peer : Nat) (m : BlockMessage) (synopsis : Option (List BlockId))
  | fetchItem (peer : Nat) (h : MessageHash)
  | fetchSyncItem (peer : Nat) (id : BlockId)
  | expireItem (h : MessageHash)
  | expireInventory (peer : Nat) (h : MessageHash)
  | advertiseInventory
  | backlog
  | handleSyncBlock (now : TimePointSec) (budget : Nat) (synopsis : Nat → Option (List BlockId))
  | handleBlock (call : Nat) (now : TimePointSec) (budget : Nat) (synopsis : Option (List BlockId))
  | produceBlock (skip : SkipFlags) (budget : Nat) (b : SignedBlock)
  | client (client : P2pPlugin P)

namespace NetNode

variable {P : Params} (cfg : NetConfig)

def step (n : NetNode P) : NetEvent P → NetNode P
  | .syncFrom currentHeadBlock => n.syncFrom currentHeadBlock
  | .connect peer =>
    if (n.peer? peer).isSome then n else { n with connections := n.connections ++ [(peer, {})] }
  | .activate peer synopsis =>
    n.modifyPeer peer fun c =>
      if c.state = .handshaking then { c with state := .active }.startSynchronizing synopsis else c
  | .disconnect peer => n.modifyPeer peer PeerConnection.disconnect
  | .close peer => n.onConnectionClosed peer
  | .peerInSync peer inSync restart synopsis =>
    n.modifyPeer peer fun c =>
      let noted := { c with peerNeedsSyncItemsFromUs := !inSync }
      if inSync && restart && !c.weNeedSyncItemsFromPeer then noted.startSynchronizing synopsis else noted
  | .itemIdsInventory peer hashes => onItemIdsInventory peer hashes n
  | .blockchainItemIdsInventory peer ids totalRemaining synopsis =>
    n.modifyPeer peer fun c =>
      c.onBlockchainItemIdsInventory n.hasItem
        (ids.head?.any fun first => n.anyActive fun q other => q ≠ peer && other.waitsFor first)
        ids totalRemaining synopsis
  | .itemNotAvailable peer h => n.onItemNotAvailable peer h
  | .syncItemNotAvailable peer id => n.onSyncItemNotAvailable peer id
  | .block peer m synopsis => n.processBlockMessage cfg peer m synopsis
  | .fetchItem peer h => n.fetchItem peer h
  | .fetchSyncItem peer id => n.fetchSyncItem cfg peer id
  | .expireItem h => { n with itemsToFetch := n.itemsToFetch.erase h }
  | .expireInventory peer h =>
    n.modifyPeer peer fun c => { c with
      inventoryPeerAdvertisedToUs := c.inventoryPeerAdvertisedToUs.erase h
      inventoryAdvertisedToPeer := c.inventoryAdvertisedToPeer.erase h }
  | .advertiseInventory => n.advertiseInventory
  | .backlog => n.processBacklogOfSyncBlocks cfg
  | .handleSyncBlock now budget synopsis =>
    match n.backlog with
    | .sending blocksProcessed m =>
      (n.sendSyncBlockToNodeDelegate now budget m synopsis).finishSyncItem cfg blocksProcessed m
    | _ => n
  | .handleBlock call now budget synopsis =>
    match n.delivering[call]? with
    | some (peer, m) =>
      { n with delivering := n.delivering.eraseIdx call }.deliver cfg now budget peer m synopsis
    | none => n
  | .produceBlock skip budget b => n.produceBlock cfg skip budget b
  | .client client => { n with client := client }

/-- A run of the node's messages. -/
abbrev NetRun : NetNode P → List (NetNode P × NetEvent P) → NetNode P → Prop :=
  Run fun n e n' => n.step cfg e = n'

end NetNode

end Xgt
