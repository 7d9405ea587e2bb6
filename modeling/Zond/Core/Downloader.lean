import Zond.Core.Peer

/-!
# The Downloader

How a node that has fallen behind fetches blocks. The two goroutines run at once and share the
request tracker, which takes its lock for one call at a time. Both are given as machines: what
they do between two calls on shared data is one step.

## Main definitions

* `Downloader.stepBlockDownloader`: `BlockDownloader`, which asks peers for blocks.
* `Downloader.stepConsumer`: `Consumer`, which adds what comes back, in the order it was asked for.
-/

namespace Zond

def maxRequest : Nat := 40

/-- `HashesAndPeerInfo`, with header hashes as bytes in place of their hexadecimal text. A Go
    map is given by its keys and its values. -/
structure HashesAndPeerInfo where
  slotNumber : UInt64
  hashes : List (List UInt8)
  distinct : hashes.Nodup
  peerByBlockHash : AssocMap (List UInt8) (List PeerId)

def HashesAndPeerInfo.peersOf (info : HashesAndPeerInfo) (headerHash : List UInt8) : List PeerId :=
  (info.peerByBlockHash.get headerHash).getD []

/-- The first peer of a header hash goes. -/
def HashesAndPeerInfo.dropFirst (info : HashesAndPeerInfo) (headerHash : List UInt8) :
    HashesAndPeerInfo :=
  { info with
    peerByBlockHash := info.peerByBlockHash.put headerHash (info.peersOf headerHash).tail }

structure RequestTracker where
  requests : AssocMap (List UInt8) PeerId
  sequence : List (List UInt8)

def newRequestTracker : RequestTracker := { requests := AssocMap.empty, sequence := [] }

namespace RequestTracker

def addPeerRequest (r : RequestTracker) (headerHash : List UInt8) (peer : PeerId) :
    RequestTracker :=
  { requests := r.requests.put headerHash peer, sequence := r.sequence ++ [headerHash] }

def getPeerByHeaderHash (r : RequestTracker) (headerHash : List UInt8) : Option PeerId :=
  r.requests.get headerHash

def removeRequestKey (r : RequestTracker) (headerHash : List UInt8) : RequestTracker :=
  { r with requests := r.requests.erase headerHash }

def removeFirstElementFromSequence (r : RequestTracker) : RequestTracker :=
  { r with sequence := r.sequence.tail }

end RequestTracker

/-- What comes of a peer that `RequestForBlock` has selected: it is disconnected, or
    `SendFetchBlock` returns an error or none. -/
inductive AskOutcome where
  | unavailable
  | failed
  | sent
deriving DecidableEq

structure Ask where
  index : Nat
  headerHash : List UInt8
  peer : PeerId
  outcome : AskOutcome
deriving DecidableEq

/-- Where a call of `RequestForBlock` stands: at the next slot, at the next header hash of a
    slot, at the next peer for a header hash, before `AddPeerRequest`, or at its end. -/
inductive RequestScan where
  | slot (index : Nat)
  | hashes (index : Nat) (rest : List (List UInt8))
  | peers (index : Nat) (headerHash : List UInt8) (rest : List (List UInt8))
  | recording (index : Nat) (headerHash : List UInt8) (peer : PeerId)
  | returned (index : Nat) (requested : Bool)
deriving DecidableEq

/-- What a step of a call depends on: the order of the range over the header hashes, and
    whether a message can be sent. -/
structure RequestChoice where
  order : List (List UInt8)
  sendFails : Bool

/-- A run of calls of `RequestForBlock`: the target slots, the blocks that the chain has, the
    peers that are disconnected, and where the call stands. No peer is nil: `Initialize` has
    read a field of each. -/
structure Requester where
  targetSlotNumbers : List HashesAndPeerInfo
  known : List Hash
  disconnected : List PeerId
  scan : RequestScan

namespace Requester

def slotNumberOf (r : Requester) (index : Nat) : UInt64 :=
  (r.targetSlotNumbers[index]?).elim 0 HashesAndPeerInfo.slotNumber

def peersOf (r : Requester) (index : Nat) (headerHash : List UInt8) : List PeerId :=
  (r.targetSlotNumbers[index]?).elim [] (fun info => info.peersOf headerHash)

/-- The order of a range over the keys of a map. -/
def rangeOver (order keys : List (List UInt8)) : List (List UInt8) :=
  if order.Perm keys then order else keys

/-- The peer the next step selects, and what comes of it. The one selected stands at the slot
    number modulo the number of peers that are left. -/
def ask (r : Requester) (choice : RequestChoice) : Option Ask :=
  match r.scan with
  | .peers index headerHash _ =>
    let peers := r.peersOf index headerHash
    (peers[(r.slotNumberOf index).toNat % peers.length]?).map (fun peer =>
      { index := index, headerHash := headerHash, peer := peer
        outcome := if peer ∈ r.disconnected then .unavailable
          else if choice.sendFails then .failed else .sent })
  | _ => none

/-- One step of `RequestForBlock`. Whichever peer is selected, the first one goes. After a
    request the call ends without moving on from the slot. -/
def step (r : Requester) (choice : RequestChoice) : Requester :=
  match r.scan with
  | .slot index =>
    match r.targetSlotNumbers[index]? with
    | none => { r with scan := .returned index false }
    | some info => { r with scan := .hashes index (rangeOver choice.order info.hashes) }
  | .hashes index [] => { r with scan := .slot (index + 1) }
  | .hashes index (headerHash :: rest) =>
    if Bytes.alignLeft 32 headerHash ∈ r.known then { r with scan := .hashes index rest }
    else { r with scan := .peers index headerHash rest }
  | .peers index headerHash rest =>
    match r.ask choice with
    | none => { r with scan := .hashes index rest }
    | some a =>
      { r with
        targetSlotNumbers :=
          r.targetSlotNumbers.modify index (fun info => info.dropFirst headerHash)
        scan := if a.outcome = .sent then .recording index headerHash a.peer
          else .peers index headerHash rest }
  | .recording index _ _ => { r with scan := .returned index true }
  | .returned _ _ => r

/-- `RequestForBlock` is called again, once the call before has returned. -/
def call (r : Requester) (nextIndexForRequest : Nat) : Requester :=
  match r.scan with
  | .returned _ _ => { r with scan := .slot nextIndexForRequest }
  | _ => r

def gain (r : Requester) (h : Hash) : Requester := { r with known := h :: r.known }

/-- A peer disconnects. It does not come back as the same peer. -/
def disconnect (r : Requester) (peer : PeerId) : Requester :=
  { r with disconnected := peer :: r.disconnected }

end Requester

inductive RequesterMove where
  | step (choice : RequestChoice)
  | call (nextIndexForRequest : Nat)
  | gain (h : Hash)
  | disconnect (peer : PeerId)

namespace Requester

def move (r : Requester) : RequesterMove → Requester
  | .step choice => r.step choice
  | .call nextIndexForRequest => r.call nextIndexForRequest
  | .gain h => r.gain h
  | .disconnect peer => r.disconnect peer

def asked (r : Requester) : RequesterMove → Option Ask
  | .step choice => r.ask choice
  | _ => none

def run (r : Requester) (moves : List RequesterMove) : Requester := moves.foldl move r

def log (r : Requester) : List RequesterMove → List Ask
  | [] => []
  | m :: moves => (r.asked m).toList ++ (r.move m).log moves

end Requester

/-- Where `BlockDownloader` stands: in a call of `RequestForBlock` (its first or a later one),
    before the test of its inner loop, at its select, or at its end. -/
inductive BlockDownloaderAt where
  | calling (first : Bool) (numberOfRequests : Int)
  | looping (numberOfRequests : Int) (nextIndexForRequest : Nat)
  | waiting (numberOfRequests : Int) (nextIndexForRequest : Nat)
  | exited

/-- Where `Consumer` stands: at its select, before the test of its inner loop, before each call
    of the loop's body, before `isSyncingFinished`, or at its end. -/
inductive ConsumerAt where
  | waiting
  | looping
  | popping (headerHash : List UInt8) (b : Block)
  | forgetting (headerHash : List UInt8) (b : Block)
  | adding (b : Block)
  | reporting (b : Block)
  | checking
  | exited

/-- `Downloader`, with the two goroutines that `Initialize` starts and what is local to them. -/
structure Downloader where
  isSyncing : Bool
  done : Bool
  requester : Requester
  requestTracker : RequestTracker
  blockAndPeerChannel : List (Block × PeerId)
  slotNumberProcessed : List UInt64
  pendingBlocks : AssocMap (List UInt8) Block
  lastBlockHeaderToDownload : Hash
  blockDownloader : BlockDownloaderAt
  consumer : ConsumerAt

inductive ConsumerEvent where
  | message
  | timeout
  | done
deriving DecidableEq

/-- What happens next: a step of one of the two goroutines, a block that a peer delivers, a
    block that the chain gets from elsewhere, or the end of a connection. -/
inductive DownloadTurn where
  | blockDownloader (choice : RequestChoice) (takeDone : Bool)
  | consumer (event : ConsumerEvent) (added : Bool)
  | deliver (b : Block) (peer : PeerId)
  | gain (h : Hash)
  | disconnect (peer : PeerId)

namespace Downloader

/-- `Downloader.isSyncingFinished`. The peers' epochs are not kept. -/
def isSyncingFinished (d : Downloader) (forceFinish : Bool) : Bool × Downloader :=
  if d.isSyncing = false then (true, d)
  else if forceFinish = true ∨ d.lastBlockHeaderToDownload ∈ d.requester.known then
    (true, { d with isSyncing := false, done := true })
  else (false, d)

/-- `BlockDownloader` once `RequestForBlock` has returned. When its first call has made no
    request, it ends. -/
def afterRequest (d : Downloader) (first : Bool) (numberOfRequests : Int)
    (nextIndexForRequest : Nat) : Downloader :=
  if first = true then
    if numberOfRequests = 0 then
      { (d.isSyncingFinished false).2 with blockDownloader := .exited }
    else { d with blockDownloader := .waiting numberOfRequests nextIndexForRequest }
  else { d with blockDownloader := .looping numberOfRequests nextIndexForRequest }

def stepBlockDownloader (d : Downloader) (choice : RequestChoice) (takeDone : Bool) : Downloader :=
  match d.blockDownloader with
  | .calling first numberOfRequests =>
    match d.requester.scan with
    | .recording _ headerHash peer =>
      { d with
        requester := d.requester.step choice
        requestTracker := d.requestTracker.addPeerRequest headerHash peer }
    | .returned index requested =>
      d.afterRequest first
        (if requested then numberOfRequests + 1 else numberOfRequests) index
    | _ => { d with requester := d.requester.step choice }
  | .looping numberOfRequests index =>
    if numberOfRequests < maxRequest - 10 ∧ index < d.requester.targetSlotNumbers.length then
      { d with
        requester := d.requester.call index
        blockDownloader := .calling false numberOfRequests }
    else { d with blockDownloader := .waiting numberOfRequests index }
  | .waiting numberOfRequests index =>
    if takeDone = true then
      if d.done = true then { d with isSyncing := false, blockDownloader := .exited } else d
    else match d.slotNumberProcessed with
      | [] => d
      | _ :: rest =>
        { d with
          slotNumberProcessed := rest
          blockDownloader := .looping (numberOfRequests - 1) index }
  | .exited => d

/-- One step of `Consumer`. A block that `AddBlock` refuses ends the inner loop, and a full
    channel makes it wait. -/
def stepConsumer (d : Downloader) (event : ConsumerEvent) (added : Bool) : Downloader :=
  match d.consumer with
  | .waiting =>
    match event with
    | .message =>
      match d.blockAndPeerChannel with
      | [] => d
      | (b, peer) :: rest =>
        if d.requestTracker.getPeerByHeaderHash b.hash.val = some peer then
          { d with
            blockAndPeerChannel := rest
            pendingBlocks := d.pendingBlocks.put b.hash.val b
            consumer := .looping }
        else { d with blockAndPeerChannel := rest }
    | .timeout => { (d.isSyncingFinished true).2 with consumer := .exited }
    | .done =>
      if d.done = true then { d with isSyncing := false, consumer := .exited } else d
  | .looping =>
    match d.isSyncing, d.requestTracker.sequence with
    | true, headerHash :: _ =>
      match d.pendingBlocks.get headerHash with
      | none => { d with consumer := .checking }
      | some b =>
        { d with
          pendingBlocks := d.pendingBlocks.erase headerHash
          consumer := .popping headerHash b }
    | _, _ => { d with consumer := .checking }
  | .popping headerHash b =>
    { d with
      requestTracker := d.requestTracker.removeFirstElementFromSequence
      consumer := .forgetting headerHash b }
  | .forgetting headerHash b =>
    { d with
      requestTracker := d.requestTracker.removeRequestKey headerHash
      consumer := .adding b }
  | .adding b =>
    if added = true then
      { d with requester := d.requester.gain b.hash, consumer := .reporting b }
    else { d with consumer := .checking }
  | .reporting b =>
    if d.slotNumberProcessed.length < maxRequest then
      { d with
        slotNumberProcessed := d.slotNumberProcessed ++ [b.slotNumber]
        consumer := .looping }
    else d
  | .checking =>
    let (finished, d) := d.isSyncingFinished false
    { d with consumer := if finished then .exited else .waiting }
  | .exited => d

def turn (d : Downloader) : DownloadTurn → Downloader
  | .blockDownloader choice takeDone => d.stepBlockDownloader choice takeDone
  | .consumer event added => d.stepConsumer event added
  | .deliver b peer =>
    if d.blockAndPeerChannel.length < maxRequest * 2 then
      { d with blockAndPeerChannel := d.blockAndPeerChannel ++ [(b, peer)] }
    else d
  | .gain h => { d with requester := d.requester.gain h }
  | .disconnect peer => { d with requester := d.requester.disconnect peer }

/-- What `Initialize` leaves when it starts the two goroutines. The channels may have been
    filled before, and the chain and the peers are as they are. -/
structure Started (d : Downloader) : Prop where
  isSyncing : d.isSyncing = true
  requestTracker : d.requestTracker = newRequestTracker
  scan : d.requester.scan = .slot 0
  pendingBlocks : d.pendingBlocks = AssocMap.empty
  blockDownloader : d.blockDownloader = .calling true 0
  consumer : d.consumer = .waiting

/-- The states that turns which meet `P` lead to, from a start with the target slots. -/
inductive Reached (targetSlotNumbers : List HashesAndPeerInfo)
    (P : Downloader → DownloadTurn → Prop) : Downloader → Prop where
  | start {d : Downloader} : d.Started → d.requester.targetSlotNumbers = targetSlotNumbers →
      Reached targetSlotNumbers P d
  | turn {d : Downloader} (t : DownloadTurn) : Reached targetSlotNumbers P d → P d t →
      Reached targetSlotNumbers P (d.turn t)

end Downloader

end Zond
