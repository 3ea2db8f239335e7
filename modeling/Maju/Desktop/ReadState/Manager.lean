import Maju.Desktop.ReadState.Format

/-!
# Manager — the read-state manager of the desktop client

A manager keeps the markers of the user on one device and synchronizes them with the relay.  Its
methods run up to an `await` without interruption, so each asynchronous call is a `Task` that says
what it waits for, and `Task.resume` is what the manager does when the answer is there:

* `advanceContext`, `applyRemoteContextTimestamp` — local and remote markers;
* `mergeEvent`, `finishMerge` — the batch path, `handleIncomingEvent` — the live path;
* `build`, `afterDelete`, `publishOneSlot`, `confirm` — the publish cycle.
-/

namespace Maju
namespace Desktop
namespace ReadState

open Lib MaxRegister

/-! ## Local storage -/

/-- What the local storage of a device holds for the user. -/
structure Storage where
  clientId : Text
  slotId : Text
  extraSlotIds : List Text
  contexts : Record
  publishableContextIds : List Text
  contextSourceCreatedAt : Record

def readStateHorizonSeconds : Nat := 7 * 24 * 60 * 60

def localMaxPrunableContexts : Nat := 1000

/-- Message and thread markers older than the horizon go, and of the others the oldest above the
cap. -/
def pruneStaleContexts (contexts : Record) (now : Nat) : Record :=
  let kept := contexts.retain fun context _ => !isPrunableContextKey context
  let prunable := contexts.pairs.filter fun e =>
    isPrunableContextKey e.1 && decide (now ≤ e.2 + readStateHorizonSeconds)
  let capped :=
    if localMaxPrunableContexts < prunable.length then
      (prunable.mergeSort fun a b => decide (b.2 ≤ a.2)).take localMaxPrunableContexts
    else prunable
  kept.setAll capped

/-! ## The manager -/

/-- `ReadStateManager`; `unsaved` while a write to the local storage is due. -/
structure Manager where
  pubkey : Text
  clientId : Text
  slotId : Text
  extraSlotIds : List Text
  effectiveState : Record
  publishableContextIds : List Text
  lastPublishedContexts : Record
  maxFetchedCreatedAt : Nat
  contextSourceCreatedAt : Record
  recentlyPublishedIds : List Event
  destroyed : Bool
  unsaved : Bool

namespace Manager

/-- The constructor and `hydrateFromLocalStorage`; only positive timestamps are read. -/
def hydrate (pubkey : Text) (storage : Storage) : Manager where
  pubkey := pubkey
  clientId := storage.clientId
  slotId := storage.slotId
  extraSlotIds := storage.extraSlotIds
  effectiveState := storage.contexts.retain fun _ ts => decide (0 < ts)
  publishableContextIds := storage.publishableContextIds
  lastPublishedContexts := ∅
  maxFetchedCreatedAt := 0
  contextSourceCreatedAt := storage.contextSourceCreatedAt
  recentlyPublishedIds := []
  destroyed := false
  unsaved := false

def writeLocalState (m : Manager) (storage : Storage) (now : Nat) : Storage :=
  let pruned := pruneStaleContexts m.effectiveState now
  { storage with
    contexts := pruned
    publishableContextIds := m.publishableContextIds.filter fun context => context ∈ pruned
    contextSourceCreatedAt := m.contextSourceCreatedAt.retain fun context _ => context ∈ pruned }

def persistLocalState (m : Manager) : Manager :=
  if m.destroyed then m else { m with unsaved := true }

def flushLocalState (m : Manager) (storage : Storage) (now : Nat) : Manager × Storage :=
  if m.unsaved then ({ m with unsaved := false }, m.writeLocalState storage now) else (m, storage)

/-! ## Local markers -/

/-- `publishableContextIds.add`. -/
def addPublishable (m : Manager) (context : Text) : Manager :=
  if context ∈ m.publishableContextIds then m
  else { m with publishableContextIds := m.publishableContextIds ++ [context] }

def advanceContext (m : Manager) (context : Text) (ts : Nat) (publishable : Bool) : Manager :=
  if m.destroyed then m
  else if ts ≤ valueAt m.effectiveState context then
    if publishable && context ∉ m.publishableContextIds then
      (m.addPublishable context).persistLocalState
    else m
  else
    let m := { m with effectiveState := m.effectiveState.set context ts }
    (if publishable then m.addPublishable context else m).persistLocalState

def markContextRead (m : Manager) (context : Text) (ts now : Nat) : Manager :=
  let m := m.advanceContext context ts true
  { m with
    contextSourceCreatedAt :=
      m.contextSourceCreatedAt.set context (max now (m.maxFetchedCreatedAt + 1)) }

def seedContextRead (m : Manager) (context : Text) (ts : Nat) : Manager :=
  m.advanceContext context ts false

/-! ## Remote markers -/

/-- The event that a marker comes from is remembered by its time. -/
def noteSource (m : Manager) (context : Text) (eventCreatedAt : Nat) : Manager :=
  if valueAt m.contextSourceCreatedAt context < eventCreatedAt then
    { m with contextSourceCreatedAt := m.contextSourceCreatedAt.set context eventCreatedAt }
  else m

/-- The manager, and whether the marker advanced. -/
def applyRemoteContextTimestamp (m : Manager) (context : Text) (ts eventCreatedAt : Nat) :
    Manager × Bool :=
  let current := valueAt m.effectiveState context
  let next := max current ts
  if next = current then (m.noteSource context eventCreatedAt, false)
  else
    ({ m with effectiveState := m.effectiveState.set context next }.noteSource context
      eventCreatedAt, true)

def mergeContext (createdAt : Nat) (m : Manager) (e : Text × Nat) : Manager :=
  let (m, advanced) := m.applyRemoteContextTimestamp e.1 e.2 createdAt
  if advanced then m.addPublishable e.1 else m

def receiveContext (createdAt : Nat) (m : Manager) (e : Text × Nat) : Manager :=
  let (m, advanced) := m.applyRemoteContextTimestamp e.1 e.2 createdAt
  if advanced || e.1 ∉ m.publishableContextIds then (m.addPublishable e.1).persistLocalState
  else m

def seeCreatedAt (m : Manager) (createdAt : Nat) : Manager :=
  { m with maxFetchedCreatedAt := max m.maxFetchedCreatedAt createdAt }

/-- The newest own blob of each slot that a batch has shown. -/
abbrev OwnBlobs := HashMap Text (Record × Nat)

/-- One event of a batch, once it is decrypted. -/
def mergeEvent (m : Manager) (own : OwnBlobs) (event : Event) : Manager × OwnBlobs :=
  match parseReadStateEvent event m.pubkey with
  | none => (m, own)
  | some parsed =>
      let m := parsed.blob.contexts.pairs.foldl (mergeContext parsed.createdAt)
        (m.seeCreatedAt parsed.createdAt)
      if parsed.blob.clientId = m.clientId then
        match own.lookup parsed.dTag with
        | some (_, createdAt) =>
            if createdAt < parsed.createdAt then
              (m, own.set parsed.dTag (parsed.blob.contexts, parsed.createdAt))
            else (m, own)
        | none => (m, own.set parsed.dTag (parsed.blob.contexts, parsed.createdAt))
      else (m, own)

/-- The names that every plain object inherits. -/
def inheritedNames : List Text :=
  ["constructor", "__defineGetter__", "__defineSetter__", "hasOwnProperty", "__lookupGetter__",
    "__lookupSetter__", "isPrototypeOf", "propertyIsEnumerable", "toString", "valueOf",
    "__proto__", "toLocaleString"].map String.toList

def raise (m : Record) (e : Text × Nat) : Record :=
  match m.lookup e.1 with
  | some existing => if existing < e.2 then m.set e.1 e.2 else m
  -- an inherited name reads as what is inherited, and no timestamp is larger than that
  | none => if e.1 ∈ inheritedNames then m else m.set e.1 e.2

/-- The union of records, with the largest timestamp of each context. -/
def unionContexts (l : List Record) : Record :=
  l.foldl (fun m contexts => contexts.pairs.foldl raise m) ∅

/-- Another client writes to the slot of this one. -/
def conflicted (m : Manager) (event : Event) : Bool :=
  match parseReadStateEvent event m.pubkey with
  | some parsed =>
      parsed.dTag = readStateDTagPrefix ++ m.slotId && parsed.blob.clientId ≠ m.clientId
  | none => false

/-- The end of `mergeEvents`: the slot is rotated if it is conflicted, and the own blobs are what
was published last. -/
def finishMerge (m : Manager) (storage : Storage) (events : List Event) (own : OwnBlobs)
    (drawn : Text) : Manager × Storage :=
  let (m, storage) :=
    if events.any m.conflicted then
      ({ m with slotId := drawn }, { storage with slotId := drawn })
    else (m, storage)
  let blobs := own.pairs.map fun e => e.2.1
  if blobs = [] then (m, storage)
  else
    ({ (blobs.foldl (fun m contexts =>
          contexts.pairs.foldl (fun m e => m.addPublishable e.1) m) m) with
        lastPublishedContexts := unionContexts blobs }, storage)

theorem foldl_addPublishable {P : Manager → Prop}
    (hadd : ∀ m context, P m → P (m.addPublishable context))
    (blobs : List Record) {m : Manager} (hm : P m) :
    P (blobs.foldl (fun m contexts =>
      contexts.pairs.foldl (fun m e => m.addPublishable e.1) m) m) := by
  have hone : ∀ (l : List (Text × Nat)) (m : Manager), P m →
      P (l.foldl (fun m e => m.addPublishable e.1) m) := by
    intro l
    induction l with
    | nil => exact fun _ hm => hm
    | cons e l ih => exact fun m hm => ih _ (hadd m e.1 hm)
  induction blobs generalizing m with
  | nil => exact hm
  | cons contexts blobs ih => exact ih (hone contexts.pairs m hm)

/-- A live event that is not an echo, once it is decrypted. -/
def receive (m : Manager) (event : Event) : Manager :=
  match parseReadStateEvent event m.pubkey with
  | none => m
  | some parsed =>
      if m.destroyed then m
      else
        parsed.blob.contexts.pairs.foldl (receiveContext parsed.createdAt)
          (m.seeCreatedAt parsed.createdAt)

/-! ## Own events -/

def publishedIdMemory : Nat := 64

def rememberPublishedId (m : Manager) (event : Event) : Manager :=
  let ids := if event ∈ m.recentlyPublishedIds then m.recentlyPublishedIds
    else m.recentlyPublishedIds ++ [event]
  { m with recentlyPublishedIds := if publishedIdMemory < ids.length then ids.tail else ids }

/-- The event that carries the contexts of a slot. -/
def slotEvent (m : Manager) (slotId : Text) (contexts : Record) (createdAt nonce : Nat) :
    Event where
  pubkey := m.pubkey
  createdAt := createdAt
  tags :=
    [["d".toList, readStateDTagPrefix ++ slotId], ["t".toList, "read-state".toList]]
  plaintext := some (.object
    [("v".toList, .integer 1), ("client_id".toList, .string m.clientId),
      ("contexts".toList, .object (contexts.pairs.map fun e => (e.1, .integer e.2)))])
  nonce := nonce

/-! ## Contexts to publish -/

def publishable (m : Manager) : Record :=
  m.effectiveState.retain fun context _ => context ∈ m.publishableContextIds

/-- The contexts of a single slot, if the channel keys fit. -/
def currentContexts (m : Manager) : Option Record :=
  let contexts := assignAll ∅ m.publishable.pairs
  let trimmed := trimContextsToBudget contexts m.clientId readStateMaxPlaintextBytes
  if trimmed.fitsAfterTrim then some trimmed.contexts else none

/-- The contexts of each slot, and the manager with the new slots; `drawn` are new slot ids. -/
def splitContextsIntoSlots (m : Manager) (drawn : List Text) :
    Option (List (Text × Record) × Manager) :=
  let channelEntries := m.publishable.pairs.filter fun e => !isPrunableContextKey e.1
  let threadMsgEntries := m.publishable.pairs.filter fun e => isPrunableContextKey e.1
  let allSlotIds := m.slotId :: m.extraSlotIds
  match splitContextsIntoBudgetedSlots channelEntries threadMsgEntries m.clientId
      allSlotIds.length readStateMaxSlots readStateMaxPlaintextBytes with
  | none => none
  | some slots =>
      let extra := drawn.take (slots.length - allSlotIds.length)
      some ((allSlotIds ++ extra).zip slots, { m with extraSlotIds := m.extraSlotIds ++ extra })

def isIdenticalToLastPublished (m : Manager) (contexts : Record) : Bool :=
  m.lastPublishedContexts.entries.length = contexts.entries.length &&
    contexts.pairs.all fun e => m.lastPublishedContexts.lookup e.1 = some e.2

end Manager

/-! ## Asynchronous calls -/

/-- What an asynchronous call of the manager waits for: `handleIncomingEvent` for a decryption;
`fetchEvents`, before a publish if `cycle` is set and on initialization otherwise; `mergeEvents` for
the decryption and `deleteExtraSlots` for the deletion of the first of `rest`; `publishOneSlot` for
the encryption and the signature of the first of `rest`, and then for the answer of the relay. -/
inductive Task where
  | incoming (event : Event)
  | fetching (cycle : Bool)
  | merging (cycle : Bool) (events rest : List Event) (own : Manager.OwnBlobs)
  | deleting (rest : List Text) (contexts : Record)
  | publishing (rest : List (Text × Record))
  | confirming (slotId : Text) (contexts : Record) (event : Event) (rest : List (Text × Record))
  | finished

/-- An answer: the fetched events, if the fetch succeeded, whether the call did, and what is drawn
(new slot ids) or read from the clock when it is handled. -/
structure Reply where
  events : Option (List Event)
  ok : Bool
  now : Nat
  nonce : Nat
  drawn : List Text

namespace Manager

/-- Go on with the slots that are left. -/
def publishNext (rest : List (Text × Record)) : Task :=
  if rest.isEmpty then .finished else .publishing rest

/-- The single-slot end of `publish`. -/
def publishSingle (m : Manager) (contexts : Record) : Task :=
  if m.isIdenticalToLastPublished contexts then .finished
  else .publishing [(m.slotId, contexts)]

/-- `publishSplitSlots` up to its first `await`. -/
def publishSplitSlots (m : Manager) (storage : Storage) (drawn : List Text) :
    Manager × Storage × Task :=
  match m.splitContextsIntoSlots drawn with
  | none => (m, storage, .finished)
  | some (slots, split) =>
      let storage :=
        if split.extraSlotIds.length ≠ m.extraSlotIds.length then
          { storage with extraSlotIds := split.extraSlotIds }
        else storage
      if split.isIdenticalToLastPublished (unionContexts (slots.map Prod.snd)) then
        (split, storage, .finished)
      else ({ split with lastPublishedContexts := ∅ }, storage, publishNext slots)

/-- `publish` between the fetch and the next `await`. -/
def build (m : Manager) (storage : Storage) (r : Reply) : Manager × Storage × Task :=
  if m.destroyed then (m, storage, .finished)
  else
    let (m, storage) := m.flushLocalState storage r.now
    match m.currentContexts with
    | none => m.publishSplitSlots storage r.drawn
    | some contexts =>
        if m.extraSlotIds = [] then (m, storage, m.publishSingle contexts)
        else (m, storage, .deleting m.extraSlotIds contexts)

/-- One slot is deleted, or its deletion has failed. -/
def afterDelete (m : Manager) (storage : Storage) (rest : List Text) (contexts : Record) :
    Manager × Storage × Task :=
  if rest = [] then
    let m := { m with extraSlotIds := [], lastPublishedContexts := ∅ }
    (m, { storage with extraSlotIds := [] }, m.publishSingle contexts)
  else (m, storage, .deleting rest contexts)

/-- `publishOneSlot` up to the answer of the relay. -/
def publishOneSlot (m : Manager) (slotId : Text) (contexts : Record) (r : Reply) :
    Manager × Event :=
  let event := m.slotEvent slotId contexts (max r.now (m.maxFetchedCreatedAt + 1)) r.nonce
  (m.rememberPublishedId event, event)

/-- The relay has accepted the event of a slot. -/
def confirm (m : Manager) (contexts : Record) (event : Event) : Manager :=
  { (m.seeCreatedAt event.createdAt) with
    contextSourceCreatedAt := m.contextSourceCreatedAt.setAll
      ((contexts.pairs.filter fun e => m.lastPublishedContexts.lookup e.1 ≠ some e.2).map
        fun e => (e.1, event.createdAt))
    lastPublishedContexts := m.lastPublishedContexts.setAll contexts.pairs }

end Manager

/-- The manager handles the answer that a call waits for. -/
def Task.resume (m : Manager) (storage : Storage) (r : Reply) : Task → Manager × Storage × Task
  | .incoming event => (m.receive event, storage, .finished)
  | .fetching cycle =>
      match r.events with
      | some events =>
          if m.destroyed then (m, storage, .finished)
          else (m, storage, .merging cycle events events ∅)
      | none => if cycle then m.build storage r else (m, storage, .finished)
  | .merging cycle events (event :: rest) own =>
      if m.destroyed then (m, storage, .finished)
      else
        let (m, own) := m.mergeEvent own event
        (m, storage, .merging cycle events rest own)
  | .merging cycle events [] own =>
      if m.destroyed then (m, storage, .finished)
      else
        let (m, storage) := m.finishMerge storage events own (r.drawn.headD [])
        if cycle then m.persistLocalState.build storage { r with drawn := r.drawn.tail }
        else (m.persistLocalState, storage, .finished)
  | .deleting (_ :: rest) contexts => m.afterDelete storage rest contexts
  | .deleting [] contexts => m.afterDelete storage [] contexts
  | .publishing ((slotId, contexts) :: rest) =>
      if r.ok then
        let (m, event) := m.publishOneSlot slotId contexts r
        (m, storage, .confirming slotId contexts event rest)
      else (m, storage, Manager.publishNext rest)
  | .publishing [] => (m, storage, .finished)
  | .confirming _ contexts event rest =>
      (if r.ok then m.confirm contexts event else m, storage, Manager.publishNext rest)
  | .finished => (m, storage, .finished)

/-- `handleIncomingEvent` up to its `await`: an echo of an own event is dropped unread. -/
def Manager.handleIncomingEvent (m : Manager) (event : Event) : Manager × Task :=
  if m.destroyed ∨ event.pubkey ≠ m.pubkey then (m, .finished)
  else if event ∈ m.recentlyPublishedIds then
    ({ m with recentlyPublishedIds := m.recentlyPublishedIds.erase event }, .finished)
  else (m, .incoming event)

end ReadState
end Desktop
end Maju
