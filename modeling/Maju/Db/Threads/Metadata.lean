import Maju.Db.Rows
import Maju.Lib.Run

/-!
# Metadata — thread rows and their reply counters

An event that is stored as a reply gets a row of `thread_metadata` that names its parent and its
root, and the counters of those two rows go up; a soft delete takes them down again.  The rows of
the parent and the root are made on demand.  A committed transaction is one step here: the keys it
inserts and the rows it updates are locked until its commit, so what it saw still holds then.

* `insertEventWithThreadMetadata` — one transaction that stores an event;
* `softDeleteEventAndUpdateThread` — one transaction that deletes one;
* `Store.step`, `Store.run` — histories of both.
-/

namespace Maju
namespace Db
namespace Threads

open Lib Core

/-! ## Rows -/

/-- A row of `events`, by the columns that threads depend on. -/
structure EventRow where
  communityId : CommunityId
  id : EventId
  createdAt : Int
  deleted : Bool
  deriving DecidableEq, Repr

structure ThreadMetadataParams where
  eventId : EventId
  eventCreatedAt : Int
  channelId : Uuid
  parentEventId : Option EventId
  parentEventCreatedAt : Option Int
  rootEventId : Option EventId
  rootEventCreatedAt : Option Int
  depth : Int
  broadcast : Bool
  deriving DecidableEq, Repr

/-- A row of `thread_metadata`. -/
structure ThreadRow where
  communityId : CommunityId
  eventCreatedAt : Int
  eventId : EventId
  channelId : Uuid
  parentEventId : Option EventId
  parentEventCreatedAt : Option Int
  rootEventId : Option EventId
  rootEventCreatedAt : Option Int
  depth : Int
  replyCount : Int
  descendantCount : Int
  lastReplyAt : Option Int
  broadcast : Bool
  deriving DecidableEq, Repr

/-- The event of a row, in its community. -/
def ThreadRow.key (t : ThreadRow) : CommunityId × EventId := (t.communityId, t.eventId)

def EventRow.key (e : EventRow) : CommunityId × EventId := (e.communityId, e.id)

/-- The row that a reply brings with it. -/
def ThreadMetadataParams.row (m : ThreadMetadataParams) (communityId : CommunityId) : ThreadRow where
  communityId := communityId
  eventCreatedAt := m.eventCreatedAt
  eventId := m.eventId
  channelId := m.channelId
  parentEventId := m.parentEventId
  parentEventCreatedAt := m.parentEventCreatedAt
  rootEventId := m.rootEventId
  rootEventCreatedAt := m.rootEventCreatedAt
  depth := m.depth
  replyCount := 0
  descendantCount := 0
  lastReplyAt := none
  broadcast := m.broadcast

/-- The row that is made for a parent or a root without one. -/
def ThreadRow.stub (communityId : CommunityId) (createdAt : Int) (eventId : EventId)
    (channelId : Uuid) : ThreadRow where
  communityId := communityId
  eventCreatedAt := createdAt
  eventId := eventId
  channelId := channelId
  parentEventId := none
  parentEventCreatedAt := none
  rootEventId := none
  rootEventCreatedAt := none
  depth := 0
  replyCount := 0
  descendantCount := 0
  lastReplyAt := none
  broadcast := false

/-! ## Statements -/

/-- `INSERT INTO events … ON CONFLICT DO NOTHING`, on the key of community, time and id. -/
def insertEvent (events : List EventRow) (e : EventRow) : List EventRow × Bool :=
  if events.any fun r => r.key = e.key && r.createdAt = e.createdAt then (events, false)
  else (events ++ [e], true)

/-- `INSERT INTO thread_metadata … ON CONFLICT DO NOTHING`. -/
def insertThread (threads : List ThreadRow) (t : ThreadRow) : List ThreadRow × Bool :=
  if threads.any fun r => r.key = t.key && r.eventCreatedAt = t.eventCreatedAt then (threads, false)
  else (threads ++ [t], true)

/-- An update of the rows of an event. -/
def updateThread (threads : List ThreadRow) (key : CommunityId × EventId)
    (f : ThreadRow → ThreadRow) : List ThreadRow :=
  threads.map fun t => if t.key = key then f t else t

def ThreadRow.addReply (now : Int) (t : ThreadRow) : ThreadRow :=
  { t with replyCount := t.replyCount + 1, lastReplyAt := some now }

def ThreadRow.addDescendant (t : ThreadRow) : ThreadRow :=
  { t with descendantCount := t.descendantCount + 1 }

/-- `reply_count = GREATEST(reply_count - 1, 0)`. -/
def ThreadRow.dropReply (t : ThreadRow) : ThreadRow :=
  { t with replyCount := max (t.replyCount - 1) 0 }

/-- `descendant_count = GREATEST(descendant_count - 1, 0)`. -/
def ThreadRow.dropDescendant (t : ThreadRow) : ThreadRow :=
  { t with descendantCount := max (t.descendantCount - 1) 0 }

/-- The counters fit their columns; otherwise the update fails. -/
def countersFit (threads : List ThreadRow) : Bool :=
  threads.all fun t => decide (t.replyCount < 2 ^ 31) && decide (t.descendantCount < 2 ^ 31)

/-! ## Transactions -/

structure Store where
  events : List EventRow
  threads : List ThreadRow
  deriving DecidableEq, Repr

inductive DbError where
  | authEventRejected
  | ephemeralEventRejected (kind : Kind)
  | invalidTimestamp (secs : Int)
  | counterOutOfRange
  deriving DecidableEq, Repr

/-- The rows after the row of a reply is in: rows for its parent and root, and their counters. -/
def countReply (threads : List ThreadRow) (communityId : CommunityId) (m : ThreadMetadataParams)
    (now : Int) : List ThreadRow :=
  match m.parentEventId with
  | none => threads
  | some parent =>
      let parentTs := m.parentEventCreatedAt.getD m.eventCreatedAt
      let threads := (insertThread threads (.stub communityId parentTs parent m.channelId)).1
      match m.rootEventId with
      | none => updateThread threads (communityId, parent) (·.addReply now)
      | some root =>
          let threads :=
            if root ≠ parent then
              let rootTs := m.rootEventCreatedAt.getD m.eventCreatedAt
              (insertThread threads (.stub communityId rootTs root m.channelId)).1
            else threads
          let threads := updateThread threads (communityId, parent) (·.addReply now)
          updateThread threads (communityId, root) (·.addDescendant)

/-- The row of a stored event, and what follows from it. -/
def insertThreadMetadata (threads : List ThreadRow) (communityId : CommunityId)
    (m : ThreadMetadataParams) (now : Int) : List ThreadRow :=
  let (threads, inserted) := insertThread threads (m.row communityId)
  if inserted then countReply threads communityId m now else threads

/-- `insert_event_with_thread_metadata_tx`; says whether the event was inserted. -/
def insertEventWithThreadMetadata (s : Store) (communityId : CommunityId) (event : Event)
    (threadMeta : Option ThreadMetadataParams) (now : Int) : Except DbError (Store × Bool) :=
  if eventKindU32 event = kindAuth then .error .authEventRejected
  else if isEphemeral (eventKindU32 event) then .error (.ephemeralEventRejected event.kind)
  else
    match fromTimestamp (asI64 event.createdAt) with
    | none => .error (.invalidTimestamp (asI64 event.createdAt))
    | some createdAt =>
        let (events, wasInserted) := insertEvent s.events ⟨communityId, event.id, createdAt, false⟩
        if wasInserted then
          match threadMeta with
          | none => .ok (⟨events, s.threads⟩, true)
          | some m =>
              let threads := insertThreadMetadata s.threads communityId m now
              if countersFit threads then .ok (⟨events, threads⟩, true)
              else .error .counterOutOfRange
        else .ok (s, false)

/-- The event is undeleted and has the id. -/
def EventRow.live (e : EventRow) (key : CommunityId × EventId) : Bool :=
  decide (e.key = key) && !e.deleted

/-- The rows after a delete took the counters down. -/
def uncountReply (threads : List ThreadRow) (communityId : CommunityId)
    (parentEventId rootEventId : Option EventId) : List ThreadRow :=
  match parentEventId with
  | none => threads
  | some parent =>
      let threads := updateThread threads (communityId, parent) (·.dropReply)
      match rootEventId with
      | none => threads
      | some root => updateThread threads (communityId, root) (·.dropDescendant)

/-- `soft_delete_event_and_update_thread`; says whether the event was deleted by this call. -/
def softDeleteEventAndUpdateThread (s : Store) (communityId : CommunityId) (eventId : EventId)
    (parentEventId rootEventId : Option EventId) : Store × Bool :=
  let key := (communityId, eventId)
  if s.events.any (·.live key) then
    (⟨s.events.map fun e => if e.live key then { e with deleted := true } else e,
      uncountReply s.threads communityId parentEventId rootEventId⟩, true)
  else (s, false)

/-! ## Histories -/

inductive Input where
  | insert (communityId : CommunityId) (event : Event) (threadMeta : Option ThreadMetadataParams)
      (now : Int)
  | softDelete (communityId : CommunityId) (eventId : EventId)
      (parentEventId rootEventId : Option EventId)

namespace Store

def empty : Store := ⟨[], []⟩

/-- A failed transaction is rolled back. -/
def step (s : Store) : Input → Store
  | .insert communityId event threadMeta now =>
      match insertEventWithThreadMetadata s communityId event threadMeta now with
      | .ok (s, _) => s
      | .error _ => s
  | .softDelete communityId eventId parentEventId rootEventId =>
      (softDeleteEventAndUpdateThread s communityId eventId parentEventId rootEventId).1

def run (inputs : List Input) : Store := Run.run step empty inputs

end Store

end Threads
end Db
end Maju
