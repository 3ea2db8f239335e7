import Maju.Lib.HashMap
import Maju.Lib.Run
import Maju.Core.Nostr

/-!
# Transactions — reaction rows and the events they come from

A reaction is stored twice: as a `kind:7` event and as a row of `reactions`, keyed by the target,
the actor and the emoji, that names the event.  The row is reactivated in place when the actor
reacts again after a removal; the event is inserted under its own id and a conflict is ignored.

* `insertReaction` — one transaction: read the target, upsert the row, insert the event;
* `softDelete`, `removeReaction` — the two transactions that delete a reaction;
* `Store.step`, `Store.run` — any interleaving of them, in one community.

The upserted row stays locked until the commit, so the writes of an insertion are one step; its
read of the target is an earlier step.
-/

namespace Maju
namespace Db
namespace Reactions

open Lib Core

/-! ## Rows -/

/-- What a `kind:7` event says: its last `e` tag, its effective author and its content. -/
structure Reaction where
  targetEventId : EventId
  actorPubkey : PublicKey
  emoji : String
  deriving DecidableEq, Repr

/-- The content of a signed event, as far as reactions depend on it; `reaction` is present on
`kind:7` events. -/
structure Content where
  createdAt : Int
  reaction : Option Reaction
  deriving DecidableEq, Repr

/-- The signed events in the world: an id is the hash of one content. -/
abbrev World := EventId → Content

/-- A row of `events`, under its id. -/
structure EventRow where
  createdAt : Int
  deleted : Bool
  deriving DecidableEq, Repr

/-- The primary key of `reactions`. -/
structure RowKey where
  eventCreatedAt : Int
  eventId : EventId
  pubkey : PublicKey
  emoji : String
  deriving DecidableEq, Repr

/-- A row of `reactions`, under its key. -/
structure ReactionRow where
  reactionEventId : EventId
  removed : Bool
  deriving DecidableEq, Repr

/-- A transaction that has read its target. -/
structure Begun where
  eventId : EventId
  key : RowKey
  deriving DecidableEq, Repr

/-- The tables, the transactions that have read their target, and the deletions whose event is
deleted and whose row is not yet removed. -/
structure Store where
  events : HashMap EventId EventRow
  reactions : HashMap RowKey ReactionRow
  begun : List Begun
  deleting : List EventId

def Store.empty : Store where
  events := ∅
  reactions := ∅
  begun := []
  deleting := []

/-- `ReactionEventInsertOutcome`, or the error of a statement. -/
inductive Outcome where
  | targetMissing
  | duplicate
  | inserted (wasInserted : Bool)
  | failed
  deriving DecidableEq, Repr

/-! ## Statements -/

/-- `VARCHAR(66)`. -/
def maxEmojiLength : Nat := 66

def RowKey.ofReaction (targetCreatedAt : Int) (r : Reaction) : RowKey :=
  ⟨targetCreatedAt, r.targetEventId, r.actorPubkey, r.emoji⟩

def active (reactions : HashMap RowKey ReactionRow) (key : RowKey) : Bool :=
  (reactions.lookup key).any fun row => !row.removed

/-- The unique index on `reaction_event_id`: another row names the event. -/
def sourceTaken (reactions : HashMap RowKey ReactionRow) (key : RowKey) (eventId : EventId) :
    Bool :=
  reactions.entries.any fun e => decide (e.1 ≠ key) && decide (e.2.reactionEventId = eventId)

/-- `add_reaction_tx`: `none` if the statement fails, else the rows and whether one was written. -/
def addReaction (reactions : HashMap RowKey ReactionRow) (key : RowKey) (eventId : EventId) :
    Option (HashMap RowKey ReactionRow × Bool) :=
  if maxEmojiLength < key.emoji.toList.length then none
  else if active reactions key then some (reactions, false)
  else if sourceTaken reactions key eventId then none
  else some (reactions.insert key ⟨eventId, false⟩, true)

/-- `INSERT INTO events … ON CONFLICT DO NOTHING`. -/
def insertEvent (w : World) (events : HashMap EventId EventRow) (eventId : EventId) :
    HashMap EventId EventRow × Bool :=
  if eventId ∈ events then (events, false)
  else (events.insert eventId ⟨(w eventId).createdAt, false⟩, true)

/-- The time of a stored event that is not deleted. -/
def liveCreatedAt (events : HashMap EventId EventRow) (eventId : EventId) : Option Int :=
  match events.lookup eventId with
  | none => none
  | some row => if row.deleted then none else some row.createdAt

def removeReactionBySourceEventId (reactions : HashMap RowKey ReactionRow) (eventId : EventId) :
    HashMap RowKey ReactionRow × Bool :=
  let hit : ReactionRow → Bool := fun row =>
    decide (row.reactionEventId = eventId) && !row.removed
  (HashMap.mapValues (fun _ row => if hit row then { row with removed := true } else row) reactions,
    reactions.entries.any fun e => hit e.2)

def removeReaction (reactions : HashMap RowKey ReactionRow) (key : RowKey) :
    HashMap RowKey ReactionRow :=
  match reactions.lookup key with
  | none => reactions
  | some row => reactions.insert key { row with removed := true }

/-! ## Transactions -/

namespace Store

/-- The first statement of `insert_reaction_event_with_thread_metadata`, called with the parts of
a `kind:7` event. -/
def selectTarget (w : World) (s : Store) (eventId : EventId) : Store × Option Outcome :=
  match (w eventId).reaction with
  | none => (s, none)
  | some r =>
      match liveCreatedAt s.events r.targetEventId with
      | none => (s, some .targetMissing)
      | some createdAt =>
          ({ s with begun := s.begun ++ [⟨eventId, RowKey.ofReaction createdAt r⟩] }, none)

/-- The rest of the transaction: the row, then the event, then the commit.  An active row rolls
the transaction back. -/
def insertReaction (w : World) (s : Store) (t : Begun) : Store × Outcome :=
  match addReaction s.reactions t.key t.eventId with
  | none => (s, .failed)
  | some (_, false) => (s, .duplicate)
  | some (reactions, true) =>
      let inserted := insertEvent w s.events t.eventId
      ({ s with reactions := reactions, events := inserted.1 }, .inserted inserted.2)

/-- `soft_delete_event_and_update_thread`, as the first half of the deletion of a reaction. -/
def softDelete (w : World) (s : Store) (eventId : EventId) : Store :=
  match s.events.lookup eventId with
  | none => s
  | some row =>
      if row.deleted then s
      else
        { s with
          events := s.events.insert eventId { row with deleted := true }
          deleting :=
            if (w eventId).reaction.isSome then s.deleting ++ [eventId] else s.deleting }

/-- The second half: the row that names the event, else the row of its target, actor and emoji. -/
def removeRow (w : World) (s : Store) (eventId : EventId) : Store :=
  let bySource := removeReactionBySourceEventId s.reactions eventId
  if bySource.2 then { s with reactions := bySource.1 }
  else
    match (w eventId).reaction with
    | none => s
    | some r =>
        match liveCreatedAt s.events r.targetEventId with
        | none => s
        | some createdAt =>
            { s with reactions := removeReaction s.reactions (RowKey.ofReaction createdAt r) }

/-! ## Interleavings -/

/-- One step: another write path stores an event that is no reaction, an insertion reads its
target, an insertion that did finishes or is aborted, a deletion runs its first or its second
half. -/
inductive Step where
  | store (eventId : EventId)
  | select (eventId : EventId)
  | finish (i : Nat)
  | abort (i : Nat)
  | delete (eventId : EventId)
  | remove (i : Nat)
  deriving DecidableEq, Repr

def step (w : World) (s : Store) : Step → Store
  | .store eventId =>
      if (w eventId).reaction.isSome then s
      else { s with events := (insertEvent w s.events eventId).1 }
  | .select eventId => (s.selectTarget w eventId).1
  | .finish i =>
      match s.begun[i]? with
      | none => s
      | some t => ({ s with begun := s.begun.eraseIdx i }.insertReaction w t).1
  | .abort i => { s with begun := s.begun.eraseIdx i }
  | .delete eventId => s.softDelete w eventId
  | .remove i =>
      match s.deleting[i]? with
      | none => s
      | some eventId => { s with deleting := s.deleting.eraseIdx i }.removeRow w eventId

def run (w : World) (steps : List Step) : Store := Run.run (step w) empty steps

end Store

end Reactions
end Db
end Maju
