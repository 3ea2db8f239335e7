import Maju.Db.Query
import Maju.Pubsub.Topic
import Maju.Relay.Read.Gates
import Maju.Relay.Subscription.Registry

/-!
# Surfaces — live delivery on one pod

An event reaches the local subscriptions of a pod on three ways: the ingesting pod dispatches it
after the commit, another pod receives it from Redis, and the relay's own events are fanned out
directly.  All three match the registry and pass the matches through `filter_fanout_by_access`;
only the dispatch restricts the owner-only kinds to their owner.
-/

namespace Maju
namespace Relay

open Lib Core Db Pubsub

/-- A matching subscription and its connection. -/
abbrev Recipient := ConnId × SubId

/-- `ThreadedChannelVisibility`: a visibility read earlier in the same request. -/
structure ThreadedChannelVisibility where
  communityId : CommunityId
  channelId : Uuid
  visibility : String

/-- What a pod looks up while it delivers; `pubkeyForConn` is the key that the connection is
authenticated as. -/
structure PodLookups where
  communityForConn : ConnId → Option CommunityId
  pubkeyForConn : ConnId → Option PublicKey
  channelVisibilityCached : CommunityId → Uuid → Except DbError String
  isMemberCached : CommunityId → Uuid → PublicKey → Except DbError Bool

/-! ## The access filter -/

/-- The visibility of a channel: a threaded value counts only for the same community and
channel. -/
def PodLookups.visibilityFor (pod : PodLookups) (communityId : CommunityId) (channelId : Uuid)
    (threaded : Option ThreadedChannelVisibility) : Except DbError String :=
  match threaded with
  | some t =>
      if t.communityId = communityId ∧ t.channelId = channelId then .ok t.visibility
      else pod.channelVisibilityCached communityId channelId
  | none => pod.channelVisibilityCached communityId channelId

/-- The connection is authenticated as a member of the channel. -/
def PodLookups.memberConn (pod : PodLookups) (communityId : CommunityId) (channelId : Uuid)
    (connId : ConnId) : Bool :=
  (pod.pubkeyForConn connId).any fun pubkey =>
    match pod.isMemberCached communityId channelId pubkey with
    | .ok member => member
    | .error _ => false

def filterFanoutByAccess (pod : PodLookups) (communityId : CommunityId) (stored : StoredEvent)
    (recipients : List Recipient) (threaded : Option ThreadedChannelVisibility) :
    List Recipient :=
  let recipients := recipients.filter fun m =>
    decide (pod.communityForConn m.1 = some communityId)
  let recipients :=
    if eventKindU32 stored.event ∈ authorOnlyKinds then
      recipients.filter fun m =>
        (pod.pubkeyForConn m.1).any fun pk => decide (pk = stored.event.pubkey)
    else recipients
  let recipients :=
    if isSharedGatedKind (eventKindU32 stored.event) then
      recipients.filter fun m =>
        (pod.pubkeyForConn m.1).any fun pk =>
          decide (pk = stored.event.pubkey) || !isUnsharedGatedEvent stored.event pk
    else recipients
  match stored.channelId with
  | none => recipients
  | some channelId =>
      match pod.visibilityFor communityId channelId threaded with
      | .error _ => []
      | .ok v =>
          if v ≠ "private" then recipients
          else recipients.filter fun m => pod.memberConn communityId channelId m.1

/-! ## The surfaces -/

/-- `fan_out_event_to_local_subscribers`, by its recipients. -/
def fanOutEventToLocalSubscribers (pod : PodLookups) (reg : SubscriptionRegistry)
    (communityId : CommunityId) (stored : StoredEvent) : List Recipient :=
  filterFanoutByAccess pod communityId stored (reg.fanOutScoped communityId stored) none

/-- `maju_pubsub::ChannelEvent`. -/
structure ChannelEvent where
  communityId : CommunityId
  topic : EventTopic
  event : Event

/-- The event with the channel that its topic stands for. -/
def ChannelEvent.stored (ce : ChannelEvent) : StoredEvent :=
  ⟨ce.event, match ce.topic with
    | .channel id => some id
    | .global => none⟩

/-- `local_event_ids`: the events that this pod dispatched itself. -/
abbrev LocalEventIds := List (CommunityId × EventId)

/-- `fan_out_pubsub_event`: an echo of an own event is dropped, and forgotten. -/
def fanOutPubsubEvent (pod : PodLookups) (reg : SubscriptionRegistry)
    (localEventIds : LocalEventIds) (ce : ChannelEvent) : LocalEventIds × List Recipient :=
  let echoKey := (ce.communityId, ce.event.id)
  if echoKey ∈ localEventIds then (localEventIds.filter fun key => decide (key ≠ echoKey), [])
  else
    (localEventIds,
      filterFanoutByAccess pod ce.communityId ce.stored
        (reg.fanOutScoped ce.communityId ce.stored) none)

/-- The owner of an event of an owner-only kind: the content of the first `p` tag that has one. -/
def privateEventOwner (event : Event) : Option String :=
  if eventKindU32 event = kindDmVisibility ∨ eventKindU32 event = kindAgentTurnMetric then
    (event.tags.filter fun t => t.kind = "p").findSome? Tag.content
  else none

def eventTopic (stored : StoredEvent) : EventTopic :=
  match stored.channelId with
  | some channelId => .channel channelId
  | none => .global

/-- What a dispatch leaves behind. -/
structure Dispatched where
  localEventIds : LocalEventIds
  published : Option ChannelEvent
  recipients : List Recipient

/-- `dispatch_persistent_event_inner`; `publishes` says whether Redis takes the event. -/
def dispatchPersistentEventInner (pod : PodLookups) (reg : SubscriptionRegistry)
    (localEventIds : LocalEventIds) (communityId : CommunityId) (stored : StoredEvent)
    (threaded : Option ThreadedChannelVisibility) (publishes : Bool) : Dispatched :=
  let echoKey := (communityId, stored.event.id)
  let reached :=
    filterFanoutByAccess pod communityId stored (reg.fanOutScoped communityId stored) threaded
  { localEventIds :=
      if publishes then echoKey :: localEventIds
      else localEventIds.filter fun key => decide (key ≠ echoKey)
    published :=
      if publishes then some ⟨communityId, eventTopic stored, stored.event⟩ else none
    recipients := reached.filter fun m =>
      (privateEventOwner stored.event).all fun owner =>
        (pod.pubkeyForConn m.1).any fun pk => decide (toHex pk = owner) }

/-! ## What passes the access filter -/

section Access

variable {pod : PodLookups} {communityId : CommunityId} {stored : StoredEvent}
  {threaded : Option ThreadedChannelVisibility} {connId : ConnId}

/-- The conditions on a connection, one for each stage of the filter. -/
def accessPasses (pod : PodLookups) (communityId : CommunityId) (stored : StoredEvent)
    (threaded : Option ThreadedChannelVisibility) (connId : ConnId) : Bool :=
  decide (pod.communityForConn connId = some communityId) &&
    (!decide (eventKindU32 stored.event ∈ authorOnlyKinds) ||
      (pod.pubkeyForConn connId).any fun pk => decide (pk = stored.event.pubkey)) &&
    (!isSharedGatedKind (eventKindU32 stored.event) ||
      (pod.pubkeyForConn connId).any fun pk =>
        decide (pk = stored.event.pubkey) || !isUnsharedGatedEvent stored.event pk) &&
    stored.channelId.all fun channelId =>
      (pod.visibilityFor communityId channelId threaded).toOption.any fun v =>
        decide (v ≠ "private") || pod.memberConn communityId channelId connId

theorem filterFanoutByAccess_eq (recipients : List Recipient) :
    filterFanoutByAccess pod communityId stored recipients threaded =
      recipients.filter fun m => accessPasses pod communityId stored threaded m.1 := by
  unfold filterFanoutByAccess
  dsimp only
  have hauthor : ∀ l : List Recipient,
      (if eventKindU32 stored.event ∈ authorOnlyKinds then
          l.filter fun m => (pod.pubkeyForConn m.1).any fun pk => decide (pk = stored.event.pubkey)
        else l) =
      l.filter fun m => !decide (eventKindU32 stored.event ∈ authorOnlyKinds) ||
        (pod.pubkeyForConn m.1).any fun pk => decide (pk = stored.event.pubkey) := by
    intro l
    split <;> simp [*]
  have hshared : ∀ l : List Recipient,
      (if isSharedGatedKind (eventKindU32 stored.event) then
          l.filter fun m => (pod.pubkeyForConn m.1).any fun pk =>
            decide (pk = stored.event.pubkey) || !isUnsharedGatedEvent stored.event pk
        else l) =
      l.filter fun m => !isSharedGatedKind (eventKindU32 stored.event) ||
        (pod.pubkeyForConn m.1).any fun pk =>
          decide (pk = stored.event.pubkey) || !isUnsharedGatedEvent stored.event pk := by
    intro l
    split <;> simp [*]
  have hchannel : ∀ l : List Recipient,
      (match stored.channelId with
        | none => l
        | some channelId =>
            match pod.visibilityFor communityId channelId threaded with
            | .error _ => []
            | .ok v =>
                if v ≠ "private" then l
                else l.filter fun m => pod.memberConn communityId channelId m.1) =
      l.filter fun m => stored.channelId.all fun channelId =>
        (pod.visibilityFor communityId channelId threaded).toOption.any fun v =>
          decide (v ≠ "private") || pod.memberConn communityId channelId m.1 := by
    intro l
    cases stored.channelId with
    | none => simp
    | some channelId =>
        cases hv : pod.visibilityFor communityId channelId threaded with
        | error e => simp [hv, Except.toOption]
        | ok v => by_cases hp : v = "private" <;> simp [hv, Except.toOption, hp]
  rw [hauthor, hshared, hchannel, List.filter_filter, List.filter_filter, List.filter_filter]
  refine List.filter_congr ?_
  intro m _
  unfold accessPasses
  ac_rfl

end Access

end Relay
end Maju
