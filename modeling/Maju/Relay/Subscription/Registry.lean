import Maju.Lib.Index
import Maju.Core.Filter

/-!
# Registry — the subscription registry and its fan-out indexes

`SubscriptionRegistry` keeps every live subscription under its connection, and files it in one
of five inverted indexes, chosen by the shape of its scope and filters:

| scope    | filters                               | index                    |
|----------|---------------------------------------|--------------------------|
| channels | every filter names kinds              | `channelKindIndex`       |
| channels | some filter names no kinds            | `channelWildcardIndex`   |
| global   | every filter names kinds and `#p`     | `globalPKindIndex`       |
| global   | every filter names kinds              | `globalKindIndex`        |
| global   | some filter names no kinds            | `globalWildcardIndex`    |

Each call of the source is one function on the whole registry.  Calls that iterate over a hash
map take the iteration order as an argument.
-/

namespace Maju
namespace Relay

open Lib Core

abbrev ConnId := Uuid

/-- The client-supplied subscription id of a REQ message. -/
abbrev SubId := String

/-- `MAX_SUBSCRIPTIONS`: the subscriptions that one connection may have. -/
def maxSubscriptions : Nat := 1024

/-! ## Scopes and entries -/

/-- Server-resolved live-routing scope of a subscription. -/
inductive SubscriptionScope where
  | global
  | channels (channelIds : List Uuid)
  deriving DecidableEq, Repr

namespace SubscriptionScope

def matchesChannel : SubscriptionScope → Option Uuid → Bool
  | .global, none => true
  | .channels ids, some channelId => decide (channelId ∈ ids)
  | _, _ => false

/-- The channels retained by this routing scope. -/
def channelIds : SubscriptionScope → List Uuid
  | .global => []
  | .channels ids => ids

/-- Whether this routing scope retains the community-global topic. -/
def isGlobal : SubscriptionScope → Bool
  | .global => true
  | .channels _ => false

end SubscriptionScope

/-- Filters paired with the server-resolved community and scope. -/
structure SubEntry where
  filters : List Filter
  communityId : CommunityId
  scope : SubscriptionScope

structure IndexKey where
  channelId : Uuid
  kind : Kind
  deriving DecidableEq, Repr

structure GlobalPKindIndexKey where
  communityId : CommunityId
  kind : Kind
  p : String
  deriving DecidableEq, Repr

/-- A removed subscription's routing scope. -/
structure RemovedSubscription where
  communityId : CommunityId
  scope : SubscriptionScope
  deriving DecidableEq, Repr

/-- Result of removing one revoked channel from a live subscription scope. -/
structure ChannelSubscriptionUpdate where
  subId : SubId
  removed : Bool
  deriving DecidableEq, Repr

structure SubscriptionRegistry where
  subs : HashMap ConnId (HashMap SubId SubEntry)
  channelKindIndex : Index (CommunityId × IndexKey) (ConnId × SubId)
  channelWildcardIndex : Index (CommunityId × Uuid) (ConnId × SubId)
  globalKindIndex : Index (CommunityId × Kind) (ConnId × SubId)
  globalPKindIndex : Index GlobalPKindIndexKey (ConnId × SubId)
  globalWildcardIndex : Index CommunityId (ConnId × SubId)

/-! ## Index keys of a filter list -/

/-- The loop of `extract_kinds_from_filters`. -/
def extractKindsLoop : List Filter → List Kind → Option (List Kind)
  | [], kinds => some kinds
  | f :: fs, kinds =>
      match f.kinds with
      | some filterKinds => extractKindsLoop fs (filterKinds.toList.foldl insertNew kinds)
      | none => none

/-- The union of all `kinds`, or `none` if some filter names no kinds. -/
def extractKindsFromFilters (filters : List Filter) : Option (List Kind) :=
  extractKindsLoop filters []

/-- The keys that one filter with kinds and `#p` values contributes, in loop order. -/
def globalPKindKeys (communityId : CommunityId) (kinds : List Kind) (pValues : List String) :
    List GlobalPKindIndexKey :=
  kinds.flatMap fun kind => pValues.map fun p => ⟨communityId, kind, p⟩

/-- The loop of `extract_global_p_kind_index_keys`. -/
def extractGlobalPKindLoop (communityId : CommunityId) :
    List Filter → List GlobalPKindIndexKey → Option (List GlobalPKindIndexKey)
  | [], keys => some keys
  | f :: fs, keys =>
      match f.kinds with
      | none => none
      | some kinds =>
          if kinds.isEmpty then extractGlobalPKindLoop communityId fs keys
          else
            match f.genericTags.lookup SingleLetterTag.p with
            | none => none
            | some pValues =>
                if pValues.isEmpty then none
                else
                  extractGlobalPKindLoop communityId fs
                    ((globalPKindKeys communityId kinds.toList pValues.toList).foldl
                      insertNew keys)

def extractGlobalPKindIndexKeys (communityId : CommunityId) (filters : List Filter) :
    Option (List GlobalPKindIndexKey) :=
  extractGlobalPKindLoop communityId filters []

/-- `event_p_tag_values`: the distinct contents of the `p` tags. -/
def eventPTagValues (event : StoredEvent) : List String :=
  (tagValues event.event "p").foldl insertNew []

namespace SubscriptionRegistry

def new : SubscriptionRegistry where
  subs := ∅
  channelKindIndex := ∅
  channelWildcardIndex := ∅
  globalKindIndex := ∅
  globalPKindIndex := ∅
  globalWildcardIndex := ∅

/-! ## Filing in and withdrawing from the indexes

Registration and removal walk the same choice of index by the same tests and differ only in what
they do at each key, so the walk is written once. -/

/-- What is done at an index key: append the entry, or withdraw every copy of it. -/
inductive IndexUpdate where
  | push
  | drop
  deriving DecidableEq, Repr

/-- The update at one key of one index. -/
def IndexUpdate.apply {K : Type} [DecidableEq K] (update : IndexUpdate)
    (entry : ConnId × SubId) (ix : Index K (ConnId × SubId)) (k : K) :
    Index K (ConnId × SubId) :=
  match update with
  | .push => ix.push entry k
  | .drop => ix.drop entry k

/-- One channel of the loop over a channel scope. -/
def updateChannel (update : IndexUpdate) (entry : ConnId × SubId) (communityId : CommunityId)
    (filters : List Filter) (reg : SubscriptionRegistry) (chId : Uuid) : SubscriptionRegistry :=
  match extractKindsFromFilters filters with
  | none =>
      { reg with
        channelWildcardIndex :=
          update.apply entry reg.channelWildcardIndex (communityId, chId) }
  | some kinds =>
      -- `kinds: []` matches no kind, so such a subscription is filed nowhere.
      if kinds.isEmpty then reg
      else
        { reg with
          channelKindIndex :=
            (kinds.map fun kind => (communityId, ⟨chId, kind⟩)).foldl (update.apply entry)
              reg.channelKindIndex }

/-- The walk over all keys of a scope. -/
def updateScope (update : IndexUpdate) (entry : ConnId × SubId) (communityId : CommunityId)
    (filters : List Filter) (scope : SubscriptionScope) (reg : SubscriptionRegistry) :
    SubscriptionRegistry :=
  match scope with
  | .channels channelIds =>
      channelIds.foldl (updateChannel update entry communityId filters) reg
  | .global =>
      match extractGlobalPKindIndexKeys communityId filters with
      | some keys =>
          { reg with
            globalPKindIndex := keys.foldl (update.apply entry) reg.globalPKindIndex }
      | none =>
          match extractKindsFromFilters filters with
          | none =>
              { reg with
                globalWildcardIndex :=
                  update.apply entry reg.globalWildcardIndex communityId }
          | some kinds =>
              if kinds.isEmpty then reg
              else
                { reg with
                  globalKindIndex :=
                    (kinds.map fun kind => (communityId, kind)).foldl (update.apply entry)
                      reg.globalKindIndex }

/-- The index part of `register_with_scope`. -/
def addToIndex := updateScope .push

def removeFromIndex := updateScope .drop

/-! ## Removal -/

def removeSubscription (reg : SubscriptionRegistry) (connId : ConnId) (subId : SubId) :
    SubscriptionRegistry × Option RemovedSubscription :=
  match reg.subs.lookup connId with
  | none => (reg, none)
  | some connSubs =>
      match connSubs.lookup subId with
      | none => (reg, none)
      | some e =>
          let reg := { reg with subs := reg.subs.insert connId (connSubs.erase subId) }
          (removeFromIndex (connId, subId) e.communityId e.filters e.scope reg,
            some ⟨e.communityId, e.scope⟩)

def removeConnection (ord : IterOrder (Sigma fun _ : SubId => SubEntry))
    (reg : SubscriptionRegistry) (connId : ConnId) :
    SubscriptionRegistry × List RemovedSubscription :=
  match reg.subs.lookup connId with
  | none => (reg, [])
  | some connSubs =>
      let reg := { reg with subs := reg.subs.erase connId }
      let visited := ord.run connSubs.entries
      (visited.foldl
          (fun reg e =>
            removeFromIndex (connId, e.1) e.2.communityId e.2.filters e.2.scope reg) reg,
        visited.map fun e => ⟨e.2.communityId, e.2.scope⟩)

/-- One subscription of the revocation loop: drop the channel from the stored scope, withdraw
the channel's index entries, and remove the subscription when no channel is left. -/
def revokeChannel (communityId : CommunityId) (connId : ConnId) (channelId : Uuid)
    (acc : SubscriptionRegistry × List ChannelSubscriptionUpdate) (subId : SubId) :
    SubscriptionRegistry × List ChannelSubscriptionUpdate :=
  let (reg, updates) := acc
  match reg.subs.lookup connId with
  | none => acc
  | some connSubs =>
      match connSubs.lookup subId with
      | none => acc
      | some e =>
          match e.scope with
          | .global => acc
          | .channels channelIds =>
              let kept := channelIds.filter fun candidate => decide (candidate ≠ channelId)
              let removed := kept.isEmpty
              let connSubs :=
                if removed then connSubs.erase subId
                else connSubs.insert subId { e with scope := .channels kept }
              let reg := { reg with subs := reg.subs.insert connId connSubs }
              (removeFromIndex (connId, subId) communityId e.filters (.channels [channelId]) reg,
                updates ++ [⟨subId, removed⟩])

/-- The subscriptions of a connection that `remove_channel_subscriptions_scoped` visits. -/
def subIdsInChannel (ord : IterOrder (Sigma fun _ : SubId => SubEntry))
    (communityId : CommunityId) (channelId : Uuid) (connSubs : HashMap SubId SubEntry) :
    List SubId :=
  ((ord.run connSubs.entries).filter fun e =>
    decide (e.2.communityId = communityId) && decide (channelId ∈ e.2.scope.channelIds)).map
      Sigma.fst

def removeChannelSubscriptionsScoped (ord : IterOrder (Sigma fun _ : SubId => SubEntry))
    (reg : SubscriptionRegistry) (communityId : CommunityId) (connId : ConnId)
    (channelId : Uuid) : SubscriptionRegistry × List ChannelSubscriptionUpdate :=
  let subIds :=
    match reg.subs.lookup connId with
    | none => []
    | some connSubs => subIdsInChannel ord communityId channelId connSubs
  subIds.foldl (revokeChannel communityId connId channelId) (reg, [])

/-! ## Registration -/

def registerWithScope (reg : SubscriptionRegistry) (communityId : CommunityId) (connId : ConnId)
    (subId : SubId) (filters : List Filter) (scope : SubscriptionScope) :
    SubscriptionRegistry × Option RemovedSubscription :=
  let (reg, removed) := reg.removeSubscription connId subId
  let connSubs := (reg.subs.lookup connId).getD ∅
  let reg :=
    { reg with
      subs := reg.subs.insert connId (connSubs.insert subId ⟨filters, communityId, scope⟩) }
  (addToIndex (connId, subId) communityId filters scope reg, removed)

def registerScoped (reg : SubscriptionRegistry) (communityId : CommunityId) (connId : ConnId)
    (subId : SubId) (filters : List Filter) (channelId : Option Uuid) :
    SubscriptionRegistry × Option RemovedSubscription :=
  let scope :=
    match channelId with
    | some channelId => SubscriptionScope.channels [channelId]
    | none => SubscriptionScope.global
  reg.registerWithScope communityId connId subId filters scope

def registerChannelsScoped (reg : SubscriptionRegistry) (communityId : CommunityId)
    (connId : ConnId) (subId : SubId) (filters : List Filter) (channelIds : List Uuid) :
    SubscriptionRegistry × Option RemovedSubscription :=
  reg.registerWithScope communityId connId subId filters (.channels channelIds)

/-! ## Lookups -/

def entry (reg : SubscriptionRegistry) (connId : ConnId) (subId : SubId) : Option SubEntry :=
  (reg.subs.lookup connId).bind fun connSubs => connSubs.lookup subId

def totalSubscriptions (reg : SubscriptionRegistry) : Nat :=
  HashMap.total (fun _ connSubs => connSubs.entries.length) reg.subs

/-- The checks of `push_match` on one candidate. -/
def candidateMatches (reg : SubscriptionRegistry) (communityId : CommunityId)
    (event : StoredEvent) (candidate : ConnId × SubId) : Bool :=
  match reg.entry candidate.1 candidate.2 with
  | some e =>
      decide (e.communityId = communityId) && e.scope.matchesChannel event.channelId &&
        filtersMatch e.filters event
  | none => false

def pushMatch (reg : SubscriptionRegistry) (communityId : CommunityId) (event : StoredEvent)
    (results : List (ConnId × SubId)) (candidate : ConnId × SubId) : List (ConnId × SubId) :=
  if reg.candidateMatches communityId event candidate then insertNew results candidate
  else results

def fanOutScoped (reg : SubscriptionRegistry) (communityId : CommunityId)
    (event : StoredEvent) : List (ConnId × SubId) :=
  let push := reg.pushMatch communityId event
  match event.channelId with
  | some channelId =>
      let candidates := reg.channelKindIndex.lookup (communityId, ⟨channelId, event.event.kind⟩)
      let wildcards := reg.channelWildcardIndex.lookup (communityId, channelId)
      (wildcards.getD []).foldl push ((candidates.getD []).foldl push [])
  | none =>
      let byP :=
        (eventPTagValues event).foldl
          (fun results p =>
            let candidates :=
              reg.globalPKindIndex.lookup ⟨communityId, event.event.kind, p⟩
            (candidates.getD []).foldl push results) []
      let candidates := reg.globalKindIndex.lookup (communityId, event.event.kind)
      let wildcards := reg.globalWildcardIndex.lookup communityId
      (wildcards.getD []).foldl push ((candidates.getD []).foldl push byP)

end SubscriptionRegistry

end Relay
end Maju
