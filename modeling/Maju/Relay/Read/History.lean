import Maju.Relay.Read.Access

/-!
# History — the reading side of the REQ handler

A REQ is refused, answered with the liveness of huddles, answered by a full-text search, or
registered and answered with history.  History runs one query for each filter and filters its rows
again; search fetches pages of hits and filters them in the same way.
-/

namespace Maju
namespace Relay

open Lib Core Db

/-! ## Routing -/

def filtersAreNip43MembershipOnly (filters : List Filter) : Bool :=
  !filters.isEmpty && filters.all fun f => f.kinds.any fun ks =>
    !ks.isEmpty && ks.toList.all fun k => decide (k.asU32 = kindNip43MembershipList)

def filtersAreHuddleLivenessOnly (filters : List Filter) : Bool :=
  !filters.isEmpty && filters.all fun f => f.kinds.any fun ks =>
    decide (ks.len = 1) && ks.toList.all fun k => decide (k.asU32 = kindHuddleLiveness)

/-- How `handle_req` answers: from the live rooms of some channels (`handle_huddle_liveness_req`),
or registered and with history. -/
inductive ReqRoute where
  | refused (messages : List RelayMessage)
  | huddleLiveness (parentChannelIds : List Uuid)
  | search (accessibleChannels : List Uuid)
  | history (accessibleChannels : List Uuid)

/-- The gates that a REQ without a single channel passes. -/
def globalGates (subId : SubId) (filters : List Filter) (authedPubkeyHex : String) :
    Option RelayMessage :=
  if !pGatedFiltersAuthorized filters authedPubkeyHex then
    some (.closed subId "restricted: p-gated events require #p matching your pubkey")
  else if !engramFiltersAuthorized filters authedPubkeyHex then
    some (.closed subId "restricted: agent-engram reads require authors=[self] or #p=[self]")
  else if !authorOnlyFiltersAuthorized filters authedPubkeyHex then
    some (.closed subId "restricted: author-only kinds require authors=[self]")
  else none

/-- The end of the routing, once the accessible channels are resolved. -/
def routeResolved (ctx : AuthContext) (subId : SubId) (filters : List Filter)
    (requested : Option (List Uuid)) (accessible : List Uuid) : ReqRoute :=
  let authorized := requested.map fun ids => ids.filter fun ch => decide (ch ∈ accessible)
  if authorized.any List.isEmpty then
    .refused [.closed subId "restricted: not a channel member"]
  else if filtersAreHuddleLivenessOnly filters then .huddleLiveness (authorized.getD [])
  else
    let gate :=
      if (extractChannelIdFromFilters filters).isNone then
        globalGates subId filters (toHex ctx.pubkey)
      else none
    match gate with
    | some message => .refused [message]
    | none =>
        if filters.any fun f => f.search.isSome then
          if filters.any fun f => f.search.isNone then
            .refused [.closed subId "error: mixed search and non-search filters not supported"]
          else .search accessible
        else .history accessible

/-- `handle_req`, up to the registration. -/
def routeReq (lookups : Lookups) (auth : Option AuthContext)
    (subs : HashMap SubId (List Filter)) (subId : SubId) (filters : List Filter) : ReqRoute :=
  match auth with
  | none =>
      .refused [.notice "auth-required: authenticate before subscribing",
        .closed subId "auth-required: not authenticated"]
  | some ctx =>
      if !ctx.scopes.isEmpty && !decide (Scope.messagesRead ∈ ctx.scopes) then
        .refused [.notice "restricted: insufficient scope",
          .closed subId "restricted: insufficient scope"]
      else if subId ∉ subs ∧ maxSubscriptions ≤ subs.entries.length then
        .refused [.closed subId "error: too many subscriptions"]
      else
        match extractChannelIdsFromFiltersLimited filters with
        | .error _ => .refused [.closed subId "restricted: too many explicit channels"]
        | .ok requested =>
            match
                (if filtersAreNip43MembershipOnly filters then .ok []
                  else lookups.accessibleChannelIds ctx.pubkey) with
            | .error _ => .refused [.closed subId "error: database error"]
            | .ok ids =>
                match confirmChannels lookups ctx (requested.getD []) (ctx.narrow ids) with
                | .error _ => .refused [.closed subId "error: database error"]
                | .ok accessible => routeResolved ctx subId filters requested accessible

/-! ## Filtering rows again -/

/-- The checks on one stored event, for history and search. -/
def deliverable (f : Filter) (accessible : List Uuid) (reader : PublicKey)
    (stored : StoredEvent) : Bool :=
  filtersMatch [f] stored && (stored.channelId.all fun ch => decide (ch ∈ accessible)) &&
    eventVisibleToReader stored.event reader

/-- Drop the events whose id was seen (`seen_ids`). -/
def unseen (seen : List EventId) : List StoredEvent → List StoredEvent
  | [] => []
  | e :: events =>
      if e.event.id ∈ seen then unseen seen events
      else e :: unseen (e.event.id :: seen) events

/-! ## History -/

def historyQuery (community : CommunityId) (reader : PublicKey) (channelId : Option Uuid)
    (accessible : List Uuid) (f : Filter) (beforeId : Option EventId) : EventQuery :=
  let perFilterChannel := (extractChannelIdFromFilter f).or channelId
  let params :=
    { filterToQueryParams f perFilterChannel community with beforeId := beforeId }
  withSharedGate (applyChannelScopeToQuery params f perFilterChannel accessible) f reader

/-- The historical delivery: one query for each filter, in order; a query that fails ends it. -/
def deliverHistory (db : Database) (community : CommunityId) (reader : PublicKey)
    (channelId : Option Uuid) (accessible : List Uuid) (subId : SubId) :
    List (Filter × Option EventId) → List EventId → List RelayMessage
  | [], _ => [.eose subId]
  | (f, beforeId) :: rest, seen =>
      match queryEventsOn db (historyQuery community reader channelId accessible f beforeId) with
      | .error _ => [.eose subId]
      | .ok events =>
          let sent := unseen seen (events.filter (deliverable f accessible reader))
          sent.map (fun e => .event subId e.event) ++
            deliverHistory db community reader channelId accessible subId rest
              (sent.map (fun e => e.event.id) ++ seen)

/-! ## Search -/

/-- `maju_search::ChannelScope`. -/
inductive ChannelScope where
  | channelsOrChannelLess (channels : List Uuid)
  | channels (channels : List Uuid)
  | channelLessOnly

/-- `maju_search::SearchQuery`. -/
structure SearchQuery where
  community : CommunityId
  q : String
  channelScope : ChannelScope
  kinds : Option (List Nat)
  authors : Option (List PublicKey)
  since : Option Int
  untilAt : Option Int
  page : Nat
  perPage : Nat

/-- The full-text index: the ids of the hits of one page. -/
abbrev SearchService := SearchQuery → Except Unit (List EventId)

def searchPageSize : Nat := 100

def maxSearchPages : Nat := 10

def buildSearchChannelScopeFilter (accessible : List Uuid) (includeGlobal : Bool) :
    Option ChannelScope :=
  if accessible.isEmpty then
    if includeGlobal then some .channelLessOnly else none
  else some (if includeGlobal then .channelsOrChannelLess accessible else .channels accessible)

def getEventsByIds (db : Database) (community : CommunityId) (ids : List EventId) :
    List StoredEvent :=
  ((db.undeleted community).filter fun r => decide (r.event.id ∈ ids)).map EventRow.stored

/-- The events of a page of hits that pass the checks, in the order of the hits. -/
def emitHits (f : Filter) (accessible : List Uuid) (reader : PublicKey)
    (events : List StoredEvent) (hits : List EventId) (limit emitted : Nat)
    (seen : List EventId) : List StoredEvent :=
  let found := hits.filterMap fun id => events.find? fun e => decide (e.event.id = id)
  (unseen seen (found.filter (deliverable f accessible reader))).take (limit - emitted)

def searchPages (db : Database) (search : SearchService) (f : Filter) (accessible : List Uuid)
    (reader : PublicKey) (query : Nat → SearchQuery) (limit : Nat) :
    Nat → Nat → Nat → List EventId → List StoredEvent
  | 0, _, _, _ => []
  | remaining + 1, page, emitted, seen =>
      if limit ≤ emitted then []
      else
        match search (query page) with
        | .error _ => []
        | .ok hits =>
            let events := getEventsByIds db (query page).community hits
            let sent := emitHits f accessible reader events hits limit emitted seen
            if hits.length < searchPageSize then sent
            else
              sent ++ searchPages db search f accessible reader query limit remaining (page + 1)
                (emitted + sent.length) (sent.map (fun e => e.event.id) ++ seen)

/-- The channel scope of a search filter; `none` when it names no accessible channel. -/
def searchScope (f : Filter) (accessible : List Uuid) (all : ChannelScope) : Option ChannelScope :=
  match (hValues f).filter fun values => !values.isEmpty with
  | none => some all
  | some values =>
      let valid := (parsedChannels values).filter fun ch => decide (ch ∈ accessible)
      if valid.isEmpty then none else some (.channels valid)

def searchLimit (f : Filter) : Nat :=
  f.limit.elim defaultMaxPageLimit.toNat fun l =>
    min (l.toNat % 2 ^ 32) defaultMaxPageLimit.toNat

/-- The filters of a search, in order. -/
def searchFilters (db : Database) (search : SearchService) (community : CommunityId)
    (reader : PublicKey) (accessible : List Uuid) (all : ChannelScope) :
    List Filter → List EventId → List StoredEvent
  | [], _ => []
  | f :: filters, seen =>
      let sent :=
        match f.search, searchScope f accessible all with
        | some text, some scope =>
            if text.isEmpty || searchLimit f = 0 then []
            else
              let query := fun page =>
                { community := community
                  q := text
                  channelScope := scope
                  kinds := (f.kinds.filter fun ks => !ks.isEmpty).map fun ks =>
                    ks.toList.map Kind.asU32
                  authors := (f.authors.filter fun as => !as.isEmpty).map BTreeSet.toList
                  since := f.since.map asI64
                  untilAt := f.untilAt.map asI64
                  page := page
                  perPage := searchPageSize }
              searchPages db search f accessible reader query (searchLimit f) maxSearchPages 1 0 seen
        | _, _ => []
      sent ++ searchFilters db search community reader accessible all filters
        (sent.map (fun e => e.event.id) ++ seen)

def handleSearchReq (db : Database) (search : SearchService) (community : CommunityId)
    (reader : PublicKey) (accessible : List Uuid) (includeGlobal : Bool) (subId : SubId)
    (filters : List Filter) : List RelayMessage :=
  match buildSearchChannelScopeFilter accessible includeGlobal with
  | none => [.eose subId]
  | some all =>
      (searchFilters db search community reader accessible all filters []).map
        (fun e => .event subId e.event) ++ [.eose subId]

/-! ## The handler -/

/-- `handle_req`, by the messages it sends.  `liveness` is what the live rooms answer. -/
def handleReq (db : Database) (search : SearchService)
    (liveness : List Uuid → List Filter → List RelayMessage) (lookups : Lookups)
    (community : CommunityId) (auth : Option AuthContext) (subs : HashMap SubId (List Filter))
    (subId : SubId) (requests : List (Filter × Option EventId)) : List RelayMessage :=
  let filters := requests.map Prod.fst
  match auth, routeReq lookups auth subs subId filters with
  | _, .refused messages => messages
  | _, .huddleLiveness parentChannelIds => liveness parentChannelIds filters
  | some ctx, .search accessible =>
      handleSearchReq db search community ctx.pubkey accessible ctx.channelIds.isNone subId filters
  | some ctx, .history accessible =>
      deliverHistory db community ctx.pubkey (extractChannelIdFromFilters filters) accessible subId
        requests []
  | none, _ => []

def sentEvents (messages : List RelayMessage) : List Event :=
  messages.filterMap fun
    | .event _ event => some event
    | _ => none

end Relay
end Maju
