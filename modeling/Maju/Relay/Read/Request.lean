import Maju.Db.Query
import Maju.Relay.Read.Gates

/-!
# Request — from a filter to an event query

REQ and COUNT translate each filter into one `EventQuery` and scope it to the channels the reader
may access.  Only part of a filter survives the translation: `filter_fully_pushable` says when the
statement is meant to be exact, and otherwise the caller filters the rows again.
-/

namespace Maju
namespace Core

open Lib

/-! ## Parsing UUIDs -/

namespace Uuid

def parseSimple (digits : List Char) : Option Uuid :=
  if digits.length = 32 then (parseHex digits).map (BitVec.ofNat 128) else none

def parseHyphenated (text : List Char) : Option Uuid :=
  if text.length = 36 ∧ [8, 13, 18, 23].all fun i => text[i]? = some '-' then
    parseSimple (text.take 8 ++ (text.drop 9).take 4 ++ (text.drop 14).take 4 ++
      (text.drop 19).take 4 ++ text.drop 24)
  else none

/-- `str::parse::<Uuid>()`: simple, hyphenated, braced or URN text, in any case. -/
def parse (text : String) : Option Uuid :=
  let chars := text.toList
  if chars.length = 32 then parseSimple chars
  else if chars.length = 36 then parseHyphenated chars
  else if chars.length = 38 ∧ chars.head? = some '\x7b' ∧ chars.getLast? = some '\x7d' then
    parseHyphenated chars.tail.dropLast
  else if chars.length = 45 ∧ chars.take 9 = "urn:uuid:".toList then
    parseHyphenated (chars.drop 9)
  else none

end Uuid

end Core

namespace Relay

open Lib Core Db

/-! ## Requested channels -/

def maxExplicitChannelValues : Nat := 128

/-- The `#h` values of a filter. -/
def hValues (f : Filter) : Option (BTreeSet String) := f.genericTags.lookup .h

/-- The channels among the `#h` values. -/
def parsedChannels (values : BTreeSet String) : List Uuid := values.toList.filterMap Uuid.parse

/-- `extract_channel_ids_from_filters`: the requested channels, unless a filter has no `#h`. -/
def extractChannelIdsFromFilters (filters : List Filter) : Option (List Uuid) :=
  filters.foldlM
    (fun channelIds f => (hValues f).map fun values => (parsedChannels values).foldl insertNew channelIds)
    []

def extractChannelIdsFromFiltersLimited (filters : List Filter) :
    Except Unit (Option (List Uuid)) :=
  let valueCount := (filters.map fun f => (hValues f).elim 0 BTreeSet.len).sum
  if maxExplicitChannelValues < valueCount then .error ()
  else .ok (extractChannelIdsFromFilters filters)

/-- `extract_channel_id_from_filter`: the channel of a filter with a single `#h` value. -/
def extractChannelIdFromFilter (f : Filter) : Option Uuid :=
  (hValues f).bind fun values =>
    if values.len ≠ 1 then none else values.toList.head?.bind Uuid.parse

/-- The inner loop of `extract_channel_id_from_filters`: `none` once two channels differ. -/
def singleChannel (channels : List Uuid) (found : Option Uuid) : Option (Option Uuid) :=
  channels.foldlM
    (fun found id =>
      match found with
      | some existing => if existing ≠ id then none else some (some id)
      | none => some (some id))
    found

/-- `extract_channel_id_from_filters`: the one channel that all filters name. -/
def extractChannelIdFromFilters (filters : List Filter) : Option Uuid :=
  (filters.foldlM
    (fun found f =>
      let channels := (hValues f).elim [] parsedChannels
      if channels.isEmpty then none else singleChannel channels found)
    none).getD none

/-! ## Access -/

/-- `resolve_request_local_access`, by the vector it leaves. -/
def resolveRequestLocalAccess (accessibleChannels : List Uuid) (chId : Uuid) (tokenAllows : Bool)
    (dbIsMember : Option Bool) : List Uuid :=
  if !tokenAllows then accessibleChannels
  else if chId ∈ accessibleChannels then accessibleChannels
  else if dbIsMember = some true then accessibleChannels ++ [chId]
  else accessibleChannels

/-! ## Queries -/

/-- The filter names kinds, and all of them are parameterized-replaceable. -/
def isNip33Only (f : Filter) : Bool :=
  f.kinds.any fun ks => !ks.isEmpty && ks.toList.all fun k => isParameterizedReplaceable k.asU32

/-- One generic tag of `filter_fully_pushable`. -/
def tagPushable (nip33Only : Bool) (key : SingleLetterTag) (values : BTreeSet String) : Bool :=
  if key = .h then true
  else if key = .p then decide (values.len ≤ 1)
  else if key = .d then values.isEmpty || nip33Only
  else if key = .e then true
  else values.isEmpty

def filterFullyPushable (f : Filter) : Bool :=
  (f.genericTags.entries.all fun tag => tagPushable (isNip33Only f) tag.1 tag.2) &&
    f.search.isNone

/-- The texts of a tag filter that is set and not empty. -/
def tagList (f : Filter) (key : SingleLetterTag) : Option (List String) :=
  (f.genericTags.lookup key).bind fun values => if values.isEmpty then none else some values.toList

def filterToQueryParams (f : Filter) (channelId : Option Uuid) (community : CommunityId) :
    EventQuery :=
  let authors := f.authors.elim [] BTreeSet.toList
  let dTagValues := if isNip33Only f then (f.genericTags.lookup .d).elim [] BTreeSet.toList else []
  { EventQuery.forCommunity community with
    channelId := channelId
    kinds := f.kinds.map fun ks => ks.toList.map Kind.asU32
    pubkey := if authors.length = 1 then authors.head? else none
    authors := if 1 < authors.length then some authors else none
    since := f.since.bind fun s => fromTimestamp (asI64 s)
    untilAt := f.untilAt.bind fun u => fromTimestamp (asI64 u)
    limit := some (f.limit.elim defaultMaxPageLimit fun l => min (asI64 l) defaultMaxPageLimit)
    ids := f.ids.bind fun ids => if ids.isEmpty then none else some ids.toList
    eTags := tagList f .e
    pTagHex := (f.genericTags.lookup .p).bind fun values =>
      if values.len = 1 then values.toList.head? else none
    dTag := if dTagValues.length = 1 then dTagValues.head? else none
    dTags := if 1 < dTagValues.length then some dTagValues else none }

def applyChannelScopeToQuery (q : EventQuery) (f : Filter) (channelId : Option Uuid)
    (accessibleChannels : List Uuid) : EventQuery :=
  if channelId.isSome then q
  else
    match hValues f with
    | some values =>
        { q with
          channelIds := some ((parsedChannels values).filter fun ch => decide (ch ∈ accessibleChannels))
          channelIdsIncludeGlobal := false }
    | none => { q with channelIds := some accessibleChannels }

def buildEventQueryFromFilter (f : Filter) (community : CommunityId) : EventQuery :=
  filterToQueryParams f (extractChannelIdFromFilter f) community

/-- The shared-gated pushdown of REQ and COUNT. -/
def withSharedGate (q : EventQuery) (f : Filter) (reader : PublicKey) : EventQuery :=
  if filterCanMatchSharedGatedKinds f then { q with sharedGatedReader := some reader } else q

/-! Scoping and gating a query touch three of its fields. -/

/-- The channel list that the scoping sets. -/
def scopedChannelIds (q : EventQuery) (f : Filter) (channelId : Option Uuid)
    (accessibleChannels : List Uuid) : Option (List Uuid) :=
  if channelId.isSome then q.channelIds
  else
    some ((hValues f).elim accessibleChannels fun values =>
      (parsedChannels values).filter fun ch => decide (ch ∈ accessibleChannels))

theorem applyChannelScopeToQuery_eq (q : EventQuery) (f : Filter) (channelId : Option Uuid)
    (accessibleChannels : List Uuid) :
    applyChannelScopeToQuery q f channelId accessibleChannels =
      { q with
        channelIds := scopedChannelIds q f channelId accessibleChannels
        channelIdsIncludeGlobal :=
          if channelId.isSome || (hValues f).isNone then q.channelIdsIncludeGlobal else false } := by
  unfold applyChannelScopeToQuery scopedChannelIds
  cases channelId with
  | some ch => rfl
  | none => cases hValues f <;> rfl

theorem withSharedGate_eq (q : EventQuery) (f : Filter) (reader : PublicKey) :
    withSharedGate q f reader =
      { q with
        sharedGatedReader :=
          if filterCanMatchSharedGatedKinds f then some reader else q.sharedGatedReader } := by
  unfold withSharedGate
  cases filterCanMatchSharedGatedKinds f <;> rfl

/-! ## The bounded scan of COUNT -/

def countFallbackCandidateLimit : Nat := 5000

def applyCountFallbackLimit (q : EventQuery) : EventQuery :=
  { q with
    limit := some (countFallbackCandidateLimit + 1)
    maxLimit := some (countFallbackCandidateLimit + 1) }

def countFallbackExceeded (candidateCount : Nat) : Bool :=
  decide (countFallbackCandidateLimit < candidateCount)

end Relay
end Maju
