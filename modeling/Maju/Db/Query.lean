import Mathlib.Data.List.Sort
import Mathlib.Tactic.Linarith
import Maju.Db.Rows

/-!
# Query — the event query builder

`query_events_on` and `count_events_on` build one SQL statement each from an `EventQuery`.  The
`AND`ed conditions of a statement are the fields of `EventQuery` that are set, one definition for
each field; the two statements share all but three of them.
-/

namespace Maju
namespace Db

open Lib Core

def defaultMaxPageLimit : Int := 1000

structure EventQuery where
  communityId : CommunityId
  channelId : Option Uuid
  kinds : Option (List Nat)
  pubkey : Option PublicKey
  since : Option Int
  untilAt : Option Int
  limit : Option Int
  offset : Option Int
  pTagHex : Option String
  dTag : Option String
  dTags : Option (List String)
  beforeId : Option EventId
  globalOnly : Bool
  authors : Option (List PublicKey)
  ids : Option (List EventId)
  eTags : Option (List String)
  customTag : Option (String × String)
  channelIds : Option (List Uuid)
  channelIdsIncludeGlobal : Bool
  maxLimit : Option Int
  sharedGatedReader : Option PublicKey

def EventQuery.forCommunity (communityId : CommunityId) : EventQuery where
  communityId := communityId
  channelId := none
  kinds := none
  pubkey := none
  since := none
  untilAt := none
  limit := none
  offset := none
  pTagHex := none
  dTag := none
  dTags := none
  beforeId := none
  globalOnly := false
  authors := none
  ids := none
  eTags := none
  customTag := none
  channelIds := none
  channelIdsIncludeGlobal := true
  maxLimit := none
  sharedGatedReader := none

/-- Data that is not valid, or a statement that PostgreSQL rejects. -/
inductive DbError where
  | invalidData (message : String)
  | sql (message : String)
  deriving DecidableEq, Repr

/-- `Display` of the error. -/
def DbError.display : DbError → String
  | .invalidData message => "invalid data: " ++ message
  | .sql message => "database error: " ++ message

namespace EventQuery

variable (q : EventQuery) (r : EventRow)

/-! ## Conditions -/

def mentionsClause : Bool := q.pTagHex.all fun p => decide (toAsciiLowercase p ∈ mentions r.event)

def channelClause : Bool :=
  match q.channelId with
  | some ch => decide (r.channelId = some ch)
  | none => if q.globalOnly then r.channelId.isNone else true

/-- An empty channel list matches no channel, but still the global events if those are
included. -/
def channelIdsClause : Bool :=
  q.channelIds.all fun ids =>
    (q.channelIdsIncludeGlobal && r.channelId.isNone) || r.channelId.any fun ch => decide (ch ∈ ids)

def kindsClause : Bool :=
  (q.kinds.filter fun ks => !ks.isEmpty).all fun ks => decide (eventKindU32 r.event ∈ ks)

def pubkeyClause : Bool := q.pubkey.all fun pk => decide (r.event.pubkey = pk)

def authorsClause : Bool :=
  (q.authors.filter fun as => !as.isEmpty).all fun as => decide (r.event.pubkey ∈ as)

def idsClause : Bool :=
  (q.ids.filter fun ids => !ids.isEmpty).all fun ids => decide (r.event.id ∈ ids)

def eTagsClause : Bool :=
  (q.eTags.filter fun es => !es.isEmpty).all fun es => es.any fun e => tagsContain r.event "e" e

def customTagClause : Bool := q.customTag.all fun t => tagsContain r.event t.1 t.2

def sinceClause : Bool := q.since.all fun s => decide (s ≤ r.createdAt)

def untilClause : Bool := q.untilAt.all fun u => decide (r.createdAt ≤ u)

/-- The keyset cursor: strictly behind the last row of the previous page. -/
def cursorClause : Bool :=
  q.untilAt.all fun u =>
    match q.beforeId with
    | some bid =>
        decide (r.createdAt < u) ||
          (decide (r.createdAt = u) && decide (bid.toNat < r.event.id.toNat))
    | none => decide (r.createdAt ≤ u)

def dTagClause : Bool :=
  match q.dTag with
  | some d => decide (extractDTag r.event = some d)
  | none =>
      (q.dTags.filter fun ds => !ds.isEmpty).all fun ds =>
        (extractDTag r.event).any fun d => decide (d ∈ ds)

/-- The visibility clause for shared-gated kinds. -/
def sharedClause : Bool :=
  q.sharedGatedReader.all fun reader =>
    !isSharedGatedKind (eventKindU32 r.event) || decide (r.event.pubkey = reader) ||
      tagsContain r.event "shared" "true"

/-- The conditions that both statements have. -/
def commonWhere : Bool :=
  q.mentionsClause r && q.channelClause r && q.channelIdsClause r && q.kindsClause r &&
    q.pubkeyClause r && q.authorsClause r && q.idsClause r && q.eTagsClause r &&
    q.sinceClause r && q.dTagClause r

def queryWhere : Bool :=
  q.commonWhere r && q.customTagClause r && q.cursorClause r && q.sharedClause r

/-- The conditions of the count query. -/
def countWhere : Bool := q.commonWhere r && q.untilClause r

/-- A set list that is empty matches nothing. -/
def matchesNothing : Bool :=
  q.kinds.any List.isEmpty || q.authors.any List.isEmpty || q.ids.any List.isEmpty ||
    q.eTags.any List.isEmpty

end EventQuery

/-! ## Order -/

/-- `ORDER BY created_at DESC, id ASC`. -/
def NewestFirst (a b : EventRow) : Prop :=
  b.createdAt < a.createdAt ∨
    (a.createdAt = b.createdAt ∧ a.event.id.toNat ≤ b.event.id.toNat)

instance (a b : EventRow) : Decidable (NewestFirst a b) :=
  inferInstanceAs (Decidable (b.createdAt < a.createdAt ∨
    (a.createdAt = b.createdAt ∧ a.event.id.toNat ≤ b.event.id.toNat)))

instance : Std.Total NewestFirst where
  total a b := by
    unfold NewestFirst
    omega

instance : IsTrans EventRow NewestFirst where
  trans a b c hab hbc := by
    unfold NewestFirst at *
    omega

/-! ## Statements -/

/-- The rows of the community that the row query selects, in order. -/
def selected (db : Database) (q : EventQuery) : List EventRow :=
  ((db.undeleted q.communityId).filter q.queryWhere).insertionSort NewestFirst

def EventQuery.limitVal (q : EventQuery) : Int :=
  min (q.limit.getD 100) (q.maxLimit.getD defaultMaxPageLimit)

def queryEventsOn (db : Database) (q : EventQuery) : Except DbError (List StoredEvent) :=
  if q.beforeId.isSome && q.untilAt.isNone then
    .error (.invalidData "before_id requires until to be set")
  else if q.globalOnly && q.channelId.isSome then
    .error (.invalidData "global_only and channel_id are mutually exclusive")
  else if q.matchesNothing then .ok []
  else
    let offsetVal := q.offset.getD 0
    if q.limitVal < 0 then .error (.sql "LIMIT must not be negative")
    else if offsetVal < 0 then .error (.sql "OFFSET must not be negative")
    else .ok ((((selected db q).drop offsetVal.toNat).take q.limitVal.toNat).map EventRow.stored)

def countEventsOn (db : Database) (q : EventQuery) : Nat :=
  if q.matchesNothing then 0
  else (db.undeleted q.communityId).countP q.countWhere

/-! ## What a query returns -/

theorem mem_selected {db : Database} {q : EventQuery} {r : EventRow} :
    r ∈ selected db q ↔ r ∈ db.undeleted q.communityId ∧ q.queryWhere r = true := by
  simp [selected, List.mem_insertionSort]

/-- How many rows a query fetches at most. -/
def EventQuery.fetchSize (q : EventQuery) : Nat := if q.matchesNothing then 0 else q.limitVal.toNat

/-- The rows of a page: the first selected ones, up to the limit. -/
def page (db : Database) (q : EventQuery) : List EventRow := (selected db q).take q.fetchSize

theorem queryEventsOn_ok {db : Database} {q : EventQuery} {events : List StoredEvent}
    (hoffset : q.offset = none) (h : queryEventsOn db q = .ok events) :
    events = (page db q).map EventRow.stored := by
  unfold queryEventsOn at h
  unfold page EventQuery.fetchSize
  split at h
  · cases h
  · split at h
    · cases h
    · split at h
      · next hnothing =>
          obtain rfl := Except.ok.inj h
          rw [if_pos hnothing]
          rfl
      · next hsome =>
          dsimp only at h
          split at h
          · cases h
          · split at h
            · cases h
            · obtain rfl := Except.ok.inj h
              rw [if_neg hsome, hoffset]
              rfl

/-- The only failures are a cursor without its time, a scope that contradicts itself and a
negative limit. -/
theorem queryEventsOn_eq_page {db : Database} {q : EventQuery}
    (hcursor : q.beforeId.isSome = true → q.untilAt.isSome = true) (hscope : q.globalOnly = false)
    (hoffset : q.offset = none) (hlimit : 0 ≤ q.limitVal) :
    queryEventsOn db q = .ok ((page db q).map EventRow.stored) := by
  unfold queryEventsOn page EventQuery.fetchSize
  have hbefore : (q.beforeId.isSome && q.untilAt.isNone) = false := by
    cases hb : q.beforeId with
    | none => rfl
    | some bid =>
        have hu := hcursor (by simp [hb])
        simp [Option.isNone_eq_false_iff.2 hu]
  rw [hbefore, hscope, hoffset]
  simp only [Bool.false_eq_true, if_false, Bool.false_and, Option.getD_none, Int.toNat_zero,
    List.drop_zero]
  split
  · rfl
  · rw [if_neg (by omega), if_neg (by omega)]

end Db
end Maju
