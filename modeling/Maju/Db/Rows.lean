import Maju.Core.Filter

/-!
# Rows — what the event store holds

An inserted event becomes one row of `events`, with the first `d` tag extracted into a column, and
one row of `event_mentions` for each well-formed `p` tag.  The time column is a chrono timestamp,
which spans less than the 64-bit seconds of an event or a filter.
-/

namespace Maju
namespace Db

open Lib Core

/-! ## Times -/

/-- `DateTime::<Utc>::MIN_UTC.timestamp()`: the first second of the year -262143. -/
def minTimestamp : Int := -8334601228800

/-- `DateTime::<Utc>::MAX_UTC.timestamp()`: the last second of the year 262142. -/
def maxTimestamp : Int := 8210266876799

/-- `x as i64`. -/
def asI64 (x : UInt64) : Int := if x.toNat < 2 ^ 63 then x.toNat else (x.toNat : Int) - 2 ^ 64

/-- `DateTime::from_timestamp(secs, 0)`, by its seconds. -/
def fromTimestamp (secs : Int) : Option Int :=
  if minTimestamp ≤ secs ∧ secs ≤ maxTimestamp then some secs else none

/-! ## Text -/

def toAsciiLowercase (s : String) : String := String.ofList (s.toList.map Char.toLower)

/-- `char::is_ascii_hexdigit`. -/
def isAsciiHexdigit (c : Char) : Bool :=
  c.isDigit || (decide ('a' ≤ c) && decide (c ≤ 'f')) || (decide ('A' ≤ c) && decide (c ≤ 'F'))

/-! ## Columns -/

/-- `extract_d_tag`: the first `d` tag of a parameterized-replaceable event, empty when it has
none. -/
def extractDTag (event : Event) : Option String :=
  if isParameterizedReplaceable (eventKindU32 event) then
    some ((event.tags.findSome? fun t => if t.name = "d" then t.content else none).getD "")
  else none

/-- A `p` tag value that `insert_mentions` indexes. -/
def isMentionHex (pk : String) : Bool :=
  decide (pk.toList.length = 64) && pk.toList.all isAsciiHexdigit

/-- The `pubkey_hex` values that `insert_mentions` stores for an event. -/
def mentions (event : Event) : List String :=
  ((event.tags.filterMap fun t => if t.name = "p" then t.content else none).filter
    isMentionHex).map toAsciiLowercase

/-- `tags @> '[[a, b]]'`: some tag has both texts among its parts, in any place. -/
def tagsContain (event : Event) (a b : String) : Bool :=
  event.tags.any fun t => decide (a ∈ t.asSlice) && decide (b ∈ t.asSlice)

/-- A row of `events`.  The event's time fits the time column. -/
structure EventRow where
  communityId : CommunityId
  event : Event
  channelId : Option Uuid
  deleted : Bool
  fits : (event.createdAt.toNat : Int) ≤ maxTimestamp

namespace EventRow

/-- The `created_at` column. -/
def createdAt (r : EventRow) : Int := r.event.createdAt.toNat

/-- `row_to_stored_event`. -/
def stored (r : EventRow) : StoredEvent := ⟨r.event, r.channelId⟩

end EventRow

/-- The tables `events` and `event_mentions`.  An event id is a hash of the event, so a community
holds it once. -/
structure Database where
  rows : List EventRow
  distinct : (rows.map fun r => (r.communityId, r.event.id)).Nodup

namespace Database

/-- The rows of a community that are not deleted. -/
def undeleted (db : Database) (communityId : CommunityId) : List EventRow :=
  db.rows.filter fun r => decide (r.communityId = communityId) && !r.deleted

theorem mem_undeleted {db : Database} {communityId : CommunityId} {r : EventRow} :
    r ∈ db.undeleted communityId ↔
      r ∈ db.rows ∧ r.communityId = communityId ∧ r.deleted = false := by
  simp [undeleted]

theorem nodup_undeleted (db : Database) (communityId : CommunityId) :
    ((db.undeleted communityId).map fun r => r.event.id).Nodup := by
  have hkeys := db.distinct.sublist
    ((List.filter_sublist (p := fun r : EventRow =>
      decide (r.communityId = communityId) && !r.deleted)).map _)
  refine List.Nodup.of_map (fun id => (communityId, id)) ?_
  rw [List.map_map]
  refine (List.map_congr_left ?_).symm ▸ hkeys
  intro r hr
  have hcommunity := (mem_undeleted.1 hr).2.1
  simp [hcommunity]

end Database

end Db
end Maju
