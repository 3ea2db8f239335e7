import Maju.Core.Nostr
import Maju.Lib.Bytes
import Mathlib.Data.List.MinMax
import Mathlib.Data.List.Sort

/-!
# Chain — the per-community audit hash chain

`AuditService` appends rows to one chain per community and verifies segments of it.  A row is keyed
by community and sequence number; its hash covers its identity, its context and the hash of the row
before it.

* `Libraries` — what the service takes from elsewhere: SHA-256, the RFC 3339 text of an instant and
  the JSON text of a string or a float;
* `Store` — how Postgres gives a JSON value back, and how many rows it can hold;
* `computeHash`, `verifyChain` — as in `maju-audit`;
* `newEntry`, `storedRow` — what `log_inner` computes and what the table then holds.
-/

namespace Maju
namespace Audit

open Lib Core

/-! ## Entries -/

/-- Audit action recorded for each event in the log. -/
inductive AuditAction where
  | eventCreated
  | eventDeleted
  | channelCreated
  | channelUpdated
  | channelDeleted
  | memberAdded
  | memberRemoved
  | authSuccess
  | authFailure
  | rateLimitExceeded
  | mediaUploaded
  deriving DecidableEq, Repr

namespace AuditAction

/-- `AuditAction::as_str`. -/
def asStr : AuditAction → String
  | .eventCreated => "event_created"
  | .eventDeleted => "event_deleted"
  | .channelCreated => "channel_created"
  | .channelUpdated => "channel_updated"
  | .channelDeleted => "channel_deleted"
  | .memberAdded => "member_added"
  | .memberRemoved => "member_removed"
  | .authSuccess => "auth_success"
  | .authFailure => "auth_failure"
  | .rateLimitExceeded => "rate_limit_exceeded"
  | .mediaUploaded => "media_uploaded"

/-- `AuditAction::ALL`. -/
def all : List AuditAction :=
  [.eventCreated, .eventDeleted, .channelCreated, .channelUpdated, .channelDeleted, .memberAdded,
    .memberRemoved, .authSuccess, .authFailure, .rateLimitExceeded, .mediaUploaded]

/-- `AuditAction::from_str`. -/
def fromStr (s : String) : Option AuditAction := all.find? fun a => a.asStr = s

theorem fromStr_asStr (action : AuditAction) : fromStr action.asStr = some action := by
  cases action <;> decide

end AuditAction

/-- A JSON number as `serde_json` keeps it: an `i64` or a `u64`, or an `f64` by its bits. -/
inductive Number where
  | int (i : Int)
  | float (bits : BitVec 64)
  deriving DecidableEq, Repr

/-- A JSON value. -/
inductive Value where
  | null
  | bool (b : Bool)
  | number (n : Number)
  | string (s : String)
  | array (values : List Value)
  | object (members : List (String × Value))
  deriving Repr

/-- Input for appending a new audit entry. -/
structure NewAuditEntry where
  communityId : CommunityId
  action : AuditAction
  actorPubkey : Option Bytes
  objectId : Option String
  detail : Value

/-- A materialised audit log entry.  `createdAt` counts nanoseconds since the epoch. -/
structure AuditEntry where
  communityId : Uuid
  seq : Int
  hash : Bytes
  prevHash : Option Bytes
  action : AuditAction
  actorPubkey : Option Bytes
  objectId : Option String
  detail : Value
  createdAt : Int

/-- A row of `audit_log`, whose action is text. -/
structure Row where
  communityId : Uuid
  seq : Int
  hash : Bytes
  prevHash : Option Bytes
  action : String
  actorPubkey : Option Bytes
  objectId : Option String
  detail : Value
  createdAt : Int

inductive AuditError where
  | chainViolation (seq : Int)
  | hashMismatch (seq : Int)
  | unknownAction
  deriving DecidableEq, Repr

/-! ## Hashing -/

/-- What the service takes from the libraries it is built on: SHA-256, `DateTime::to_rfc3339` of an
instant in nanoseconds since the epoch, and `serde_json::to_string` of a string and of a float. -/
structure Libraries where
  sha256 : Bytes → Bytes
  toRfc3339 : Int → Bytes
  stringText : String → Bytes
  floatText : BitVec 64 → String

def utf8 (s : String) : Bytes := s.toList.flatMap String.utf8EncodeChar

/-- `to_storage_precision`: down to the microsecond. -/
def toStoragePrecision (createdAt : Int) : Int := createdAt - createdAt % 1000

def genesisHash : Bytes := List.replicate 32 0

variable (lib : Libraries)

/-- `serde_json::to_string` of a number. -/
def Number.text : Number → Bytes
  | .int i => utf8 (toString i)
  | .float bits => utf8 (lib.floatText bits)

def commaSeparated : List Bytes → Bytes
  | [] => []
  | [piece] => piece
  | piece :: pieces => piece ++ utf8 "," ++ commaSeparated pieces

/-- Insert a member by its key; a later member with the same key replaces the earlier one. -/
def insertMember (key : String) (text : Bytes) :
    List (String × Bytes) → List (String × Bytes)
  | [] => [(key, text)]
  | (key', text') :: rest =>
      if key = key' then (key, text) :: rest
      else if key < key' then (key, text) :: (key', text') :: rest
      else (key', text') :: insertMember key text rest

mutual

/-- `canonical_json`: members in the order of their keys. -/
def canonicalJson : Value → Bytes
  | .null => utf8 "null"
  | .bool b => utf8 (if b then "true" else "false")
  | .number n => n.text lib
  | .string s => lib.stringText s
  | .array values => utf8 "[" ++ commaSeparated (canonicalValues values) ++ utf8 "]"
  | .object members =>
      let sorted := (canonicalMembers members).foldl (fun acc m => insertMember m.1 m.2 acc) []
      utf8 "\x7b" ++ commaSeparated (sorted.map fun m => lib.stringText m.1 ++ utf8 ":" ++ m.2) ++
        utf8 "\x7d"

def canonicalValues : List Value → List Bytes
  | [] => []
  | value :: values => canonicalJson value :: canonicalValues values

def canonicalMembers : List (String × Value) → List (String × Bytes)
  | [] => []
  | (key, value) :: members => (key, canonicalJson value) :: canonicalMembers members

end

/-- An optional field behind its presence tag. -/
def tagged (field : Option Bytes) : Bytes :=
  match field with
  | some bytes => 1 :: bytes
  | none => [0]

/-- The bytes that `compute_hash` feeds to SHA-256, in order. -/
def hashInput (entry : AuditEntry) : Bytes :=
  beBytes 16 entry.communityId.toNat ++ (i64Bytes entry.seq ++
    (lib.toRfc3339 (toStoragePrecision entry.createdAt) ++ (utf8 entry.action.asStr ++
      (tagged entry.actorPubkey ++ (tagged (entry.objectId.map utf8) ++
        (canonicalJson lib entry.detail ++ entry.prevHash.getD genesisHash))))))

def computeHash (entry : AuditEntry) : Bytes := lib.sha256 (hashInput lib entry)

/-! ## The store -/

/-- What the service relies on of Postgres: how a `JSONB` column gives a value back, which advisory
lock belongs to a community (`hashtextextended` of the namespaced id), and how many rows fit. -/
structure Store where
  jsonb : Value → Value
  lockKey : CommunityId → Int
  maxRows : Nat
  maxRows_lt : maxRows < 2 ^ 63

/-- `TIMESTAMPTZ`: microseconds. -/
def Store.timestamptz (_store : Store) (createdAt : Int) : Int := createdAt - createdAt % 1000

variable (store : Store)

/-- A row as a later `SELECT` gives it back. -/
def storedRow (entry : AuditEntry) : Row where
  communityId := entry.communityId
  seq := entry.seq
  hash := entry.hash
  prevHash := entry.prevHash
  action := entry.action.asStr
  actorPubkey := entry.actorPubkey
  objectId := entry.objectId
  detail := store.jsonb entry.detail
  createdAt := store.timestamptz entry.createdAt

abbrev Table := List Row

-- the computable order on `Int`, whichever others the imports bring
local instance (priority := high) intPreorder : Preorder Int := Int.instLinearOrder.toPreorder

/-- `SELECT seq, hash … ORDER BY seq DESC LIMIT 1`, or the defaults of an empty chain. -/
def head (table : Table) (community : Uuid) : Int × Option Bytes :=
  match (table.filter fun row => row.communityId = community).argmax Row.seq with
  | some row => (row.seq, some row.hash)
  | none => (0, none)

/-- The entry that `log_inner` computes from the head it read. -/
def newEntry (entry : NewAuditEntry) (head : Int × Option Bytes) (now : Int) : AuditEntry :=
  let unsealed : AuditEntry :=
    { communityId := entry.communityId.uuid
      seq := head.1 + 1
      hash := []
      prevHash := head.2
      action := entry.action
      actorPubkey := entry.actorPubkey
      objectId := entry.objectId
      detail := entry.detail
      createdAt := toStoragePrecision now }
  { unsealed with hash := computeHash lib unsealed }

/-- `INSERT` and `COMMIT`: both unique indexes must accept the row, and it must fit. -/
def insert (table : Table) (entry : AuditEntry) : Option Table :=
  if table.length < store.maxRows ∧
      ¬table.any fun row => decide (row.communityId = entry.communityId ∧
        (row.seq = entry.seq ∨ row.hash = entry.hash)) then
    some (table ++ [storedRow store entry])
  else none

/-! ## Verification -/

def rowToAuditEntry (row : Row) : Except AuditError AuditEntry :=
  match AuditAction.fromStr row.action with
  | none => .error .unknownAction
  | some action =>
      .ok
        { communityId := row.communityId
          seq := row.seq
          hash := row.hash
          prevHash := row.prevHash
          action := action
          actorPubkey := row.actorPubkey
          objectId := row.objectId
          detail := row.detail
          createdAt := row.createdAt }

/-- The rows of one community with a number in the range, by number. -/
def segment (table : Table) (community : Uuid) (fromSeq toSeq : Int) : List Row :=
  (table.filter fun row =>
    row.communityId = community ∧ fromSeq ≤ row.seq ∧ row.seq ≤ toSeq).insertionSort
      fun a b => a.seq ≤ b.seq

/-- The loop of `verify_chain`. -/
def verifyRows (expectedPrev : Option Bytes) : List Row → Except AuditError Bool
  | [] => .ok true
  | row :: rows =>
      match rowToAuditEntry row with
      | .error e => .error e
      | .ok entry =>
          if expectedPrev.isSome ∧ entry.prevHash ≠ expectedPrev then
            .error (.chainViolation entry.seq)
          else if computeHash lib entry ≠ entry.hash then .error (.hashMismatch entry.seq)
          else verifyRows (some entry.hash) rows

def verifyChain (table : Table) (community : CommunityId) (fromSeq toSeq : Int) :
    Except AuditError Bool :=
  match segment table community.uuid fromSeq toSeq with
  | [] => .ok false
  | rows => verifyRows lib none rows

end Audit
end Maju
