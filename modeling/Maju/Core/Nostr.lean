import Mathlib.Data.BitVec
import Maju.Lib.HashMap
import Maju.Lib.OrderedSet
import Maju.Lib.Hex

/-!
# Nostr — events, tags and filters

The value types that every part of the relay passes around.  Identifiers are fixed-width numbers
(`Uuid`, `EventId`, `PublicKey`); their textual form is lowercase hexadecimal.  A tag has a name
and further parts, so an empty tag cannot be built.  Signatures, event contents and receive times
are left out: no function modelled here reads them.
-/

namespace Maju
namespace Core

open Lib

/-! ## Identifiers -/

abbrev Uuid := BitVec 128

-- named, so that every lookup by id refers to one instance
instance lawfulBEqUuid : LawfulBEq Uuid := inferInstance

/-- `maju_core::CommunityId`: the server-resolved tenant. -/
structure CommunityId where
  uuid : Uuid
  deriving DecidableEq, Repr

abbrev EventId := BitVec 256

instance lawfulBEqEventId : LawfulBEq EventId := inferInstance

abbrev PublicKey := BitVec 256

/-- Event kinds are 16-bit numbers; `Kind` values compare by that number. -/
abbrev Kind := UInt16

/-- `kind.as_u16() as u32`. -/
def Kind.asU32 (k : Kind) : Nat := k.toNat

/-- Seconds since the epoch, unsigned. -/
abbrev Timestamp := UInt64

/-- `to_hex()` of a 32-byte identifier, and `hex::encode` of its bytes. -/
def toHex (x : BitVec 256) : String :=
  String.ofList (hexDigits 64 x.toNat)

theorem toHex_injective : Function.Injective toHex := by
  intro x y h
  have hlist : hexDigits 64 x.toNat = hexDigits 64 y.toNat :=
    String.ofList_injective h
  exact hexDigits_bitVec_injective (by decide) hlist

/-! ## Tags and events -/

/-- One event tag: its first part and the parts after it. -/
structure Tag where
  name : String
  rest : List String
  deriving DecidableEq, Repr

namespace Tag

def asSlice (t : Tag) : List String := t.name :: t.rest

/-- `tag.kind().to_string()`. -/
def kind (t : Tag) : String := t.name

/-- `tag.content()`: the second part. -/
def content (t : Tag) : Option String := t.rest.head?

end Tag

/-- `nostr::Event`. -/
structure Event where
  id : EventId
  pubkey : PublicKey
  createdAt : Timestamp
  kind : Kind
  tags : List Tag
  deriving DecidableEq, Repr

def eventKindU32 (e : Event) : Nat := e.kind.asU32

/-- `maju_core::StoredEvent`: an event with its channel scope, `none` for global events. -/
structure StoredEvent where
  event : Event
  channelId : Option Uuid
  deriving DecidableEq, Repr

/-! ## Filters -/

/-- `nostr::SingleLetterTag`: the key of a generic tag filter. -/
structure SingleLetterTag where
  character : Char
  isAlpha : character.isAlpha = true
  deriving DecidableEq

namespace SingleLetterTag

def toString (t : SingleLetterTag) : String := String.singleton t.character

def p : SingleLetterTag := ⟨'p', rfl⟩
def h : SingleLetterTag := ⟨'h', rfl⟩
def d : SingleLetterTag := ⟨'d', rfl⟩
def e : SingleLetterTag := ⟨'e', rfl⟩

end SingleLetterTag

/-- `nostr::Filter`. -/
structure Filter where
  ids : Option (BTreeSet EventId)
  authors : Option (BTreeSet PublicKey)
  kinds : Option (BTreeSet Kind)
  search : Option String
  since : Option Timestamp
  untilAt : Option Timestamp
  limit : Option UInt64
  genericTags : HashMap SingleLetterTag (BTreeSet String)

namespace Filter

/-- `Filter::new()`. -/
def new : Filter where
  ids := none
  authors := none
  kinds := none
  search := none
  since := none
  untilAt := none
  limit := none
  genericTags := ∅

end Filter

end Core
end Maju
