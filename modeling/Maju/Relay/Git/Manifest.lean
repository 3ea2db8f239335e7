import Maju.Lib.Decimal
import Maju.Lib.Json
import Maju.Lib.SortedMap
import Maju.Lib.Text
import Mathlib.Data.Char
import Mathlib.Data.List.TakeWhile

/-!
# Manifest — the published state of a git repository

A manifest names the refs, the symbolic HEAD and the packs of a repository at one point of its
history, and the digest of the manifest it supersedes.  It is stored as canonical JSON under the
SHA-256 of these bytes.  `fromBytes_canonicalBytes` is the round trip of the two functions, for
every manifest whose packs are sorted without repetition.
-/

namespace Maju
namespace Relay
namespace Git

open Lib

/-! ## The schema -/

def manifestVersion : Nat := 1

def maxManifestPacks : Nat := 128

def packCompactionThreshold : Nat := maxManifestPacks * 3 / 4

def maxManifestRefs : Nat := 10000

/-- Ref names with their object ids, in the order of the names. -/
abbrev Refs := SortedMap Text Text

/-- A repository's published state. -/
structure Manifest where
  version : Nat
  head : Text
  refs : Refs
  packs : List Text
  parent : Option Text
  deriving DecidableEq

inductive ManifestError where
  | serde
  | unsupportedVersion (got expected : Nat)
  | unsafeRefName (name : Text)
  | malformedOid (refname oid : Text)
  | emptyHead
  | malformedParent (parent : Text)
  | tooManyPacks (got max : Nat)
  | tooManyRefs (got max : Nat)
  | malformedPackKey (key : Text)
  deriving DecidableEq, Repr

/-! ## Predicates on names and ids -/

/-- `char::is_ascii_hexdigit`. -/
def isAsciiHexdigit (c : Char) : Bool := (hexValue c).isSome

def isSafeRefname (s : Text) : Bool :=
  "refs/".toList.isPrefixOf s &&
    !(containsText s "..".toList || containsText s "//".toList || s.head? = some '/' ||
      s.getLast? = some '/') &&
    s.all fun c => c.isAlphanum || c = '/' || c = '_' || c = '.' || c = '-'

def isHexOid (s : Text) : Bool :=
  (byteLen s = 40 || byteLen s = 64) && s.all isAsciiHexdigit

def isManifestDigest (s : Text) : Bool :=
  byteLen s = 64 && s.all fun c => ('0' ≤ c && c ≤ '9') || ('a' ≤ c && c ≤ 'f')

def isPackKey (s : Text) : Bool :=
  "packs/".toList.isPrefixOf s && isManifestDigest (s.drop 6)

namespace Manifest

/-- The first ref that `validate` refuses. -/
def checkRefs : List (Text × Text) → Except ManifestError Unit
  | [] => .ok ()
  | (refname, oid) :: rest =>
      if !isSafeRefname refname then .error (.unsafeRefName refname)
      else if !isHexOid oid then .error (.malformedOid refname oid)
      else checkRefs rest

/-- The first pack key that `validate` refuses. -/
def checkPacks : List Text → Except ManifestError Unit
  | [] => .ok ()
  | pack :: rest =>
      if !isPackKey pack then .error (.malformedPackKey pack) else checkPacks rest

/-- The last check of `validate`. -/
def checkParent : Option Text → Except ManifestError Unit
  | none => .ok ()
  | some p => if !isManifestDigest p then .error (.malformedParent p) else .ok ()

/-- `Manifest::validate`. -/
def validate (m : Manifest) : Except ManifestError Unit :=
  if maxManifestPacks < m.packs.length then
    .error (.tooManyPacks m.packs.length maxManifestPacks)
  else if maxManifestRefs < m.refs.entries.length then
    .error (.tooManyRefs m.refs.entries.length maxManifestRefs)
  else if m.head = [] then .error .emptyHead
  else if !isSafeRefname m.head then .error (.unsafeRefName m.head)
  else do
    checkRefs m.refs.entries
    checkPacks m.packs
    checkParent m.parent

/-! ## Canonical JSON -/

/-- The fields in the order of their declaration. -/
def toJson (m : Manifest) : Json :=
  .obj [("version".toList, .num (decimal m.version)), ("head".toList, .str m.head),
    ("refs".toList, .obj (m.refs.entries.map fun e => (e.1, .str e.2))),
    ("packs".toList, .arr (m.packs.map .str)),
    ("parent".toList, match m.parent with
      | some p => .str p
      | none => .null)]

/-- `Manifest::canonical_bytes`, as text. -/
def canonicalBytes (m : Manifest) : Text := ({ m with packs := sortDedup m.packs }).toJson.print

/-- A `u32` field. -/
def readU32 : Json → Option Nat
  | .num token => (parseDigits token).filter (· < 2 ^ 32)
  | _ => none

/-- A `String` field. -/
def readString : Json → Option Text
  | .str s => some s
  | _ => none

/-- A `BTreeMap<String, String>` field. -/
def readRefs : Json → Option Refs
  | .obj members =>
      (members.mapM fun e => (readString e.2).map fun v => (e.1, v)).map
        (SortedMap.empty.insertAll ·)
  | _ => none

/-- A `Vec<String>` field. -/
def readStrings : Json → Option (List Text)
  | .arr items => items.mapM readString
  | _ => none

/-- An `Option<String>` field. -/
def readOptional : Json → Option (Option Text)
  | .null => some none
  | .str s => some (some s)
  | _ => none

/-- The only member with a name; a name given twice is an error. -/
def field (members : List (Text × Json)) (name : String) : Option Json :=
  match members.filter fun e => e.1 = name.toList with
  | [e] => some e.2
  | _ => none

/-- The derived `Deserialize`: an object with these fields and any others, or the fields in order. -/
def ofJson : Json → Option Manifest
  | .obj members => do
      let version ← (field members "version").bind readU32
      let head ← (field members "head").bind readString
      let refs ← (field members "refs").bind readRefs
      let packs ← (field members "packs").bind readStrings
      -- a missing optional field is `None`
      let parent ← if members.all fun e => e.1 ≠ "parent".toList then some none
        else (field members "parent").bind readOptional
      some ⟨version, head, refs, packs, parent⟩
  | .arr [version, head, refs, packs, parent] => do
      let version ← readU32 version
      let head ← readString head
      let refs ← readRefs refs
      let packs ← readStrings packs
      let parent ← readOptional parent
      some ⟨version, head, refs, packs, parent⟩
  | _ => none

/-- `Manifest::from_bytes`. -/
def fromBytes (bytes : Text) : Except ManifestError Manifest :=
  match (Json.decode bytes).bind ofJson with
  | none => .error .serde
  | some m =>
      if m.version ≠ manifestVersion then .error (.unsupportedVersion m.version manifestVersion)
      else .ok m

/-! ## The round trip -/

theorem mapM_readString (l : List Text) : (l.map Json.str).mapM readString = some l := by
  induction l with
  | nil => rfl
  | cons s l ih => simp [readString, ih]

theorem mapM_readMember (l : List (Text × Text)) :
    ((l.map fun e => (e.1, Json.str e.2)).mapM fun e => (readString e.2).map fun v => (e.1, v)) =
      some l := by
  induction l with
  | nil => rfl
  | cons e l ih =>
      rw [List.map_cons, List.mapM_cons, ih]
      rfl

theorem readRefs_toJson (refs : Refs) :
    readRefs (.obj (refs.entries.map fun e => (e.1, .str e.2))) = some refs := by
  rw [readRefs, mapM_readMember, Option.map_some, SortedMap.insertAll_entries]

theorem readU32_decimal {n : Nat} (h : n < 2 ^ 32) : readU32 (.num (decimal n)) = some n := by
  rw [readU32, parseDigits_decimal]
  exact Option.filter_some_pos (decide_eq_true h)

/-- The JSON value of the parent field. -/
def parentJson : Option Text → Json
  | some p => .str p
  | none => .null

theorem readOptional_parentJson (parent : Option Text) :
    readOptional (parentJson parent) = some parent := by
  cases parent <;> rfl

/-- The five members of a manifest's JSON object. -/
def jsonMembers (version head refs packs parent : Json) : List (Text × Json) :=
  [("version".toList, version), ("head".toList, head), ("refs".toList, refs),
    ("packs".toList, packs), ("parent".toList, parent)]

theorem toJson_eq (m : Manifest) :
    m.toJson = .obj (jsonMembers (.num (decimal m.version)) (.str m.head)
      (.obj (m.refs.entries.map fun e => (e.1, .str e.2))) (.arr (m.packs.map .str))
      (parentJson m.parent)) := by
  cases m with
  | mk version head refs packs parent => cases parent <;> rfl

theorem field_jsonMembers (version head refs packs parent : Json) :
    field (jsonMembers version head refs packs parent) "version" = some version ∧
      field (jsonMembers version head refs packs parent) "head" = some head ∧
      field (jsonMembers version head refs packs parent) "refs" = some refs ∧
      field (jsonMembers version head refs packs parent) "packs" = some packs ∧
      field (jsonMembers version head refs packs parent) "parent" = some parent ∧
      ((jsonMembers version head refs packs parent).all fun e => e.1 ≠ "parent".toList) = false :=
  ⟨rfl, rfl, rfl, rfl, rfl, rfl⟩

theorem ofJson_toJson {m : Manifest} (h : m.version < 2 ^ 32) : ofJson m.toJson = some m := by
  have hpacks : readStrings (.arr (m.packs.map .str)) = some m.packs := mapM_readString m.packs
  have hhead : readString (.str m.head) = some m.head := rfl
  rcases field_jsonMembers (.num (decimal m.version)) (.str m.head)
    (.obj (m.refs.entries.map fun e => (e.1, .str e.2))) (.arr (m.packs.map .str))
    (parentJson m.parent) with ⟨fversion, fhead, frefs, fpacks, fparent, fpresent⟩
  rw [toJson_eq, ofJson]
  simp only [fversion, fhead, frefs, fpacks, fparent, fpresent, Option.bind_some,
    readU32_decimal h, hhead, readRefs_toJson, hpacks, readOptional_parentJson, Bool.false_eq_true,
    if_false, Option.bind_eq_bind]

theorem valid_members (l : List (Text × Text)) :
    Json.ValidMembers (l.map fun e => (e.1, Json.str e.2)) := by
  induction l with
  | nil => trivial
  | cons e l ih => exact ⟨trivial, ih⟩

theorem valid_items (l : List Text) : Json.ValidItems (l.map Json.str) := by
  induction l with
  | nil => trivial
  | cons s l ih => exact ⟨trivial, ih⟩

theorem valid_toJson (m : Manifest) : m.toJson.Valid := by
  refine ⟨⟨Json.isNumber_decimal _, fun c hc => Json.isNumChar_of_mem_decimal hc⟩, trivial,
    valid_members _, valid_items _, ?_, trivial⟩
  cases m.parent <;> trivial

/-- The packs are in order and named once each, as the writer leaves them. -/
def Canonical (m : Manifest) : Prop := m.version = manifestVersion ∧ m.packs.Pairwise (· < ·)

/-- What is written is read back. -/
theorem fromBytes_canonicalBytes {m : Manifest} (h : m.Canonical) :
    fromBytes m.canonicalBytes = .ok m := by
  have hsame : ({ m with packs := sortDedup m.packs } : Manifest) = m := by
    rw [sortDedup_eq_self h.2]
  have hversion : m.version < 2 ^ 32 := by
    rw [h.1]
    decide
  unfold fromBytes canonicalBytes
  rw [hsame, Json.decode_print (valid_toJson m), Option.bind_some, ofJson_toJson hversion]
  simp [h.1]

theorem canonicalBytes_injOn {m n : Manifest} (hm : m.Canonical) (hn : n.Canonical)
    (h : m.canonicalBytes = n.canonicalBytes) : m = n := by
  have hread := fromBytes_canonicalBytes hm
  rw [h, fromBytes_canonicalBytes hn] at hread
  exact (Except.ok.inj hread).symm

end Manifest

end Git
end Relay
end Maju
