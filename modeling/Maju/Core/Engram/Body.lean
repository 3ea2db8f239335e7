import Maju.Core.Engram.Slug
import Maju.Lib.Json

/-!
# Body — what an engram says, as JSON

A body is the profile of the agent or one entry of its memory; an entry without a value is deleted.
It is written by hand, with the slug first, and read by a parser that rejects repeated members:

* `Body.toJsonBytes` — the writer, with its own escapes;
* `SerdeJson` — the JSON reader of the library, as a parameter;
* `parseStrictJson`, `Body.fromJsonBytes` — the reader;
* `fromJsonBytes_toJsonBytes` — what is written is read back.
-/

namespace Maju
namespace Core
namespace Engram

open Lib

inductive EngramError where
  | invalidSlug (why : SlugError)
  | invalidBody (message : String)
  | invalidEnvelope (message : String)
  | decrypt
  | encrypt (message : String)
  | bodyTooLarge (len : Nat)
  | sign (message : String)
  deriving DecidableEq, Repr

inductive Body where
  | core (profile : Text)
  | memory (slug : Text) (value : Option Text)
  deriving DecidableEq, Repr

namespace Body

def slug : Body → Text
  | .core _ => coreSlug
  | .memory slug _ => slug

def isTombstone : Body → Bool
  | .memory _ none => true
  | _ => false

/-- The slug of a body that a program builds: `core` for the profile, `mem/…` for an entry. -/
def WellSlugged : Body → Prop
  | .core _ => True
  | .memory slug _ => memPrefix.isPrefixOf slug = true ∧ validateSlug slug = .ok ()

end Body

/-! ## Writing -/

/-- One character of `write_json_string`. -/
def writeJsonChar (ch : Char) : Text :=
  if ch = '"' then ['\\', '"']
  else if ch = '\\' then ['\\', '\\']
  else if ch.toNat = 0x08 then ['\\', 'b']
  else if ch.toNat = 0x0c then ['\\', 'f']
  else if ch = '\n' then ['\\', 'n']
  else if ch = '\r' then ['\\', 'r']
  else if ch = '\t' then ['\\', 't']
  else if ch.toNat < 0x20 then '\\' :: 'u' :: hexDigits 4 ch.toNat
  else [ch]

def writeJsonString (s : Text) : Text := '"' :: (s.flatMap writeJsonChar ++ ['"'])

namespace Body

/-- The text of `to_json_bytes`. -/
def toJson (body : Body) : Text :=
  '\x7b' :: ("\"slug\":".toList ++ (writeJsonString body.slug ++
    ((match body with
      | .memory _ (some v) => ",\"value\":".toList ++ writeJsonString v
      | .memory _ none => ",\"value\":null".toList
      | .core profile => ",\"profile\":".toList ++ writeJsonString profile) ++ ['\x7d'])))

def toJsonBytes (body : Body) : Bytes := encode body.toJson

end Body

/-! ## Reading -/

/-- What is taken from `serde_json`: the value that a deserializer shows to its visitor, members in
order and with repetitions, with the bytes behind it; `Deserializer::end` on those; and the text of
an error of a visitor. -/
structure SerdeJson where
  value : Bytes → Except String (Json × Bytes)
  finish : Bytes → Except String Unit
  custom : String → String

mutual

/-- The visitor `StrictValue`: no object repeats a member. -/
def strictValue : Json → Except String Json
  | .arr items => (strictItems items).map .arr
  | .obj members => (strictMembers [] members).map .obj
  | .null => .ok .null
  | .bool b => .ok (.bool b)
  | .num token => .ok (.num token)
  | .str s => .ok (.str s)

/-- `visit_seq`. -/
def strictItems : List Json → Except String (List Json)
  | [] => .ok []
  | v :: vs =>
      match strictValue v with
      | .error e => .error e
      | .ok v => (strictItems vs).map (v :: ·)

/-- `visit_map`, behind the members with the names `seen`. -/
def strictMembers (seen : List Text) : List (Text × Json) → Except String (List (Text × Json))
  | [] => .ok []
  | (k, v) :: ms =>
      if k ∈ seen then .error ("duplicate object member name: " ++ String.ofList k)
      else
        match strictValue v with
        | .error e => .error e
        | .ok v => (strictMembers (k :: seen) ms).map ((k, v) :: ·)

end

def parseStrictJson (serde : SerdeJson) (bytes : Bytes) : Except EngramError Json :=
  match serde.value bytes with
  | .error e => .error (.invalidBody ("invalid JSON body: " ++ e))
  | .ok (v, rest) =>
      match strictValue v with
      | .error e => .error (.invalidBody ("invalid JSON body: " ++ serde.custom e))
      | .ok v =>
          match serde.finish rest with
          | .error e => .error (.invalidBody ("trailing data after JSON body: " ++ e))
          | .ok () => .ok v

def Body.fromJsonBytes (serde : SerdeJson) (bytes : Bytes) : Except EngramError Body :=
  match parseStrictJson serde bytes with
  | .error e => .error e
  | .ok raw =>
      if !raw.isObject then .error (.invalidBody "top-level not an object")
      else
        match raw.get "slug" with
        | none => .error (.invalidBody "missing `slug`")
        | some (.str slug) =>
            match validateSlug slug with
            | .error why => .error (.invalidSlug why)
            | .ok () =>
                if slug = coreSlug then
                  match raw.get "profile" with
                  | some (.str profile) => .ok (.core profile)
                  | some _ => .error (.invalidBody "`profile` is not a string")
                  | none => .error (.invalidBody "core missing `profile`")
                else
                  match raw.get "value" with
                  | some (.str value) => .ok (.memory slug (some value))
                  | some .null => .ok (.memory slug none)
                  | some _ => .error (.invalidBody "`value` is not a string")
                  | none => .error (.invalidBody "memory missing `value`")
        | some _ => .error (.invalidBody "`slug` is not a string")

/-! ## The round trip -/

/-- An object whose members are strings or null. -/
def IsFlat (v : Json) : Prop :=
  ∃ members, v = .obj members ∧ ∀ m ∈ members, m.2 = .null ∨ ∃ s, m.2 = .str s

/-- The library reads JSON as RFC 8259 has it, as far as flat objects go. -/
structure SerdeJson.Correct (serde : SerdeJson) : Prop where
  reads : ∀ text v, Json.decode text = some v → IsFlat v →
    ∃ rest, serde.value (encode text) = .ok (v, rest) ∧ serde.finish rest = .ok ()

theorem writeJsonChar_eq (ch : Char) : writeJsonChar ch = Json.escapeChar ch := by
  have hnat : ∀ c : Char, ch = c ↔ ch.toNat = c.toNat := fun c => Char.toNat_inj.symm
  have hdigits : ch.toNat < 32 →
      hexDigits 4 ch.toNat = ['0', '0', hexDigit (ch.toNat / 16), hexDigit (ch.toNat % 16)] := by
    intro hlt
    have hhigh : ch.toNat / 16 / 16 = 0 := Nat.div_eq_of_lt (by omega)
    have hmid : ch.toNat / 16 % 16 = ch.toNat / 16 := Nat.mod_eq_of_lt (by omega)
    simp [hexDigits, hhigh, hmid, hexDigit]
  have hnewline : '\n'.toNat = 10 := rfl
  have hreturn : '\r'.toNat = 13 := rfl
  have htab : '\t'.toNat = 9 := rfl
  unfold writeJsonChar Json.escapeChar
  simp only [hnat '\n', hnat '\r', hnat '\t', hnewline, hreturn, htab]
  split_ifs
  all_goals first
    | rfl
    | omega
    | rw [hdigits ‹_›]

theorem writeJsonString_eq (s : Text) : writeJsonString s = Json.quote s := by
  have htail : s.flatMap writeJsonChar ++ ['"'] = Json.quoteTail s := by
    induction s with
    | nil => rfl
    | cons ch s ih =>
        rw [List.flatMap_cons, List.append_assoc, ih, writeJsonChar_eq, Json.quoteTail]
  rw [writeJsonString, htail, Json.quote]

namespace Body

/-- The members of the object that is written. -/
def members : Body → List (Text × Json)
  | .core profile => [("slug".toList, .str coreSlug), ("profile".toList, .str profile)]
  | .memory slug (some v) => [("slug".toList, .str slug), ("value".toList, .str v)]
  | .memory slug none => [("slug".toList, .str slug), ("value".toList, .null)]

theorem toJson_eq (body : Body) : body.toJson = Json.print (.obj body.members) := by
  have hslug : Json.quote ['s', 'l', 'u', 'g'] = ['"', 's', 'l', 'u', 'g', '"'] := rfl
  have hvalue : Json.quote ['v', 'a', 'l', 'u', 'e'] = ['"', 'v', 'a', 'l', 'u', 'e', '"'] := rfl
  have hprofile : Json.quote ['p', 'r', 'o', 'f', 'i', 'l', 'e'] =
      ['"', 'p', 'r', 'o', 'f', 'i', 'l', 'e', '"'] := rfl
  cases body with
  | core profile =>
      simp [toJson, members, slug, Json.print, Json.printMembers, writeJsonString_eq, hslug,
        hprofile]
  | memory slug value =>
      cases value with
      | none =>
          simp [toJson, members, Body.slug, Json.print, Json.printMembers, writeJsonString_eq,
            hslug, hvalue]
      | some v =>
          simp [toJson, members, Body.slug, Json.print, Json.printMembers, writeJsonString_eq,
            hslug, hvalue]

theorem valid_members (body : Body) : Json.Valid (.obj body.members) := by
  cases body with
  | core profile => exact ⟨trivial, trivial, trivial⟩
  | memory slug value =>
      cases value with
      | none => exact ⟨trivial, trivial, trivial⟩
      | some v => exact ⟨trivial, trivial, trivial⟩

theorem isFlat_members (body : Body) : IsFlat (.obj body.members) := by
  refine ⟨_, rfl, fun m hm => ?_⟩
  cases body with
  | core profile =>
      simp only [members, List.mem_cons, List.not_mem_nil, or_false] at hm
      rcases hm with rfl | rfl
      · exact Or.inr ⟨_, rfl⟩
      · exact Or.inr ⟨_, rfl⟩
  | memory slug value =>
      cases value with
      | none =>
          simp only [members, List.mem_cons, List.not_mem_nil, or_false] at hm
          rcases hm with rfl | rfl
          · exact Or.inr ⟨_, rfl⟩
          · exact Or.inl rfl
      | some v =>
          simp only [members, List.mem_cons, List.not_mem_nil, or_false] at hm
          rcases hm with rfl | rfl
          · exact Or.inr ⟨_, rfl⟩
          · exact Or.inr ⟨_, rfl⟩

theorem strictValue_members (body : Body) :
    strictValue (.obj body.members) = .ok (.obj body.members) := by
  cases body with
  | core profile => rfl
  | memory slug value =>
      cases value with
      | none => rfl
      | some v => rfl

/-- What is written is read back. -/
theorem fromJsonBytes_toJsonBytes {serde : SerdeJson} (hserde : serde.Correct) {body : Body}
    (hslug : body.WellSlugged) : fromJsonBytes serde body.toJsonBytes = .ok body := by
  have hdecode : Json.decode body.toJson = some (.obj body.members) := by
    rw [toJson_eq]
    exact Json.decode_print (valid_members body)
  obtain ⟨rest, hvalue, hfinish⟩ := hserde.reads _ _ hdecode (isFlat_members body)
  have hparse : parseStrictJson serde body.toJsonBytes = .ok (.obj body.members) := by
    simp only [parseStrictJson, toJsonBytes, hvalue, strictValue_members, hfinish]
  cases body with
  | core profile =>
      have hcore : validateSlug coreSlug = .ok () := rfl
      simp [fromJsonBytes, hparse, members, Json.isObject, Json.get, hcore]
  | memory slug value =>
      obtain ⟨hmem, hvalid⟩ := hslug
      have hne : slug ≠ coreSlug := by
        rintro rfl
        cases hmem
      cases value with
      | none => simp [fromJsonBytes, hparse, members, Json.isObject, Json.get, hvalid, hne]
      | some v => simp [fromJsonBytes, hparse, members, Json.isObject, Json.get, hvalid, hne]

end Body

end Engram
end Core
end Maju
