import Maju.Lib.Bytes
import Maju.Lib.Framing
import Maju.Lib.Json
import Maju.Lib.Text

/-!
# Envelope — the JSON that a git signature is carried in

A signature travels as one JSON object with the key, the signature, the time and, if the key was
delegated, the attestation of its owner.  The object is written by hand in a fixed order; what is
read is checked field by field.

* `validateConditions`, `validateHexField` — the checks of single fields;
* `buildEnvelope`, `parseEnvelope` — writer and reader;
* `Attestation.Admitted` — the attestations that the readers let through.
-/

namespace Maju
namespace GitSign

open Lib

/-- What the program takes from its libraries: `PublicKey::from_hex` and `serde_json` with the texts
of their errors, a text as `Debug` writes it, and keys and signatures in hexadecimal.
`verifySchnorr` has no answer for a key whose conversion by `xonly` fails. -/
structure Libraries (SecretKey : Type) where
  publicKeyFromHex : Text → Except Text Unit
  jsonError : Text → Text
  debugText : Text → Text
  sha256 : Bytes → Bytes
  publicKey : SecretKey → Text
  signSchnorr : SecretKey → Bytes → Text
  verifySchnorr : Text → Bytes → Text → Option Bool

/-! ## Fields -/

/-- `is_ascii_hexdigit` without capitals. -/
def isLowerHex (c : Char) : Bool := c.isDigit || ('a' ≤ c && c ≤ 'f')

def validateHexField (val : Text) (expectedLen : Nat) (name : Text) : Except Text Unit :=
  if byteLen val ≠ expectedLen then
    .error (name ++ " must be exactly ".toList ++ decimal expectedLen ++
      " characters, got ".toList ++ decimal (byteLen val))
  else if !val.all isLowerHex then .error (name ++ " must be lowercase hex".toList)
  else .ok ()

def parseDecimalU32 (s : Text) : Option Nat :=
  if s.isEmpty then none
  else if s.head? = some '+' ∨ s.head? = some '-' then none
  else if 1 < byteLen s ∧ s.head? = some '0' then none
  else (parseDigits s).filter (· < 2 ^ 32)

def validClause (clause : Text) : Bool :=
  if clause.isEmpty then false
  else
    match afterPrefix "kind=".toList clause with
    | some val => (parseDecimalU32 val).any fun n => n ≤ 65535
    | none =>
        match afterPrefix "created_at<".toList clause with
        | some val => (parseDecimalU32 val).isSome
        | none =>
            match afterPrefix "created_at>".toList clause with
            | some val => (parseDecimalU32 val).isSome
            | none => false

def validateConditions (conditions : Text) : Bool :=
  conditions.isEmpty || (fields '&' conditions).all validClause

/-- The owner of a key, what it may be used for and the owner's signature. -/
structure Attestation where
  owner : Text
  conditions : Text
  sig : Text
  deriving DecidableEq, Repr

/-- The shape of an attestation that is signed or read. -/
structure Attestation.Admitted (oa : Attestation) : Prop where
  owner : byteLen oa.owner = 64 ∧ oa.owner.all isLowerHex = true
  conditions : validateConditions oa.conditions = true
  sig : byteLen oa.sig = 128 ∧ oa.sig.all isLowerHex = true

theorem validateHexField_ok {val name : Text} {n : Nat}
    (h : validateHexField val n name = .ok ()) : byteLen val = n ∧ val.all isLowerHex = true := by
  unfold validateHexField at h
  by_cases hlen : byteLen val = n
  · by_cases hhex : val.all isLowerHex = true
    · exact ⟨hlen, hhex⟩
    · rw [if_neg (not_not_intro hlen), if_pos (by simpa using hhex)] at h
      cases h
  · rw [if_pos hlen] at h
    cases h

/-! ## The envelope -/

structure Envelope where
  pk : Text
  sig : Text
  t : Nat
  oa : Option Attestation
  deriving DecidableEq, Repr

def buildEnvelope (envelope : Envelope) : Text :=
  match envelope.oa with
  | some oa =>
      "\x7b\"v\":1,\"pk\":\"".toList ++ envelope.pk ++ "\",\"sig\":\"".toList ++ envelope.sig ++
        "\",\"t\":".toList ++ decimal envelope.t ++ ",\"oa\":[\"".toList ++ oa.owner ++
        "\",\"".toList ++ oa.conditions ++ "\",\"".toList ++ oa.sig ++ "\"]\x7d".toList
  | none =>
      "\x7b\"v\":1,\"pk\":\"".toList ++ envelope.pk ++ "\",\"sig\":\"".toList ++ envelope.sig ++
        "\",\"t\":".toList ++ decimal envelope.t ++ "\x7d".toList

/-- `has_non_string_whitespace`, inside a string or not and behind a backslash or not. -/
def hasSpaceOutside : Bool → Bool → Text → Bool
  | _, _, [] => false
  | inString, true, _ :: rest => hasSpaceOutside inString false rest
  | true, false, c :: rest =>
      if c = '\\' then hasSpaceOutside true true rest
      else if c = '"' then hasSpaceOutside false false rest
      else hasSpaceOutside true false rest
  | false, false, c :: rest =>
      if c = '"' then hasSpaceOutside true false rest
      else if c = ' ' ∨ c = '\t' ∨ c = '\n' ∨ c = '\r' ∨ c.toNat = 12 then true
      else hasSpaceOutside false false rest

def hasNonStringWhitespace (s : Text) : Bool := hasSpaceOutside false false s

/-! ## Reading -/

section Reading

variable {SecretKey : Type} (lib : Libraries SecretKey)

/-- `ok_or`. -/
def required {α : Type} (x : Option α) (message : Text) : Except Text α :=
  match x with
  | some a => .ok a
  | none => .error message

/-- A required text of lowercase hexadecimal digits. -/
def hexMember (obj : Json) (name : String) (n : Nat) : Except Text Text := do
  let value ← required (obj.get name) ("missing required field: ".toList ++ name.toList)
  let text ← required value.asStr (name.toList ++ " must be a string".toList)
  validateHexField text n name.toList
  .ok text

/-- `Value::as_u64`. -/
def asU64 : Json → Option Nat
  | .num token => parseU64 token
  | _ => none

/-- The token of a number that is a float: no integer of 64 bits, with a sign or without. -/
def isFloat : Json → Bool
  | .num token =>
      match parseU64 token, token with
      | some _, _ => false
      | none, '-' :: digits => !(parseDigits digits).any fun n => 0 < n ∧ n ≤ 2 ^ 63
      | none, _ => true
  | _ => false

def timeMember (obj : Json) : Except Text Nat := do
  let value ← required (obj.get "t") "missing required field: t".toList
  if isFloat value then .error "t must be an integer, not a float".toList
  else
    let t ← required (asU64 value) "t must be a non-negative integer".toList
    if 4294967295 < t then .error ("t out of range: ".toList ++ decimal t) else .ok t

/-- The three texts of an attestation. -/
def parseOa (pk : Text) (value : Json) : Except Text Attestation :=
  match value with
  | .arr [owner, conditions, sig] => do
      let owner ← required owner.asStr "oa[0] must be a string".toList
      let conditions ← required conditions.asStr "oa[1] must be a string".toList
      let sig ← required sig.asStr "oa[2] must be a string".toList
      validateHexField owner 64 "oa[0]".toList
      validateHexField sig 128 "oa[2]".toList
      if !validateConditions conditions then
        .error ("oa[1] conditions contain invalid characters ".toList ++
          "(allowed: alphanumeric, _=<>&)".toList)
      else
        match lib.publicKeyFromHex owner with
        | .error e => .error ("oa[0] is not a valid BIP-340 public key: ".toList ++ e)
        | .ok () =>
            if owner = pk then
              .error "oa[0] (owner) must not equal pk (self-attestation)".toList
            else .ok ⟨owner, conditions, sig⟩
  | .arr items =>
      .error ("oa must have exactly 3 elements, got ".toList ++ decimal items.length)
  | _ => .error "oa must be an array".toList

def allowedKeys : List Text :=
  ["v".toList, "pk".toList, "sig".toList, "t".toList, "oa".toList]

/-- The members of an envelope one after another. -/
def parseMembers (obj : Json) : Except Text Envelope := do
  let v ← required (obj.get "v") "missing required field: v".toList
  let v ← required (asU64 v) "v must be an integer".toList
  if v ≠ 1 then .error ("unsupported version: ".toList ++ decimal v)
  else
    let pk ← hexMember obj "pk" 64
    let sig ← hexMember obj "sig" 128
    let t ← timeMember obj
    match obj.get "oa" with
    | none => .ok ⟨pk, sig, t, none⟩
    | some value =>
        let oa ← parseOa lib pk value
        .ok ⟨pk, sig, t, some oa⟩

/-- `parse_envelope`; the keys of an object are gone through in the order of their bytes. -/
def parseEnvelope (jsonStr : Text) : Except Text Envelope :=
  match Json.decode jsonStr with
  | none => .error ("invalid JSON: ".toList ++ lib.jsonError jsonStr)
  | some (.obj members) =>
      match (sortByBytes encode (members.map Prod.fst)).find? fun key => key ∉ allowedKeys with
      | some key => .error ("unknown key in v=1 envelope: ".toList ++ lib.debugText key)
      | none => parseMembers lib (.obj members)
  | some _ => .error "JSON must be an object".toList

end Reading

/-! ## What the readers let through -/

theorem bind_ok {ε α β : Type} {x : Except ε α} {f : α → Except ε β} {b : β}
    (h : (x >>= f) = .ok b) : ∃ a, x = .ok a ∧ f a = .ok b := by
  cases x with
  | error e => cases h
  | ok a => exact ⟨a, rfl, h⟩

section

variable {SecretKey : Type} {lib : Libraries SecretKey}

theorem parseOa_ok {pk : Text} {value : Json} {oa : Attestation}
    (h : parseOa lib pk value = .ok oa) :
    oa.Admitted ∧ lib.publicKeyFromHex oa.owner = .ok () := by
  unfold parseOa at h
  split at h
  · obtain ⟨owner, _, h⟩ := bind_ok h
    obtain ⟨conditions, _, h⟩ := bind_ok h
    obtain ⟨sig, _, h⟩ := bind_ok h
    obtain ⟨_, howner, h⟩ := bind_ok h
    obtain ⟨_, hsig, h⟩ := bind_ok h
    cases hconditions : validateConditions conditions with
    | false =>
        rw [hconditions] at h
        cases h
    | true =>
        rw [hconditions] at h
        cases hkey : lib.publicKeyFromHex owner with
        | error e =>
            rw [hkey] at h
            cases h
        | ok _ =>
            rw [hkey] at h
            by_cases hself : owner = pk
            · simp [hself] at h
            · simp only [Bool.not_true, Bool.false_eq_true, if_false, hself] at h
              cases h
              exact ⟨⟨validateHexField_ok howner, hconditions, validateHexField_ok hsig⟩, hkey⟩
  · cases h
  · cases h

theorem timeMember_ok {obj : Json} {t : Nat} (h : timeMember obj = .ok t) : t < 2 ^ 32 := by
  obtain ⟨value, _, h⟩ := bind_ok h
  by_cases hfloat : isFloat value = true
  · rw [if_pos hfloat] at h
    cases h
  · rw [if_neg hfloat] at h
    obtain ⟨n, _, h⟩ := bind_ok h
    by_cases hlarge : 4294967295 < n
    · rw [if_pos hlarge] at h
      cases h
    · rw [if_neg hlarge] at h
      cases h
      omega

theorem parseEnvelope_ok {jsonStr : Text} {envelope : Envelope}
    (h : parseEnvelope lib jsonStr = .ok envelope) :
    envelope.t < 2 ^ 32 ∧ ∀ oa ∈ envelope.oa,
      oa.Admitted ∧ lib.publicKeyFromHex oa.owner = .ok () := by
  unfold parseEnvelope at h
  split at h
  · cases h
  · split at h
    · cases h
    · obtain ⟨_, _, h⟩ := bind_ok h
      obtain ⟨v, _, h⟩ := bind_ok h
      by_cases hv : v ≠ 1
      · rw [if_pos hv] at h
        cases h
      · rw [if_neg hv] at h
        obtain ⟨pk, _, h⟩ := bind_ok h
        obtain ⟨sig, _, h⟩ := bind_ok h
        obtain ⟨t, ht, h⟩ := bind_ok h
        split at h
        · cases h
          exact ⟨timeMember_ok ht, fun oa hoa => by cases hoa⟩
        · obtain ⟨oa, hoa, h⟩ := bind_ok h
          cases h
          refine ⟨timeMember_ok ht, fun other hother => ?_⟩
          cases hother
          exact parseOa_ok hoa
  · cases h

end

/-! ## The characters of a field -/

/-- The characters of hexadecimal digits and of conditions: no colon among them, and none that JSON
would escape. -/
def isFieldChar (c : Char) : Bool :=
  c.isAlphanum || c = '_' || c = '=' || c = '<' || c = '>' || c = '&'

theorem isFieldChar_of_isLowerHex {c : Char} (h : isLowerHex c = true) : isFieldChar c = true := by
  have halnum : c.isAlphanum = true := by
    rcases Bool.or_eq_true_iff.1 h with hdigit | hletter
    · exact Bool.or_eq_true_iff.2 (Or.inr hdigit)
    · obtain ⟨hlow, hhigh⟩ := (Bool.and_eq_true_iff.1 hletter)
      have hle : c ≤ 'z' := Char.le_trans (of_decide_eq_true hhigh) (by decide)
      have hlower : c.isLower = true :=
        Bool.and_eq_true_iff.2 ⟨decide_eq_true (of_decide_eq_true hlow), decide_eq_true hle⟩
      exact Bool.or_eq_true_iff.2 (Or.inl (Bool.or_eq_true_iff.2 (Or.inr hlower)))
  simp [isFieldChar, halnum]

theorem isFieldChar_of_parseDecimalU32 {s : Text} {n : Nat} (h : parseDecimalU32 s = some n) :
    ∀ c ∈ s, isFieldChar c = true := by
  have hdigits : ∃ m, parseDigits s = some m := by
    unfold parseDecimalU32 at h
    split_ifs at h
    exact ⟨n, (Option.filter_eq_some_iff.1 h).1⟩
  obtain ⟨m, hm⟩ := hdigits
  intro c hc
  unfold parseDigits at hm
  split_ifs at hm with hall
  simp [isFieldChar, Char.isAlphanum, List.all_eq_true.1 hall.2 c hc]

theorem isFieldChar_of_validClause {clause : Text} (h : validClause clause = true) :
    ∀ c ∈ clause, isFieldChar c = true := by
  have hparts : ∃ name value n, clause = name ++ value ∧ (∀ c ∈ name, isFieldChar c = true) ∧
      parseDecimalU32 value = some n := by
    unfold validClause at h
    split_ifs at h
    split at h
    · next val hval =>
        cases hn : parseDecimalU32 val with
        | none =>
            rw [hn] at h
            cases h
        | some n => exact ⟨_, val, n, afterPrefix_eq_some_iff.1 hval, by simp [isFieldChar], hn⟩
    · split at h
      · next val hval =>
          obtain ⟨n, hn⟩ := Option.isSome_iff_exists.1 h
          exact ⟨_, val, n, afterPrefix_eq_some_iff.1 hval, by simp [isFieldChar], hn⟩
      · split at h
        · next val hval =>
            obtain ⟨n, hn⟩ := Option.isSome_iff_exists.1 h
            exact ⟨_, val, n, afterPrefix_eq_some_iff.1 hval, by simp [isFieldChar], hn⟩
        · cases h
  obtain ⟨name, value, n, hclause, hname, hvalue⟩ := hparts
  intro c hc
  rcases List.mem_append.1 (hclause ▸ hc) with hin | hin
  · exact hname c hin
  · exact isFieldChar_of_parseDecimalU32 hvalue c hin

theorem isFieldChar_of_validateConditions {conditions : Text}
    (h : validateConditions conditions = true) : ∀ c ∈ conditions, isFieldChar c = true := by
  intro c hc
  rcases Bool.or_eq_true_iff.1 h with hempty | hclauses
  · rw [List.isEmpty_iff.1 hempty] at hc
    cases hc
  · by_cases hsep : c = '&'
    · rw [hsep]
      decide
    · obtain ⟨clause, hclause, hin⟩ := exists_mem_fields hc hsep
      exact isFieldChar_of_validClause (List.all_eq_true.1 hclauses clause hclause) c hin

theorem not_mem_of_isFieldChar {text : Text} (h : ∀ c ∈ text, isFieldChar c = true) :
    ':' ∉ text := by
  intro hmem
  cases (h ':' hmem).symm.trans (by decide : isFieldChar ':' = false)

theorem escapeChar_of_isFieldChar {c : Char} (h : isFieldChar c = true) :
    Json.escapeChar c = [c] :=
  Json.escapeChar_of_forall (by decide) (by decide) (by decide) h

theorem Attestation.Admitted.chars {oa : Attestation} (h : oa.Admitted) :
    (∀ c ∈ oa.owner, isFieldChar c = true) ∧ (∀ c ∈ oa.conditions, isFieldChar c = true) ∧
      ∀ c ∈ oa.sig, isFieldChar c = true :=
  ⟨fun c hc => isFieldChar_of_isLowerHex (List.all_eq_true.1 h.owner.2 c hc),
    isFieldChar_of_validateConditions h.conditions,
    fun c hc => isFieldChar_of_isLowerHex (List.all_eq_true.1 h.sig.2 c hc)⟩

/-! ## What is written can be read -/

/-- The value that `build_envelope` writes. -/
def Envelope.toJson (envelope : Envelope) : Json :=
  .obj ([("v".toList, .num "1".toList), ("pk".toList, .str envelope.pk),
      ("sig".toList, .str envelope.sig), ("t".toList, .num (decimal envelope.t))] ++
    match envelope.oa with
    | none => []
    | some oa => [("oa".toList, .arr [.str oa.owner, .str oa.conditions, .str oa.sig])])

/-- The fields of an envelope have the shapes that are read. -/
structure Envelope.WellFormed {SecretKey : Type} (lib : Libraries SecretKey) (envelope : Envelope) :
    Prop where
  pk : byteLen envelope.pk = 64 ∧ envelope.pk.all isLowerHex = true
  sig : byteLen envelope.sig = 128 ∧ envelope.sig.all isLowerHex = true
  time : envelope.t < 2 ^ 32
  attestation : ∀ oa ∈ envelope.oa, oa.Admitted ∧ lib.publicKeyFromHex oa.owner = .ok () ∧
    oa.owner ≠ envelope.pk

section

variable {SecretKey : Type} {lib : Libraries SecretKey} {envelope : Envelope}

theorem quote_of_isFieldChar {s : Text} (h : ∀ c ∈ s, isFieldChar c = true) :
    Json.quote s = '"' :: (s ++ ['"']) :=
  Json.quote_eq fun c hc => escapeChar_of_isFieldChar (h c hc)

theorem Envelope.WellFormed.print_toJson (h : envelope.WellFormed lib) :
    Json.print envelope.toJson = buildEnvelope envelope := by
  have hpk := quote_of_isFieldChar fun c hc =>
    isFieldChar_of_isLowerHex (List.all_eq_true.1 h.pk.2 c hc)
  have hsig := quote_of_isFieldChar fun c hc =>
    isFieldChar_of_isLowerHex (List.all_eq_true.1 h.sig.2 c hc)
  have hnames : Json.quote ['v'] = ['"', 'v', '"'] ∧ Json.quote ['p', 'k'] = ['"', 'p', 'k', '"'] ∧
      Json.quote ['s', 'i', 'g'] = ['"', 's', 'i', 'g', '"'] ∧ Json.quote ['t'] = ['"', 't', '"'] ∧
      Json.quote ['o', 'a'] = ['"', 'o', 'a', '"'] := by decide
  rcases hnames with ⟨hv, hpkname, hsigname, ht, hoaname⟩
  unfold Envelope.toJson buildEnvelope
  cases hoa : envelope.oa with
  | none =>
      simp [Json.print, Json.printMembers, hpk, hsig, hv, hpkname, hsigname, ht]
  | some oa =>
      have hchars := (h.attestation oa hoa).1.chars
      simp [Json.print, Json.printMembers, Json.printItems, hpk, hsig, hv, hpkname, hsigname, ht,
        hoaname, quote_of_isFieldChar hchars.1, quote_of_isFieldChar hchars.2.1,
        quote_of_isFieldChar hchars.2.2]

theorem decode_buildEnvelope (h : envelope.WellFormed lib) :
    Json.decode (buildEnvelope envelope) = some envelope.toJson := by
  rw [← h.print_toJson]
  apply Json.decode_print
  have hone : Json.isNumber ['1'] = true ∧ Json.isNumChar '1' = true := by decide
  have htime : Json.isNumber (decimal envelope.t) = true ∧
      ∀ c ∈ decimal envelope.t, Json.isNumChar c = true :=
    ⟨Json.isNumber_decimal _, fun c hc => Json.isNumChar_of_mem_decimal hc⟩
  unfold Envelope.toJson
  cases envelope.oa with
  | none => simpa [Json.Valid, Json.ValidMembers, hone] using htime
  | some oa => simpa [Json.Valid, Json.ValidMembers, Json.ValidItems, hone] using htime

theorem toJson_keys (envelope : Envelope) :
    ∃ members, envelope.toJson = .obj members ∧
      ∀ key ∈ members.map Prod.fst, key ∈ allowedKeys := by
  refine ⟨_, rfl, ?_⟩
  cases envelope.oa with
  | none => simp [allowedKeys]
  | some oa => simp [allowedKeys]

theorem toJson_get (envelope : Envelope) :
    envelope.toJson.get "v" = some (.num "1".toList) ∧
      envelope.toJson.get "pk" = some (.str envelope.pk) ∧
      envelope.toJson.get "sig" = some (.str envelope.sig) ∧
      envelope.toJson.get "t" = some (.num (decimal envelope.t)) ∧
      envelope.toJson.get "oa" =
        envelope.oa.map fun oa => .arr [.str oa.owner, .str oa.conditions, .str oa.sig] := by
  unfold Envelope.toJson
  cases envelope.oa with
  | none => simp [Json.get]
  | some oa => simp [Json.get]

theorem validateHexField_of {val name : Text} {n : Nat}
    (h : byteLen val = n ∧ val.all isLowerHex = true) : validateHexField val n name = .ok () := by
  rw [validateHexField, if_neg (not_not_intro h.1), h.2]
  rfl

theorem hexMember_eq {obj : Json} {name : String} {n : Nat} {val : Text}
    (hget : obj.get name = some (.str val)) (h : byteLen val = n ∧ val.all isLowerHex = true) :
    hexMember obj name n = .ok val := by
  simp [hexMember, hget, required, Json.asStr, validateHexField_of h, bind, Except.bind]

theorem timeMember_eq {obj : Json} {t : Nat} (hget : obj.get "t" = some (.num (decimal t)))
    (ht : t < 2 ^ 32) : timeMember obj = .ok t := by
  have hparse : parseU64 (decimal t) = some t := parseU64_decimal (by omega)
  have hsmall : ¬ 4294967295 < t := by omega
  simp [timeMember, hget, required, isFloat, asU64, hparse, hsmall, bind, Except.bind]

theorem parseOa_eq {pk : Text} {oa : Attestation} (h : oa.Admitted)
    (hkey : lib.publicKeyFromHex oa.owner = .ok ()) (hself : oa.owner ≠ pk) :
    parseOa lib pk (.arr [.str oa.owner, .str oa.conditions, .str oa.sig]) = .ok oa := by
  simp [parseOa, required, Json.asStr, validateHexField_of h.owner, validateHexField_of h.sig,
    h.conditions, hkey, hself, bind, Except.bind]

theorem parseEnvelope_buildEnvelope (h : envelope.WellFormed lib) :
    parseEnvelope lib (buildEnvelope envelope) = .ok envelope := by
  obtain ⟨members, hmembers, hkeys⟩ := toJson_keys envelope
  have hnone : (sortByBytes encode (members.map Prod.fst)).find? (fun key => key ∉ allowedKeys) =
      none := by
    refine List.find?_eq_none.2 fun key hkey => ?_
    have hmem := (sortByBytes_perm encode (members.map Prod.fst)).mem_iff.1 hkey
    simpa using hkeys key hmem
  obtain ⟨hv, hpk, hsig, ht, hoa⟩ := toJson_get envelope
  have hone : asU64 (.num "1".toList) = some 1 := by decide
  have hfields : parseMembers lib envelope.toJson = .ok envelope := by
    cases henvelope : envelope with
    | mk pk sig t oa =>
        rw [henvelope] at h hv hpk hsig ht hoa
        rw [parseMembers, hv]
        simp only [required, hone, hexMember_eq hpk h.pk, hexMember_eq hsig h.sig,
          timeMember_eq ht h.time, hoa, bind, Except.bind, ne_eq, not_true_eq_false, if_false]
        cases oa with
        | none => rfl
        | some oa =>
            obtain ⟨hadmitted, hkey, hself⟩ := h.attestation oa rfl
            simp only [Option.map_some, parseOa_eq hadmitted hkey hself]
  rw [parseEnvelope, decode_buildEnvelope h, hmembers]
  simp only [hnone]
  rw [← hmembers, hfields]

end

end GitSign
end Maju
