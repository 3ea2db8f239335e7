import Maju.GitSign.Binding
import Maju.Lib.Base64
import Maju.Lib.JsonValue
import Maju.Lib.Slice

/-!
# Armor — the file that a git signature is

An envelope is written as JSON, the JSON as base64, and the base64 between two marker lines.  A
file is read through the same layers, each with a limit of its own, and what was read is written
again and compared.

* `armor`, `parseArmor` — the outer layer;
* `readSignature`, `openEnvelope`, `openSignature` — from the file to the fields;
* `Embeddable` — the fields that `do_sign` can write;
* `openSignature_codec` — these fields are read back, and nothing but what is written for them is.
-/

namespace Maju
namespace GitSign

open Lib

/-- The `STANDARD` engine of the base64 library; `decode` with the text of its error. -/
structure Base64Engine where
  encode : Bytes → Text
  decode : Text → Except Text Bytes

/-- The engine takes what it writes and nothing else: neither padding nor bits at the end vary. -/
structure Base64Engine.Standard (engine : Base64Engine) : Prop where
  decode_ok_iff : ∀ {text : Text} {bytes : Bytes},
    engine.decode text = .ok bytes ↔ text = engine.encode bytes
  length : ∀ bytes : Bytes, (engine.encode bytes).length = (bytes.length + 2) / 3 * 4
  chars : ∀ bytes : Bytes, ∀ c ∈ engine.encode bytes, c ∈ Base64.alphabet ∨ c = '='

/-! ## The armor -/

def armorBegin : Text := "-----BEGIN SIGNED MESSAGE-----".toList

def armorEnd : Text := "-----END SIGNED MESSAGE-----".toList

def armor (engine : Base64Engine) (jsonBytes : Bytes) : Text :=
  armorBegin ++ "\n".toList ++ engine.encode jsonBytes ++ "\n".toList ++ armorEnd ++ "\n".toList

/-- A line that ends in a blank, a tab or a carriage return. -/
def endsInSpace (line : Text) : Bool :=
  line.getLast? = some ' ' || line.getLast? = some '\t' || line.getLast? = some '\r'

def parseArmor (content : Text) : Except Text Text :=
  if content.getLast? ≠ some '\n' then .error "armor must end with a newline".toList
  else
    match fields '\n' content.dropLast with
    | [first, b64, last] =>
        if first ≠ armorBegin then .error "missing or malformed BEGIN marker".toList
        else if last ≠ armorEnd then .error "missing or malformed END marker".toList
        else
          match [first, b64, last].findIdx? endsInSpace with
          | some i => .error ("trailing whitespace on line ".toList ++ decimal (i + 1))
          | none => .ok b64
    | pieces =>
        .error ("armor must have exactly 3 lines (BEGIN, base64, END), got ".toList ++
          decimal pieces.length)

/-! ## The file -/

/-- What is found at a path: whether it is a regular file, its size when it is opened and what can
be read from it then. -/
structure SignatureFile where
  path : Text
  regular : Bool
  size : Nat
  content : Bytes

def maxSigFile : Nat := 8 * 1024

def maxJsonDecoded : Nat := 2048

def maxBase64Line : Nat := 4096

/-- `read_bounded_file` of a file that can be opened. -/
def readBoundedFile (file : SignatureFile) (maxSize : Nat) : Except Text Text :=
  let name := "signature file ".toList ++ file.path
  let limit := name ++ " exceeds ".toList ++ decimal maxSize ++ " byte limit".toList
  if !file.regular then .error (name ++ " is not a regular file".toList)
  else if maxSize < file.size then .error limit
  else
    -- one byte more than the limit is read, which a file that has grown reaches
    match decodeUtf8 (file.content.take (maxSize + 1)) with
    | none =>
        .error ("cannot read ".toList ++ name ++ ": stream did not contain valid UTF-8".toList)
    | some buf =>
        if maxSize < byteLen buf then .error (limit ++ " (grew during read)".toList) else .ok buf

/-- `do_verify` up to the text of the envelope. -/
def readSignature (engine : Base64Engine) (file : SignatureFile) : Except Text Text := do
  let sigContent ← readBoundedFile file maxSigFile
  let b64 ← parseArmor sigContent
  if maxBase64Line < byteLen b64 then
    .error ("base64 line exceeds ".toList ++ decimal maxBase64Line ++ " bytes".toList)
  else
    match engine.decode b64 with
    | .error e => .error ("invalid base64: ".toList ++ e)
    | .ok decoded =>
        if maxJsonDecoded < decoded.length then
          .error ("decoded JSON exceeds ".toList ++ decimal maxJsonDecoded ++ " bytes".toList)
        else required (decodeUtf8 decoded) "decoded bytes are not valid UTF-8".toList

section

variable {SecretKey : Type} (lib : Libraries SecretKey)

/-- `do_verify` from there to the fields; an error comes with the key, as far as it is known. -/
def openEnvelope (jsonStr : Text) : Except (Option Text × Text) Envelope :=
  if hasNonStringWhitespace jsonStr then
    .error (extractPkBestEffort jsonStr, "JSON contains whitespace outside string values".toList)
  else
    match parseEnvelope lib jsonStr with
    | .error e => .error (extractPkBestEffort jsonStr, e)
    | .ok envelope =>
        if buildEnvelope envelope ≠ jsonStr then
          .error (some envelope.pk, "JSON is not in canonical form".toList)
        else .ok envelope

/-- `do_verify` from the file to the fields. -/
def openSignature (engine : Base64Engine) (file : SignatureFile) :
    Except (Option Text × Text) Envelope :=
  match readSignature engine file with
  | .error e => .error (none, e)
  | .ok jsonStr => openEnvelope lib jsonStr

/-- `do_verify` from the file on. -/
def doVerifyFile (engine : Base64Engine) (file : SignatureFile) (payload : Bytes) : Verdict :=
  match readSignature engine file with
  | .error e => .errsig none e
  | .ok jsonStr => doVerify lib jsonStr payload

end

/-- The bytes that `do_sign` writes for an envelope. -/
def signatureBytes (engine : Base64Engine) (envelope : Envelope) : Bytes :=
  encode (armor engine (encode (buildEnvelope envelope)))

/-- A regular file with these bytes that nobody writes to. -/
structure SignatureFile.Holds (file : SignatureFile) (bytes : Bytes) : Prop where
  regular : file.regular = true
  size : file.size = bytes.length
  content : file.content = bytes

/-! ## Layers -/

theorem parseArmor_ok_iff {content b64 : Text} :
    parseArmor content = .ok b64 ↔
      content = armorBegin ++ "\n".toList ++ b64 ++ "\n".toList ++ armorEnd ++ "\n".toList ∧
        '\n' ∉ b64 ∧ endsInSpace b64 = false := by
  have hmarkers : '\n' ∉ armorBegin ∧ '\n' ∉ armorEnd ∧ endsInSpace armorBegin = false ∧
      endsInSpace armorEnd = false := by decide
  obtain ⟨hbegin, hend, hbeginSpace, hendSpace⟩ := hmarkers
  have hlines : [armorBegin, b64, armorEnd].findIdx? endsInSpace = none ↔
      endsInSpace b64 = false := by
    simp [hbeginSpace, hendSpace]
  constructor
  · intro h
    unfold parseArmor at h
    by_cases hlast : content.getLast? ≠ some '\n'
    · rw [if_pos hlast] at h
      cases h
    rw [if_neg hlast] at h
    have hcontent : content = content.dropLast ++ ['\n'] :=
      (List.dropLast_append_getLast? '\n' (not_not.1 hlast)).symm
    obtain ⟨p, ps, hfields, hjoin, hnot⟩ := exists_fields '\n' content.dropLast
    split at h
    · next first middle last hpieces =>
        rw [hfields] at hpieces
        cases hpieces
        split_ifs at h with hfirst hlast
        rw [not_not] at hfirst hlast
        subst hfirst hlast
        split at h
        · cases h
        · next hspace =>
            cases h
            refine ⟨?_, hnot b64 (by simp), hlines.1 hspace⟩
            rw [hcontent, hjoin]
            simp
    · cases h
  · rintro ⟨rfl, hnewline, hspace⟩
    have hlast : (armorBegin ++ "\n".toList ++ b64 ++ "\n".toList ++ armorEnd ++
        "\n".toList).getLast? = some '\n' := List.getLast?_concat ..
    have hdrop : (armorBegin ++ "\n".toList ++ b64 ++ "\n".toList ++ armorEnd ++
        "\n".toList).dropLast = armorBegin ++ [b64, armorEnd].flatMap ('\n' :: ·) := by
      rw [show "\n".toList = ['\n'] from rfl, List.dropLast_concat]
      simp
    have hfields : fields '\n' (armorBegin ++ [b64, armorEnd].flatMap ('\n' :: ·)) =
        [armorBegin, b64, armorEnd] := by
      apply fields_join
      simp [hbegin, hnewline, hend]
    unfold parseArmor
    rw [if_neg (not_not_intro hlast), hdrop, hfields]
    simp only [ne_eq, not_true_eq_false, if_false, hlines.2 hspace]

theorem readBoundedFile_ok {file : SignatureFile} {n : Nat} {buf : Text}
    (h : readBoundedFile file n = .ok buf) : file.content = encode buf := by
  unfold readBoundedFile at h
  dsimp only at h
  split_ifs at h
  split at h
  · cases h
  · next text htext =>
      split_ifs at h with hgrown
      cases h
      have htake := encode_of_decodeUtf8 htext
      have hlength : (file.content.take (n + 1)).length ≤ n := by
        rw [← htake, length_encode]
        exact Nat.le_of_not_lt hgrown
      rw [List.length_take] at hlength
      rw [htake]
      exact (List.take_of_length_le (by omega)).symm

theorem readBoundedFile_eq {file : SignatureFile} {n : Nat} {text : Text}
    (hfile : file.Holds (encode text)) (hsize : byteLen text ≤ n) :
    readBoundedFile file n = .ok text := by
  have hlength : (encode text).length ≤ n := by
    rw [length_encode]
    exact hsize
  have htake : (encode text).take (n + 1) = encode text := List.take_of_length_le (by omega)
  unfold readBoundedFile
  simp only [hfile.regular, hfile.size, hfile.content, htake, decodeUtf8_encode, Bool.not_true,
    Bool.false_eq_true, if_false]
  rw [if_neg (Nat.not_lt.2 hlength), if_neg (Nat.not_lt.2 hsize)]

section

variable {engine : Base64Engine}

theorem Base64Engine.Standard.plain (hstd : engine.Standard) (bytes : Bytes) :
    (∀ c ∈ engine.encode bytes, c.utf8Size = 1) ∧ '\n' ∉ engine.encode bytes ∧
      endsInSpace (engine.encode bytes) = false := by
  have hall : ('=' :: Base64.alphabet).all (fun c => c.utf8Size = 1 ∧ c ≠ '\n' ∧ c ≠ ' ' ∧
      c ≠ '\t' ∧ c ≠ '\r') = true := by
    rw [Base64.alphabet_eq]
    rfl
  have hchar : ∀ c ∈ engine.encode bytes, c.utf8Size = 1 ∧ c ≠ '\n' ∧ c ≠ ' ' ∧ c ≠ '\t' ∧
      c ≠ '\r' := by
    intro c hc
    refine of_decide_eq_true (List.all_eq_true.1 hall c ?_)
    rcases hstd.chars bytes c hc with halphabet | rfl
    · exact List.mem_cons_of_mem _ halphabet
    · exact List.mem_cons_self
  refine ⟨fun c hc => (hchar c hc).1, fun hmem => (hchar _ hmem).2.1 rfl, ?_⟩
  have hlast : ∀ c, (engine.encode bytes).getLast? = some c → c ≠ ' ' ∧ c ≠ '\t' ∧ c ≠ '\r' :=
    fun c hc => (hchar c (List.mem_of_getLast? hc)).2.2
  unfold endsInSpace
  simp only [Bool.or_eq_false_iff, decide_eq_false_iff_not]
  exact ⟨⟨fun h => (hlast _ h).1 rfl, fun h => (hlast _ h).2.1 rfl⟩, fun h => (hlast _ h).2.2 rfl⟩

theorem readSignature_ok {file : SignatureFile} {jsonStr : Text}
    (h : readSignature engine file = .ok jsonStr) :
    byteLen jsonStr ≤ maxJsonDecoded ∧ (engine.Standard →
      file.content = encode (armor engine (encode jsonStr))) := by
  obtain ⟨sigContent, hread, h⟩ := bind_ok h
  obtain ⟨b64, harmor, h⟩ := bind_ok h
  by_cases hline : maxBase64Line < byteLen b64
  · rw [if_pos hline] at h
    cases h
  rw [if_neg hline] at h
  split at h
  · cases h
  · next decoded hdecoded =>
      split_ifs at h with hlong
      cases hjson : decodeUtf8 decoded with
      | none =>
          rw [hjson] at h
          cases h
      | some text =>
          rw [hjson] at h
          cases h
          have hbytes := encode_of_decodeUtf8 hjson
          constructor
          · rw [← length_encode, hbytes]
            exact Nat.le_of_not_lt hlong
          · intro hstd
            rw [readBoundedFile_ok hread, (parseArmor_ok_iff.1 harmor).1,
              hstd.decode_ok_iff.1 hdecoded, hbytes]
            rfl

theorem readSignature_eq (hstd : engine.Standard) {file : SignatureFile} {jsonStr : Text}
    (hfile : file.Holds (encode (armor engine (encode jsonStr))))
    (hsize : byteLen jsonStr ≤ maxJsonDecoded) : readSignature engine file = .ok jsonStr := by
  obtain ⟨hone, hnewline, hspace⟩ := hstd.plain (encode jsonStr)
  have hbytes : (encode jsonStr).length ≤ 2048 := by
    rw [length_encode]
    exact hsize
  have hline : byteLen (engine.encode (encode jsonStr)) ≤ 2732 := by
    rw [byteLen_eq_length hone, hstd.length]
    omega
  have hmarkers : byteLen armorBegin = 30 ∧ byteLen armorEnd = 28 ∧ byteLen "\n".toList = 1 :=
    ⟨rfl, rfl, rfl⟩
  have hwhole : byteLen (armor engine (encode jsonStr)) ≤ maxSigFile := by
    simp only [armor, byteLen_append, hmarkers, maxSigFile]
    omega
  have hread := readBoundedFile_eq hfile hwhole
  have harmor : parseArmor (armor engine (encode jsonStr)) =
      .ok (engine.encode (encode jsonStr)) := parseArmor_ok_iff.2 ⟨rfl, hnewline, hspace⟩
  have hdecode : engine.decode (engine.encode (encode jsonStr)) = .ok (encode jsonStr) :=
    hstd.decode_ok_iff.2 rfl
  have hshort : ¬ maxBase64Line < byteLen (engine.encode (encode jsonStr)) := by
    have hlimit : maxBase64Line = 4096 := rfl
    omega
  have hsmall : ¬ maxJsonDecoded < (encode jsonStr).length := Nat.not_lt.2 hbytes
  simp only [readSignature, hread, harmor, hdecode, decodeUtf8_encode, required, bind, Except.bind,
    if_neg hshort, if_neg hsmall]

end

/-! ## The envelope -/

theorem hasSpaceOutside_eq_false {s : Text} (h : ∀ c ∈ s, isWhitespace c = false)
    (inString escape : Bool) : hasSpaceOutside inString escape s = false := by
  induction s generalizing inString escape with
  | nil =>
      cases escape with
      | true => rfl
      | false => cases inString <;> rfl
  | cons c s ih =>
      have hrest := ih fun d hd => h d (List.mem_cons_of_mem c hd)
      have hc := h c List.mem_cons_self
      have hne : ∀ d : Char, isWhitespace d = true → c ≠ d := by
        rintro d hd rfl
        rw [hd] at hc
        cases hc
      cases escape with
      | true => exact hrest inString false
      | false =>
          cases inString with
          | true => simp [hasSpaceOutside, hrest]
          | false =>
              have hfeed : c.toNat ≠ 12 := by
                intro heq
                refine hne (Char.ofNat 12) (by decide) ?_
                rw [← heq, Char.ofNat_toNat]
              simp [hasSpaceOutside, hrest, hfeed, hne ' ' (by decide), hne '\t' (by decide),
                hne '\n' (by decide), hne '\r' (by decide)]

theorem isWhitespace_of_isFieldChar {c : Char} (h : isFieldChar c = true) :
    c.utf8Size = 1 ∧ isWhitespace c = false := by
  have hall : ∀ n < 128, isFieldChar (Char.ofNat n) = true →
      (Char.ofNat n).utf8Size = 1 ∧ isWhitespace (Char.ofNat n) = false := by decide
  have hlow : c.toNat < 128 := by
    simp only [isFieldChar, Bool.or_eq_true, decide_eq_true_eq] at h
    rcases h with ((((halnum | rfl) | rfl) | rfl) | rfl) | rfl
    · exact toNat_lt_of_isAlphanum halnum
    all_goals decide
  have hchar := hall c.toNat hlow
  rw [Char.ofNat_toNat] at hchar
  exact hchar h

section

variable {SecretKey : Type} {lib : Libraries SecretKey} {envelope : Envelope}

theorem Envelope.WellFormed.no_space (h : envelope.WellFormed lib) :
    ∀ c ∈ buildEnvelope envelope, isWhitespace c = false := by
  have hplain : ∀ text : Text, (∀ c ∈ text, isFieldChar c = true) →
      text.all (fun c => !isWhitespace c) = true := by
    intro text htext
    refine List.all_eq_true.2 fun c hc => ?_
    rw [(isWhitespace_of_isFieldChar (htext c hc)).2]
    rfl
  have hpk := hplain envelope.pk fun c hc =>
    isFieldChar_of_isLowerHex (List.all_eq_true.1 h.pk.2 c hc)
  have hsig := hplain envelope.sig fun c hc =>
    isFieldChar_of_isLowerHex (List.all_eq_true.1 h.sig.2 c hc)
  have htime := hplain (decimal envelope.t) fun c hc => by
    simp [isFieldChar, Char.isAlphanum, isDigit_of_mem_decimal hc]
  have hall : (buildEnvelope envelope).all (fun c => !isWhitespace c) = true := by
    unfold buildEnvelope
    cases hoa : envelope.oa with
    | none =>
        simp only [List.all_append, hpk, hsig, htime, Bool.and_true]
        rfl
    | some oa =>
        obtain ⟨howner, hconditions, hoaSig⟩ := (h.attestation oa hoa).1.chars
        simp only [List.all_append, hpk, hsig, htime, hplain _ howner, hplain _ hconditions,
          hplain _ hoaSig, Bool.and_true]
        rfl
  intro c hc
  simpa using List.all_eq_true.1 hall c hc

theorem Envelope.WellFormed.byteLen_le (h : envelope.WellFormed lib) :
    byteLen (buildEnvelope envelope) ≤
      439 + (envelope.oa.elim 0 fun oa => byteLen oa.conditions) := by
  have htime : byteLen (decimal envelope.t) ≤ 10 := by
    rw [byteLen_decimal]
    exact length_decimal_le (by decide) (h.time.trans (by decide))
  unfold buildEnvelope
  cases hoa : envelope.oa with
  | none =>
      have hliterals : byteLen "\x7b\"v\":1,\"pk\":\"".toList = 13 ∧
          byteLen "\",\"sig\":\"".toList = 9 ∧ byteLen "\",\"t\":".toList = 6 ∧
          byteLen "\x7d".toList = 1 := ⟨rfl, rfl, rfl, rfl⟩
      simp only [byteLen_append, hliterals, h.pk.1, h.sig.1]
      omega
  | some oa =>
      have hliterals : byteLen "\x7b\"v\":1,\"pk\":\"".toList = 13 ∧
          byteLen "\",\"sig\":\"".toList = 9 ∧ byteLen "\",\"t\":".toList = 6 ∧
          byteLen ",\"oa\":[\"".toList = 8 ∧ byteLen "\",\"".toList = 3 ∧
          byteLen "\"]\x7d".toList = 3 := ⟨rfl, rfl, rfl, rfl, rfl, rfl⟩
      have hadmitted := (h.attestation oa hoa).1
      simp only [byteLen_append, hliterals, h.pk.1, h.sig.1, hadmitted.owner.1, hadmitted.sig.1,
        Option.elim_some]
      omega

theorem openEnvelope_ok {jsonStr : Text} (h : openEnvelope lib jsonStr = .ok envelope) :
    buildEnvelope envelope = jsonStr := by
  unfold openEnvelope at h
  split_ifs at h
  split at h
  · cases h
  · next parsed _ =>
      split_ifs at h with hcanonical
      cases h
      exact not_not.1 hcanonical

theorem openEnvelope_buildEnvelope (h : envelope.WellFormed lib) :
    openEnvelope lib (buildEnvelope envelope) = .ok envelope := by
  have hspace : hasNonStringWhitespace (buildEnvelope envelope) = false :=
    hasSpaceOutside_eq_false h.no_space false false
  simp only [openEnvelope, hspace, parseEnvelope_buildEnvelope h, ne_eq, not_true_eq_false,
    if_false, Bool.false_eq_true]

end

/-! ## The fields that can be written -/

/-- The fields that `do_sign` can write: an attestation is that of an auth tag, and its owner is a
key other than that of the signer. -/
structure Embeddable {SecretKey : Type} (lib : Libraries SecretKey) (envelope : Envelope) :
    Prop where
  pk : byteLen envelope.pk = 64 ∧ envelope.pk.all isLowerHex = true
  sig : byteLen envelope.sig = 128 ∧ envelope.sig.all isLowerHex = true
  time : envelope.t < 2 ^ 32
  attestation : ∀ oa ∈ envelope.oa, (∃ tag, loadAuthTag lib (some tag) = .ok (some oa)) ∧
    lib.publicKeyFromHex oa.owner = .ok () ∧ oa.owner ≠ envelope.pk

section

variable {SecretKey : Type} {lib : Libraries SecretKey} {envelope : Envelope}

theorem length_conditions_le {value : Json} {oa : Attestation} (h : parseAuthTag value = .ok oa) :
    oa.conditions.length ≤ value.textSize := by
  unfold parseAuthTag at h
  split at h
  · next tag owner conditions sig =>
      by_cases htag : tag.asStr ≠ some "auth".toList
      · rw [if_pos htag] at h
        cases h
      rw [if_neg htag] at h
      obtain ⟨ownerText, _, h⟩ := bind_ok h
      obtain ⟨conditionsText, hconditions, h⟩ := bind_ok h
      obtain ⟨sigText, _, h⟩ := bind_ok h
      split_ifs at h
      cases h
      cases conditions with
      | str s =>
          cases hconditions
          simp only [Json.textSize, Json.textSizeItems]
          omega
      | _ => cases hconditions
  · cases h
  · cases h

theorem byteLen_conditions_le {tag : Text} {oa : Attestation}
    (h : loadAuthTag lib (some tag) = .ok (some oa)) : byteLen oa.conditions ≤ 1024 := by
  have hadmitted := loadAuthTag_ok h oa rfl
  have hbytes : byteLen oa.conditions = oa.conditions.length :=
    byteLen_eq_length fun c hc => (isWhitespace_of_isFieldChar (hadmitted.chars.2.1 c hc)).1
  unfold loadAuthTag at h
  dsimp only at h
  split_ifs at h with hlimit
  split at h
  · cases h
  · next value hvalue =>
      cases hparse : parseAuthTag value with
      | error e =>
          rw [hparse] at h
          cases h
      | ok found =>
          rw [hparse] at h
          cases h
          calc
            byteLen oa.conditions = oa.conditions.length := hbytes
            _ ≤ value.textSize := length_conditions_le hparse
            _ ≤ tag.length := Json.textSize_le hvalue
            _ ≤ byteLen tag := length_le_byteLen tag
            _ ≤ 1024 := Nat.le_of_not_lt hlimit

theorem Embeddable.wellFormed (h : Embeddable lib envelope) : envelope.WellFormed lib := by
  refine ⟨h.pk, h.sig, h.time, fun oa hoa => ?_⟩
  obtain ⟨⟨tag, htag⟩, hkey, hself⟩ := h.attestation oa hoa
  exact ⟨loadAuthTag_ok htag oa rfl, hkey, hself⟩

theorem Embeddable.byteLen_le (h : Embeddable lib envelope) :
    byteLen (buildEnvelope envelope) ≤ maxJsonDecoded := by
  have hsize := h.wellFormed.byteLen_le
  have hlimit : maxJsonDecoded = 2048 := rfl
  cases hoa : envelope.oa with
  | none =>
      rw [hoa, Option.elim_none] at hsize
      omega
  | some oa =>
      obtain ⟨⟨tag, htag⟩, _⟩ := h.attestation oa hoa
      have hconditions := byteLen_conditions_le htag
      rw [hoa, Option.elim_some] at hsize
      omega

theorem doVerifyFile_eq (engine : Base64Engine) (file : SignatureFile) (payload : Bytes) :
    doVerifyFile lib engine file payload =
      match openSignature lib engine file with
      | .error (pk, msg) => .errsig pk msg
      | .ok envelope =>
          match lib.publicKeyFromHex envelope.pk with
          | .error e =>
              .errsig (some envelope.pk) ("pk is not a valid BIP-340 public key: ".toList ++ e)
          | .ok () =>
              if maxPayload < payload.length then
                .errsig (some envelope.pk) "payload exceeds 100 MB limit".toList
              else verifyEnvelope lib envelope payload := by
  unfold doVerifyFile openSignature
  cases hread : readSignature engine file with
  | error e => rfl
  | ok jsonStr =>
      have hsize : ¬ 2048 < byteLen jsonStr := Nat.not_lt.2 (readSignature_ok hread).1
      simp only [doVerify, openEnvelope, if_neg hsize]
      cases hasNonStringWhitespace jsonStr with
      | true => rfl
      | false =>
          cases parseEnvelope lib jsonStr with
          | error e => rfl
          | ok envelope =>
              by_cases hcanonical : buildEnvelope envelope ≠ jsonStr
              · simp only [if_pos hcanonical, Bool.false_eq_true, if_false]
              · cases hkey : lib.publicKeyFromHex envelope.pk with
                | error e => simp only [if_neg hcanonical, hkey, Bool.false_eq_true, if_false]
                | ok valid => simp only [if_neg hcanonical, hkey, Bool.false_eq_true, if_false]

theorem openSignature_eq {engine : Base64Engine} (hstd : engine.Standard) {file : SignatureFile}
    (hfields : Embeddable lib envelope) (hfile : file.Holds (signatureBytes engine envelope)) :
    openSignature lib engine file = .ok envelope := by
  unfold openSignature
  rw [readSignature_eq hstd hfile hfields.byteLen_le]
  exact openEnvelope_buildEnvelope hfields.wellFormed

/-- Fields that can be written are read back from the file, and a file from which fields are read is
the one that is written for them. -/
theorem openSignature_codec (lib : Libraries SecretKey) (engine : Base64Engine)
    (hstd : engine.Standard) :
    (∀ (envelope : Envelope) (file : SignatureFile), Embeddable lib envelope →
      file.Holds (signatureBytes engine envelope) →
      openSignature lib engine file = .ok envelope) ∧
    (∀ (file : SignatureFile) (envelope : Envelope),
      openSignature lib engine file = .ok envelope →
      file.content = signatureBytes engine envelope) ∧
    ∀ (file file' : SignatureFile) (envelope : Envelope),
      openSignature lib engine file = .ok envelope →
      openSignature lib engine file' = .ok envelope → file.content = file'.content := by
  have hread : ∀ (file : SignatureFile) (envelope : Envelope),
      openSignature lib engine file = .ok envelope →
      file.content = signatureBytes engine envelope := by
    intro file envelope h
    unfold openSignature at h
    split at h
    · cases h
    · next jsonStr hjson => rw [(readSignature_ok hjson).2 hstd, signatureBytes, openEnvelope_ok h]
  refine ⟨?_, hread, ?_⟩
  · intro envelope file hfields hfile
    exact openSignature_eq hstd hfields hfile
  · intro file file' envelope h h'
    exact (hread file envelope h).trans (hread file' envelope h').symm

end

/-! ## A file -/

namespace Toy

def engine : Base64Engine where
  encode := Base64.encode
  decode := fun text =>
    match Base64.decode text with
    | some bytes => .ok bytes
    | none => .error "not canonical".toList

theorem engine_standard : engine.Standard := by
  refine ⟨?_, Base64.length_encode, fun bytes c hc => Base64.mem_encode hc⟩
  intro text bytes
  change _ ↔ text = Base64.encode bytes
  rw [← Base64.decode_eq_some_iff]
  unfold engine
  dsimp only
  cases Base64.decode text with
  | none => simp
  | some found => simp

/-- The first key has signed for the second. -/
def file : SignatureFile where
  path := "commit.sig".toList
  regular := true
  size := (signatureBytes engine (signed (some oa))).length
  content := signatureBytes engine (signed (some oa))

theorem embeddable_signed : Embeddable lib (signed (some oa)) := by
  refine ⟨by decide +kernel, by decide +kernel, by decide +kernel, ?_⟩
  intro other hother
  cases hother
  exact ⟨⟨authTag, by decide +kernel⟩, rfl, by decide +kernel⟩

end Toy

theorem openSignature_codec_signed :
    openSignature Toy.lib Toy.engine Toy.file = .ok (Toy.signed (some Toy.oa)) :=
  (openSignature_codec Toy.lib Toy.engine Toy.engine_standard).1 _ Toy.file Toy.embeddable_signed
    ⟨rfl, rfl, rfl⟩

end GitSign
end Maju
