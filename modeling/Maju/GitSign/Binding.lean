import Maju.GitSign.Envelope

/-!
# Binding — what a git signature is a signature of

`do_sign` hashes the time, the attestation if there is one, and the payload; `do_verify` hashes the
same three from an envelope and standard input.  The attestation stands in front of the payload
without any mark that it is there.

* `signingInput` — the bytes that are hashed;
* `signingInput_eq_iff` — when two choices of time, attestation and payload have the same bytes;
* `signature_binding` — a signature is good for another choice exactly when one of the two has no
  attestation and a payload that begins with that of the other.

Both functions are modelled from the text of the envelope on, without its armor.
-/

namespace Maju
namespace GitSign

open Lib

/-! ## Hashing -/

/-- What a signature is about. -/
structure SignedData where
  t : Nat
  oa : Option Attestation
  payload : Bytes
  deriving DecidableEq, Repr

/-- `oa_binding`: the three texts, each with a colon behind it. -/
def oaBinding : Option Attestation → Bytes
  | some oa =>
      (encode oa.owner ++ [58]) ++ ((encode oa.conditions ++ [58]) ++ (encode oa.sig ++ [58]))
  | none => []

/-- The bytes that `compute_signing_hash` feeds to SHA-256. -/
def SignedData.signingInput (x : SignedData) : Bytes :=
  encode "nostr:git:v1:".toList ++ ((encode (decimal x.t) ++ [58]) ++ (oaBinding x.oa ++ x.payload))

def maxPayload : Nat := 100 * 1024 * 1024

/-- Times, attestations and payloads that are signed or read. -/
structure SignedData.Admitted (x : SignedData) : Prop where
  time : x.t < 2 ^ 32
  attestation : ∀ oa ∈ x.oa, oa.Admitted
  size : x.payload.length ≤ maxPayload

/-- The first has no attestation, and its payload begins with that of the second. -/
def Absorbs (x y : SignedData) : Prop :=
  x.oa = none ∧ x.t = y.t ∧ ∃ oa ∈ y.oa, x.payload = oaBinding (some oa) ++ y.payload

section

variable {SecretKey : Type} (lib : Libraries SecretKey)

def computeSigningHash (t : Nat) (oa : Option Attestation) (payload : Bytes) : Bytes :=
  lib.sha256 (SignedData.signingInput ⟨t, oa, payload⟩)

/-! ## Attestations -/

def verifyOa (agentPk : Text) (oa : Attestation) : Bool :=
  match lib.publicKeyFromHex oa.owner with
  | .error _ => false
  | .ok () =>
      lib.verifySchnorr oa.sig
        (lib.sha256 (encode ("nostr:agent-auth:".toList ++ agentPk ++ ":".toList ++ oa.conditions)))
        oa.owner == some true

/-- The loop of `enforce_conditions` over the clauses. -/
def enforceClauses (t : Nat) : List Text → Except Text Unit
  | [] => .ok ()
  | clause :: clauses =>
      match afterPrefix "created_at<".toList clause with
      | some val =>
          match parseDecimalU32 val with
          | some limit =>
              if limit ≤ t then
                .error ("timestamp ".toList ++ decimal t ++
                  " violates auth tag constraint created_at<".toList ++ decimal limit)
              else enforceClauses t clauses
          | none => enforceClauses t clauses
      | none =>
          match afterPrefix "created_at>".toList clause with
          | some val =>
              match parseDecimalU32 val with
              | some limit =>
                  if t ≤ limit then
                    .error ("timestamp ".toList ++ decimal t ++
                      " violates auth tag constraint created_at>".toList ++ decimal limit)
                  else enforceClauses t clauses
              | none => enforceClauses t clauses
          | none => enforceClauses t clauses

def enforceConditions (conditions : Text) (t : Nat) : Except Text Unit :=
  if conditions.isEmpty then .ok () else enforceClauses t (fields '&' conditions)

def parseAuthTag (value : Json) : Except Text Attestation :=
  match value with
  | .arr [tag, owner, conditions, sig] =>
      if tag.asStr ≠ some "auth".toList then .error "MAJU_AUTH_TAG[0] must be \"auth\"".toList
      else do
        let owner ← required owner.asStr "MAJU_AUTH_TAG[1] must be a string".toList
        let conditions ← required conditions.asStr "MAJU_AUTH_TAG[2] must be a string".toList
        let sig ← required sig.asStr "MAJU_AUTH_TAG[3] must be a string".toList
        if !validateConditions conditions then
          .error "MAJU_AUTH_TAG conditions contain invalid characters".toList
        else if byteLen owner ≠ 64 || !owner.all isLowerHex then
          .error "MAJU_AUTH_TAG owner must be 64 lowercase hex chars".toList
        else if byteLen sig ≠ 128 || !sig.all isLowerHex then
          .error "MAJU_AUTH_TAG signature must be 128 lowercase hex chars".toList
        else .ok ⟨owner, conditions, sig⟩
  | .arr _ => .error "MAJU_AUTH_TAG must have exactly 4 elements".toList
  | _ => .error "MAJU_AUTH_TAG must be a JSON array".toList

/-- `load_auth_tag`, with the tag that is configured. -/
def loadAuthTag (configured : Option Text) : Except Text (Option Attestation) :=
  match configured with
  | none => .ok none
  | some jsonStr =>
      if 1024 < byteLen jsonStr then .error "auth tag exceeds 1024-byte size limit".toList
      else
        match Json.decode jsonStr with
        | none => .error ("MAJU_AUTH_TAG is not valid JSON: ".toList ++ lib.jsonError jsonStr)
        | some value => (parseAuthTag value).map some

/-- The checks of `do_sign` on an attestation. -/
def checkAttestation (pk : Text) (t : Nat) (oa : Attestation) : Except Text Unit :=
  match lib.publicKeyFromHex oa.owner with
  | .error _ => .error "auth tag owner (oa[0]) is not a valid BIP-340 public key".toList
  | .ok () =>
      if oa.owner = pk then
        .error "auth tag owner (oa[0]) must not equal signing key (self-attestation)".toList
      else if !verifyOa lib pk oa then
        .error ("auth tag owner signature (oa[2]) verification failed — ".toList ++
          "the configured MAJU_AUTH_TAG is invalid or stale".toList)
      else
        match enforceConditions oa.conditions t with
        | .error msg => .error ("auth tag conditions not satisfied: ".toList ++ msg)
        | .ok () => .ok ()

/-! ## Signing -/

/-- `do_sign` with its key, at a time in seconds. -/
def doSign (key : SecretKey) (now : Nat) (authTag : Option Text) (payload : Bytes) :
    Except Text Envelope :=
  if maxPayload < payload.length then .error "payload exceeds 100 MB limit".toList
  else if 4294967295 < now then
    .error ("timestamp ".toList ++ decimal now ++
      " exceeds NIP-GS u32 range (max 4294967295)".toList)
  else do
    let oa ← loadAuthTag lib authTag
    match oa with
    | none =>
        .ok ⟨lib.publicKey key, lib.signSchnorr key (computeSigningHash lib now none payload),
          now, none⟩
    | some oa =>
        checkAttestation lib (lib.publicKey key) now oa
        .ok ⟨lib.publicKey key, lib.signSchnorr key (computeSigningHash lib now (some oa) payload),
          now, some oa⟩

/-! ## Verifying -/

inductive OaVerifyResult where
  | absent
  | valid
  | invalidSignature
  | conditionsViolated
  deriving DecidableEq, Repr

/-- What `do_verify` reports. -/
inductive Verdict where
  | goodsig (envelope : Envelope) (oa : OaVerifyResult)
  | badsig (pk : Text)
  | errsig (pk : Option Text) (msg : Text)
  deriving DecidableEq, Repr

def extractPkBestEffort (jsonStr : Text) : Option Text :=
  match jsonStr.tails.find? fun rest => "\"pk\":\"".toList.isPrefixOf rest with
  | none => none
  | some rest =>
      let candidate := (rest.drop 6).take 64
      if candidate.length = 64 ∧ candidate.all isLowerHex then some candidate else none

/-- The result of the checks of an attestation behind a good signature. -/
def attestationResult (envelope : Envelope) (oa : Attestation) : OaVerifyResult :=
  if !verifyOa lib envelope.pk oa then .invalidSignature
  else
    match enforceConditions oa.conditions envelope.t with
    | .error _ => .conditionsViolated
    | .ok () => .valid

/-- `do_verify` behind the checks of the envelope. -/
def verifyEnvelope (envelope : Envelope) (payload : Bytes) : Verdict :=
  match lib.verifySchnorr envelope.sig (computeSigningHash lib envelope.t envelope.oa payload)
      envelope.pk with
  | none => .errsig (some envelope.pk) "invalid public key xonly conversion".toList
  | some false => .badsig envelope.pk
  | some true =>
      match envelope.oa with
      | none => .goodsig envelope .absent
      | some oa =>
          match lib.publicKeyFromHex oa.owner with
          | .error _ =>
              .errsig (some envelope.pk) "oa[0] owner pubkey is not a valid BIP-340 key".toList
          | .ok () => .goodsig envelope (attestationResult lib envelope oa)

def doVerify (jsonStr : Text) (payload : Bytes) : Verdict :=
  if 2048 < byteLen jsonStr then .errsig none "decoded JSON exceeds 2048 bytes".toList
  else if hasNonStringWhitespace jsonStr then
    .errsig (extractPkBestEffort jsonStr) "JSON contains whitespace outside string values".toList
  else
    match parseEnvelope lib jsonStr with
    | .error e => .errsig (extractPkBestEffort jsonStr) e
    | .ok envelope =>
        if buildEnvelope envelope ≠ jsonStr then
          .errsig (some envelope.pk) "JSON is not in canonical form".toList
        else
          match lib.publicKeyFromHex envelope.pk with
          | .error e =>
              .errsig (some envelope.pk) ("pk is not a valid BIP-340 public key: ".toList ++ e)
          | .ok () =>
              if maxPayload < payload.length then
                .errsig (some envelope.pk) "payload exceeds 100 MB limit".toList
              else verifyEnvelope lib envelope payload

end

/-! ## The bytes of two signatures -/

theorem oaBinding_prefixFree :
    PrefixFreeOn (fun oa : Attestation => oaBinding (some oa)) { oa | oa.Admitted } := by
  have hfield : PrefixFreeOn (fun text : Text => encode text ++ [58]) { text | ':' ∉ text } := by
    refine prefixFreeOn_of_terminated encode_injective.injOn ?_
    intro text htext hmem
    exact htext (mem_of_mem_encode (by decide) (by decide) hmem)
  intro a ha b hb r t heq
  simp only [oaBinding, List.append_assoc] at heq
  simp only [← List.append_assoc (encode _) [58]] at heq
  obtain ⟨howner, heq⟩ := hfield (not_mem_of_isFieldChar ha.chars.1)
    (not_mem_of_isFieldChar hb.chars.1) heq
  obtain ⟨hconditions, heq⟩ := hfield (not_mem_of_isFieldChar ha.chars.2.1)
    (not_mem_of_isFieldChar hb.chars.2.1) heq
  obtain ⟨hsig, heq⟩ := hfield (not_mem_of_isFieldChar ha.chars.2.2)
    (not_mem_of_isFieldChar hb.chars.2.2) heq
  exact ⟨by cases a; cases b; simp_all, heq⟩

/-- When two choices of time, attestation and payload are the same bytes. -/
theorem signingInput_eq_iff {x y : SignedData} (hx : x.Admitted) (hy : y.Admitted) :
    x.signingInput = y.signingInput ↔ x = y ∨ Absorbs x y ∨ Absorbs y x := by
  have hcut : x.signingInput = y.signingInput ↔
      x.t = y.t ∧ oaBinding x.oa ++ x.payload = oaBinding y.oa ++ y.payload := by
    constructor
    · intro h
      exact countBytes_prefixFree (Set.mem_univ _) (Set.mem_univ _) (List.append_cancel_left h)
    · rintro ⟨ht, hrest⟩
      rw [SignedData.signingInput, SignedData.signingInput, ht, hrest]
  rw [hcut]
  rcases x with ⟨t, oa, payload⟩
  rcases y with ⟨t', oa', payload'⟩
  cases oa with
  | none =>
      cases oa' with
      | none => simp [Absorbs, oaBinding]
      | some b => simp [Absorbs, oaBinding]
  | some a =>
      cases oa' with
      | none => simp [Absorbs, oaBinding, eq_comm]
      | some b =>
          have hblocks : oaBinding (some a) ++ payload = oaBinding (some b) ++ payload' ↔
              a = b ∧ payload = payload' := by
            constructor
            · exact fun h => oaBinding_prefixFree (hx.attestation a rfl) (hy.attestation b rfl) h
            · rintro ⟨rfl, rfl⟩
              rfl
          rw [hblocks]
          simp [Absorbs]

theorem Absorbs.ne {x y : SignedData} (h : Absorbs x y) : x ≠ y := by
  rintro rfl
  obtain ⟨hnone, _, oa, hoa, _⟩ := h
  rw [hnone] at hoa
  cases hoa

/-! ## A signature and where it is good -/

section

variable {SecretKey : Type} {lib : Libraries SecretKey}

theorem parseAuthTag_ok {value : Json} {oa : Attestation} (h : parseAuthTag value = .ok oa) :
    oa.Admitted := by
  unfold parseAuthTag at h
  split at h
  · next tag _ _ _ =>
      by_cases htag : tag.asStr ≠ some "auth".toList
      · rw [if_pos htag] at h
        cases h
      · rw [if_neg htag] at h
        obtain ⟨owner, _, h⟩ := bind_ok h
        obtain ⟨conditions, _, h⟩ := bind_ok h
        obtain ⟨sig, _, h⟩ := bind_ok h
        by_cases hconditions : validateConditions conditions = true
        · by_cases howner : byteLen owner = 64 ∧ owner.all isLowerHex = true
          · by_cases hsig : byteLen sig = 128 ∧ sig.all isLowerHex = true
            · rw [hconditions, howner.1, howner.2, hsig.1, hsig.2] at h
              cases h
              exact ⟨howner, hconditions, hsig⟩
            · have hbad : (decide (byteLen sig ≠ 128) || !sig.all isLowerHex) = true := by
                rcases not_and_or.1 hsig with hlen | hhex
                · simp [hlen]
                · simp [hhex]
              rw [hconditions, howner.1, howner.2, hbad] at h
              cases h
          · have hbad : (decide (byteLen owner ≠ 64) || !owner.all isLowerHex) = true := by
              rcases not_and_or.1 howner with hlen | hhex
              · simp [hlen]
              · simp [hhex]
            rw [hconditions, hbad] at h
            cases h
        · rw [Bool.not_eq_true] at hconditions
          rw [hconditions] at h
          cases h
  · cases h
  · cases h

theorem loadAuthTag_ok {configured : Option Text} {found : Option Attestation}
    (h : loadAuthTag lib configured = .ok found) : ∀ oa ∈ found, oa.Admitted := by
  unfold loadAuthTag at h
  split at h
  · cases h
    exact fun oa hoa => by cases hoa
  · split_ifs at h
    split at h
    · cases h
    · next value _ =>
        cases hparse : parseAuthTag value with
        | error e =>
            rw [hparse] at h
            cases h
        | ok oa =>
            rw [hparse] at h
            cases h
            rintro other ⟨⟩
            exact parseAuthTag_ok hparse

/-- The data that an envelope and a payload are about. -/
def Envelope.about (envelope : Envelope) (payload : Bytes) : SignedData :=
  ⟨envelope.t, envelope.oa, payload⟩

theorem doSign_ok {key : SecretKey} {now : Nat} {authTag : Option Text} {payload : Bytes}
    {signed : Envelope} (h : doSign lib key now authTag payload = .ok signed) :
    signed.pk = lib.publicKey key ∧
      signed.sig = lib.signSchnorr key (lib.sha256 (signed.about payload).signingInput) ∧
      (signed.about payload).Admitted := by
  unfold doSign at h
  by_cases hsize : maxPayload < payload.length
  · rw [if_pos hsize] at h
    cases h
  by_cases htime : 4294967295 < now
  · rw [if_neg hsize, if_pos htime] at h
    cases h
  rw [if_neg hsize, if_neg htime] at h
  obtain ⟨oa, htag, h⟩ := bind_ok h
  have hadmitted := loadAuthTag_ok htag
  have hnow : now < 2 ^ 32 := by omega
  cases oa with
  | none =>
      cases h
      exact ⟨rfl, rfl, hnow, hadmitted, Nat.le_of_not_lt hsize⟩
  | some oa =>
      obtain ⟨_, _, h⟩ := bind_ok h
      cases h
      exact ⟨rfl, rfl, hnow, hadmitted, Nat.le_of_not_lt hsize⟩

/-- An envelope that passes the checks of `do_verify` in front of that of its signature. -/
structure Readable (lib : Libraries SecretKey) (jsonStr : Text) (envelope : Envelope)
    (payload : Bytes) : Prop where
  size : byteLen jsonStr ≤ 2048
  spaces : hasNonStringWhitespace jsonStr = false
  parsed : parseEnvelope lib jsonStr = .ok envelope
  canonical : buildEnvelope envelope = jsonStr
  key : lib.publicKeyFromHex envelope.pk = .ok ()
  payload : payload.length ≤ maxPayload

theorem Readable.admitted {jsonStr : Text} {envelope : Envelope} {payload : Bytes}
    (h : Readable lib jsonStr envelope payload) : (envelope.about payload).Admitted :=
  ⟨(parseEnvelope_ok h.parsed).1, fun oa hoa => ((parseEnvelope_ok h.parsed).2 oa hoa).1, h.payload⟩

theorem Readable.goodsig_iff {jsonStr : Text} {envelope : Envelope} {payload : Bytes}
    (h : Readable lib jsonStr envelope payload) :
    (∃ result, doVerify lib jsonStr payload = .goodsig envelope result) ↔
      lib.verifySchnorr envelope.sig (lib.sha256 (envelope.about payload).signingInput)
        envelope.pk = some true := by
  have hverify : doVerify lib jsonStr payload = verifyEnvelope lib envelope payload := by
    rw [doVerify, if_neg (Nat.not_lt.2 h.size), h.spaces, h.parsed]
    simp only [h.canonical, h.key, Nat.not_lt.2 h.payload, ne_eq, not_true_eq_false, if_false,
      Bool.false_eq_true]
  rw [hverify, verifyEnvelope]
  cases hgood : lib.verifySchnorr envelope.sig
      (computeSigningHash lib envelope.t envelope.oa payload) envelope.pk with
  | none =>
      refine iff_of_false ?_ fun htrue => absurd (hgood.symm.trans htrue) (by decide)
      rintro ⟨result, hresult⟩
      cases hresult
  | some good =>
      cases good with
      | false =>
          refine iff_of_false ?_ fun htrue => absurd (hgood.symm.trans htrue) (by decide)
          rintro ⟨result, hresult⟩
          cases hresult
      | true =>
          refine iff_of_true ?_ hgood
          cases hoa : envelope.oa with
          | none => exact ⟨.absent, rfl⟩
          | some oa =>
              have hkey := ((parseEnvelope_ok h.parsed).2 oa hoa).2
              exact ⟨attestationResult lib envelope oa, by simp [hkey]⟩

/-- The hash of two byte strings has no collision, and what the key has signed is not a signature of
another hash. -/
structure Unbroken (lib : Libraries SecretKey) (key : SecretKey) (x y : Bytes) : Prop where
  correct : lib.verifySchnorr (lib.signSchnorr key (lib.sha256 x)) (lib.sha256 x)
    (lib.publicKey key) = some true
  collisionFree : lib.sha256 x = lib.sha256 y → x = y
  unforgeable : lib.verifySchnorr (lib.signSchnorr key (lib.sha256 x)) (lib.sha256 y)
    (lib.publicKey key) = some true → lib.sha256 x = lib.sha256 y

/-- Where the hash and the signatures are not broken, a signature is good for what has the bytes
that were signed. -/
theorem goodsig_iff_signingInput {key : SecretKey} {now : Nat} {authTag : Option Text}
    {payload payload' : Bytes} {signed presented : Envelope} {jsonStr : Text}
    (hsign : doSign lib key now authTag payload = .ok signed)
    (hread : Readable lib jsonStr presented payload')
    (hpk : presented.pk = signed.pk) (hsig : presented.sig = signed.sig)
    (hlib : Unbroken lib key (signed.about payload).signingInput
      (presented.about payload').signingInput) :
    (∃ result, doVerify lib jsonStr payload' = .goodsig presented result) ↔
      (signed.about payload).signingInput = (presented.about payload').signingInput := by
  obtain ⟨hkey, hmade, _⟩ := doSign_ok hsign
  rw [hread.goodsig_iff, hsig, hpk, hkey, hmade]
  constructor
  · exact fun h => hlib.collisionFree (hlib.unforgeable h)
  · intro heq
    rw [← heq]
    exact hlib.correct

/-- Two choices of time, attestation and payload are hashed apart, and a signature of the one is
good for no other, exactly when neither has the attestation of the other at the front of its
payload. -/
theorem signature_binding (lib : Libraries SecretKey) :
    (∀ x y : SignedData, x.Admitted → y.Admitted →
      ((x.signingInput = y.signingInput → x = y) ↔ ¬ (Absorbs x y ∨ Absorbs y x))) ∧
    ∀ (key : SecretKey) (now : Nat) (authTag : Option Text) (payload payload' : Bytes)
      (signed presented : Envelope) (jsonStr : Text),
      doSign lib key now authTag payload = .ok signed →
      Readable lib jsonStr presented payload' →
      presented.pk = signed.pk → presented.sig = signed.sig →
      Unbroken lib key (signed.about payload).signingInput
        (presented.about payload').signingInput →
      (((∃ result, doVerify lib jsonStr payload' = .goodsig presented result) →
          signed.about payload = presented.about payload') ↔
        ¬ (Absorbs (signed.about payload) (presented.about payload') ∨
          Absorbs (presented.about payload') (signed.about payload))) := by
  have hpair : ∀ x y : SignedData, x.Admitted → y.Admitted →
      ((x.signingInput = y.signingInput → x = y) ↔ ¬ (Absorbs x y ∨ Absorbs y x)) := by
    intro x y hx hy
    rw [signingInput_eq_iff hx hy]
    constructor
    · rintro h (habsorbs | habsorbs)
      · exact habsorbs.ne (h (Or.inr (Or.inl habsorbs)))
      · exact habsorbs.ne (h (Or.inr (Or.inr habsorbs))).symm
    · rintro hnot (heq | habsorbs)
      · exact heq
      · exact absurd habsorbs hnot
  refine ⟨hpair, ?_⟩
  intro key now authTag payload payload' signed presented jsonStr hsign hread hpk hsig hlib
  rw [goodsig_iff_signingInput hsign hread hpk hsig hlib]
  exact hpair _ _ (doSign_ok hsign).2.2 hread.admitted

end

/-! ## Two keys -/

namespace Toy

/-- Two keys; a signature is the key and a checksum, and the hash keeps all bytes. -/
def lib : Libraries Bool where
  publicKeyFromHex := fun _ => .ok ()
  jsonError := id
  debugText := id
  sha256 := id
  publicKey := fun key => hexDigits 64 key.toNat
  signSchnorr := fun key message =>
    hexDigits 64 key.toNat ++ hexDigits 64 (message.foldl (fun acc b => acc * 31 + b.toNat) 7)
  verifySchnorr := fun sig message pk =>
    some (sig = pk ++ hexDigits 64 (message.foldl (fun acc b => acc * 31 + b.toNat) 7))

/-- The attestation of the second key for the first. -/
def oa : Attestation where
  owner := lib.publicKey true
  conditions := []
  sig := lib.signSchnorr true
    (lib.sha256 (encode ("nostr:agent-auth:".toList ++ lib.publicKey false ++ ":".toList)))

def authTag : Text := Json.print (.arr [.str "auth".toList, .str oa.owner, .str [], .str oa.sig])

/-- The first key signs a payload of one byte. -/
def signed (oa : Option Attestation) : Envelope where
  pk := lib.publicKey false
  sig := lib.signSchnorr false (lib.sha256 (SignedData.signingInput ⟨0, oa, [1]⟩))
  t := 0
  oa := oa

def stripped : Envelope := { signed (some oa) with oa := none }

/-- The attestation is in the payload now. -/
def longer : Bytes := oaBinding (some oa) ++ [1]

theorem doSign_signed : doSign lib false 0 (some authTag) [1] = .ok (signed (some oa)) := by
  decide +kernel

theorem readable_stripped : Readable lib (buildEnvelope stripped) stripped longer := by
  have hfields : stripped.WellFormed lib := by
    refine ⟨?_, ?_, ?_, fun oa hoa => by cases hoa⟩ <;> decide +kernel
  refine ⟨?_, ?_, parseEnvelope_buildEnvelope hfields, rfl, rfl, ?_⟩ <;> decide +kernel

/-- The envelope is presented with another payload than the signed one. -/
theorem readable_other :
    Readable lib (buildEnvelope (signed (some oa))) (signed (some oa)) [2] := by
  have htag : loadAuthTag lib (some authTag) = .ok (some oa) := by decide +kernel
  have hfields : (signed (some oa)).WellFormed lib := by
    refine ⟨by decide +kernel, by decide +kernel, by decide +kernel, ?_⟩
    intro other hother
    cases hother
    exact ⟨loadAuthTag_ok htag oa rfl, rfl, by decide +kernel⟩
  refine ⟨?_, ?_, parseEnvelope_buildEnvelope hfields, rfl, rfl, ?_⟩ <;> decide +kernel

theorem unbroken_same (x : Bytes) : Unbroken lib false x x where
  correct := by simp [lib]
  collisionFree _ := rfl
  unforgeable _ := rfl

theorem unbroken_other : Unbroken lib false ((signed (some oa)).about [1]).signingInput
    ((signed (some oa)).about [2]).signingInput where
  correct := by simp [lib]
  collisionFree := id
  unforgeable h := absurd h (by decide +kernel)

theorem absorbs_stripped : Absorbs (stripped.about longer) ((signed (some oa)).about [1]) :=
  ⟨rfl, rfl, oa, rfl, rfl⟩

end Toy

/-- Two payloads are hashed apart under one attestation, and the signature of the first is not good
for the second. -/
theorem signature_binding_payloads :
    ((Toy.signed (some Toy.oa)).about [1]).signingInput ≠
        ((Toy.signed (some Toy.oa)).about [2]).signingInput ∧
      ¬ ∃ result, doVerify Toy.lib (buildEnvelope (Toy.signed (some Toy.oa))) [2] =
        .goodsig (Toy.signed (some Toy.oa)) result := by
  have hdiffer : (Toy.signed (some Toy.oa)).about [1] ≠ (Toy.signed (some Toy.oa)).about [2] := by
    intro h
    cases congrArg SignedData.payload h
  -- Both have the attestation, so neither payload begins with it in its place.
  have hnot : ¬ (Absorbs ((Toy.signed (some Toy.oa)).about [1])
      ((Toy.signed (some Toy.oa)).about [2]) ∨ Absorbs ((Toy.signed (some Toy.oa)).about [2])
        ((Toy.signed (some Toy.oa)).about [1])) := by
    rintro (h | h)
    · cases h.1
    · cases h.1
  have hsigned := (doSign_ok Toy.doSign_signed).2.2
  have hpresented := Toy.readable_other.admitted
  constructor
  · intro heq
    exact hdiffer (((signature_binding Toy.lib).1 _ _ hsigned hpresented).2 hnot heq)
  · intro hgood
    exact hdiffer (((signature_binding Toy.lib).2 false 0 _ [1] [2] _ _ _ Toy.doSign_signed
      Toy.readable_other rfl rfl Toy.unbroken_other).2 hnot hgood)

/-- The bytes of a signature with an attestation are those of one without it, and the signature
stays good when the attestation is moved from the envelope to the payload. -/
theorem attestation_can_be_stripped :
    (¬ ∀ x y : SignedData, x.Admitted → y.Admitted → x.signingInput = y.signingInput → x = y) ∧
    ¬ ∀ (lib : Libraries Bool) (key : Bool) (now : Nat) (authTag : Option Text)
      (payload payload' : Bytes) (signed presented : Envelope) (jsonStr : Text),
      doSign lib key now authTag payload = .ok signed →
      Readable lib jsonStr presented payload' →
      presented.pk = signed.pk → presented.sig = signed.sig →
      Unbroken lib key (signed.about payload).signingInput
        (presented.about payload').signingInput →
      (∃ result, doVerify lib jsonStr payload' = .goodsig presented result) →
      signed.about payload = presented.about payload' := by
  have hx := Toy.readable_stripped.admitted
  have hy := (doSign_ok Toy.doSign_signed).2.2
  have hsame := (signingInput_eq_iff hx hy).2 (Or.inr (Or.inl Toy.absorbs_stripped))
  constructor
  · exact fun h => Toy.absorbs_stripped.ne (h _ _ hx hy hsame)
  · intro h
    have hlib : Unbroken Toy.lib false ((Toy.signed (some Toy.oa)).about [1]).signingInput
        (Toy.stripped.about Toy.longer).signingInput := by
      rw [hsame]
      exact Toy.unbroken_same _
    have hgood := (goodsig_iff_signingInput Toy.doSign_signed Toy.readable_stripped rfl rfl hlib).2
      hsame.symm
    exact Toy.absorbs_stripped.ne
      (h Toy.lib false 0 _ [1] _ _ _ _ Toy.doSign_signed Toy.readable_stripped rfl rfl hlib
        hgood).symm

end GitSign
end Maju
