import Maju.GitSign.Armor

/-!
# Conditions — what an attestation is good for, and what is reported of it

The conditions of an attestation are clauses, joined by an ampersand: a kind of event, or a time
that the signature lies before or behind.  `do_verify` reports one word for an attestation on its
status lines.  The documentation of the program names five such words; one of them, for conditions
with a kind, is never reported.

* `Clause`, `conditionsText` — the documented grammar;
* `validateConditions_iff`, `enforceConditions_ok_iff`, `hasKindClause_iff` — the three functions
  that walk over the clauses, against the grammar;
* `oaLines`, `documentedStatus` — the lines that are written, and the word that should be on them;
* `oaStatus_iff` — when the two agree.
-/

namespace Maju
namespace GitSign

open Lib

/-! ## The grammar -/

/-- A clause. -/
inductive Clause where
  | kind (n : Nat)
  | createdBefore (n : Nat)
  | createdAfter (n : Nat)
  deriving DecidableEq, Repr

namespace Clause

/-- What stands in front of the number. -/
def name : Clause → Text
  | .kind _ => "kind=".toList
  | .createdBefore _ => "created_at<".toList
  | .createdAfter _ => "created_at>".toList

def value : Clause → Nat
  | .kind n => n
  | .createdBefore n => n
  | .createdAfter n => n

def text (clause : Clause) : Text := clause.name ++ decimal clause.value

/-- The numbers that a clause may have. -/
def InRange : Clause → Prop
  | .kind n => n ≤ 65535
  | .createdBefore n => n ≤ 4294967295
  | .createdAfter n => n ≤ 4294967295

/-- A clause that is true at a time; of a kind there is nothing to say. -/
def Holds (t : Nat) : Clause → Prop
  | .kind _ => True
  | .createdBefore n => t < n
  | .createdAfter n => n < t

def IsKind : Clause → Prop
  | .kind _ => True
  | .createdBefore _ => False
  | .createdAfter _ => False

instance : DecidablePred InRange
  | .kind n => inferInstanceAs (Decidable (n ≤ 65535))
  | .createdBefore n => inferInstanceAs (Decidable (n ≤ 4294967295))
  | .createdAfter n => inferInstanceAs (Decidable (n ≤ 4294967295))

instance (t : Nat) : DecidablePred (Holds t)
  | .kind _ => inferInstanceAs (Decidable True)
  | .createdBefore n => inferInstanceAs (Decidable (t < n))
  | .createdAfter n => inferInstanceAs (Decidable (n < t))

instance : DecidablePred IsKind
  | .kind _ => inferInstanceAs (Decidable True)
  | .createdBefore _ => inferInstanceAs (Decidable False)
  | .createdAfter _ => inferInstanceAs (Decidable False)

end Clause

/-- Conditions with these clauses. -/
def conditionsText : List Clause → Text
  | [] => []
  | clause :: clauses => clause.text ++ (clauses.map Clause.text).flatMap ('&' :: ·)

/-! ## Kinds -/

def hasKindClause (conditions : Text) : Bool :=
  if conditions.isEmpty then false
  else (fields '&' conditions).any fun clause => "kind=".toList.isPrefixOf clause

/-! ## Reports -/

def OaVerifyResult.asStatusStr : OaVerifyResult → Text
  | .absent => "none".toList
  | .valid => "valid".toList
  | .invalidSignature => "invalid_signature".toList
  | .conditionsViolated => "expired".toList

/-- The status lines of `do_verify` about the attestation. -/
def oaLines (envelope : Envelope) (oaResult : OaVerifyResult) : List Text :=
  match envelope.oa with
  | some oa =>
      ["NOTATION_NAME nostr-oa-status".toList, "NOTATION_DATA ".toList ++ oaResult.asStatusStr,
        "NOTATION_NAME nostr-oa-owner".toList, "NOTATION_DATA ".toList ++ oa.owner]
  | none => ["NOTATION_NAME nostr-oa-status".toList, "NOTATION_DATA none".toList]

section

variable {SecretKey : Type} (lib : Libraries SecretKey)

/-- The owner has signed the key of the signer and the conditions. -/
def OwnerSigned (envelope : Envelope) (oa : Attestation) : Prop :=
  lib.verifySchnorr oa.sig
    (lib.sha256 (encode ("nostr:agent-auth:".toList ++ envelope.pk ++ ":".toList ++ oa.conditions)))
    oa.owner = some true

instance (envelope : Envelope) (oa : Attestation) : Decidable (OwnerSigned lib envelope oa) :=
  inferInstanceAs (Decidable (_ = some true))

/-- The word for an attestation with these clauses, as it is documented. -/
def documentedStatus (envelope : Envelope) (oa : Attestation) (clauses : List Clause) : Text :=
  if ¬ OwnerSigned lib envelope oa then "invalid_signature".toList
  else if ∃ clause ∈ clauses, ¬ clause.Holds envelope.t then "expired".toList
  else if ∃ clause ∈ clauses, clause.IsKind then "kind_not_applicable".toList
  else "valid".toList

def documentedLines (envelope : Envelope) (oa : Attestation) (clauses : List Clause) : List Text :=
  ["NOTATION_NAME nostr-oa-status".toList,
    "NOTATION_DATA ".toList ++ documentedStatus lib envelope oa clauses,
    "NOTATION_NAME nostr-oa-owner".toList, "NOTATION_DATA ".toList ++ oa.owner]

end

/-! ## Numbers -/

theorem parseDecimalU32_decimal {n : Nat} (hn : n < 2 ^ 32) :
    parseDecimalU32 (decimal n) = some n := by
  have hsign : ∀ c : Char, c.isDigit = false → (decimal n).head? ≠ some c :=
    fun c hc hhead => not_mem_decimal hc n (List.mem_of_head? hhead)
  have hzero : ¬ (1 < byteLen (decimal n) ∧ (decimal n).head? = some '0') := by
    rintro ⟨hlong, hhead⟩
    cases n with
    | zero => exact absurd hlong (by decide)
    | succ n => exact head?_decimal_ne (Nat.succ_pos n) hhead
  have hsigns : ¬ ((decimal n).head? = some '+' ∨ (decimal n).head? = some '-') := by
    rintro (h | h)
    · exact hsign '+' (by decide) h
    · exact hsign '-' (by decide) h
  unfold parseDecimalU32
  rw [if_neg (by simpa using decimal_ne_nil n), if_neg hsigns, if_neg hzero, parseDigits_decimal]
  exact Option.filter_some_pos (decide_eq_true hn)

theorem parseDecimalU32_eq_some_iff {s : Text} {n : Nat} :
    parseDecimalU32 s = some n ↔ s = decimal n ∧ n < 2 ^ 32 := by
  constructor
  · intro h
    unfold parseDecimalU32 at h
    split_ifs at h with hempty hsign hzero
    obtain ⟨hdigits, hn⟩ := Option.filter_eq_some_iff.1 h
    refine ⟨?_, of_decide_eq_true hn⟩
    unfold parseDigits at hdigits
    split_ifs at hdigits with hall
    cases hdigits
    refine (decimal_ofDigitChars hall.1 (List.all_eq_true.1 hall.2) fun hhead => ?_).symm
    cases s with
    | nil => cases hhead
    | cons c rest =>
        cases hhead
        have hshort : ¬ 1 < byteLen ('0' :: rest) := fun hlong => hzero ⟨hlong, rfl⟩
        rw [byteLen_cons] at hshort
        have hnone : byteLen rest = 0 := by
          have hone : '0'.utf8Size = 1 := rfl
          omega
        rw [byteLen_eq_zero_iff.1 hnone]
  · rintro ⟨rfl, hn⟩
    exact parseDecimalU32_decimal hn

/-! ## Clauses -/

theorem afterPrefix_append (name value : Text) : afterPrefix name (name ++ value) = some value :=
  afterPrefix_eq_some_iff.2 rfl

theorem Clause.afterPrefix_text (clause : Clause) :
    (∀ n, clause = .kind n → afterPrefix "kind=".toList clause.text = some (decimal n) ∧
      afterPrefix "created_at<".toList clause.text = none ∧
      afterPrefix "created_at>".toList clause.text = none) ∧
    (∀ n, clause = .createdBefore n → afterPrefix "kind=".toList clause.text = none ∧
      afterPrefix "created_at<".toList clause.text = some (decimal n)) ∧
    (∀ n, clause = .createdAfter n → afterPrefix "kind=".toList clause.text = none ∧
      afterPrefix "created_at<".toList clause.text = none ∧
      afterPrefix "created_at>".toList clause.text = some (decimal n)) := by
  refine ⟨?_, ?_, ?_⟩
  · rintro n rfl
    exact ⟨afterPrefix_append _ _, rfl, rfl⟩
  · rintro n rfl
    exact ⟨rfl, afterPrefix_append _ _⟩
  · rintro n rfl
    exact ⟨rfl, rfl, afterPrefix_append _ _⟩

theorem Clause.not_mem_text (clause : Clause) : '&' ∉ clause.text := by
  have hname : '&' ∉ clause.name := by
    cases clause with
    | kind n => exact (by decide : '&' ∉ "kind=".toList)
    | createdBefore n => exact (by decide : '&' ∉ "created_at<".toList)
    | createdAfter n => exact (by decide : '&' ∉ "created_at>".toList)
  intro hmem
  rcases List.mem_append.1 hmem with h | h
  · exact hname h
  · exact not_mem_decimal (by decide) clause.value h

theorem Clause.text_ne_nil (clause : Clause) : clause.text ≠ [] := by
  intro h
  exact decimal_ne_nil clause.value (List.append_eq_nil_iff.1 h).2

theorem Clause.InRange.value_lt {clause : Clause} (h : clause.InRange) : clause.value < 2 ^ 32 := by
  cases clause with
  | kind n => exact Nat.lt_of_le_of_lt h (by decide)
  | createdBefore n => exact Nat.lt_succ_of_le h
  | createdAfter n => exact Nat.lt_succ_of_le h

theorem validClause_iff {s : Text} :
    validClause s = true ↔ ∃ clause : Clause, clause.InRange ∧ s = clause.text := by
  constructor
  · intro h
    unfold validClause at h
    split_ifs at h
    split at h
    · next val hval =>
        cases hparse : parseDecimalU32 val with
        | none =>
            rw [hparse] at h
            cases h
        | some n =>
            obtain ⟨rfl, _⟩ := parseDecimalU32_eq_some_iff.1 hparse
            rw [hparse] at h
            have hle : n ≤ 65535 := of_decide_eq_true h
            exact ⟨.kind n, hle, afterPrefix_eq_some_iff.1 hval⟩
    · split at h
      · next val hval =>
          obtain ⟨n, hparse⟩ := Option.isSome_iff_exists.1 h
          obtain ⟨rfl, hn⟩ := parseDecimalU32_eq_some_iff.1 hparse
          exact ⟨.createdBefore n, Nat.le_of_lt_succ hn, afterPrefix_eq_some_iff.1 hval⟩
      · split at h
        · next val hval =>
            obtain ⟨n, hparse⟩ := Option.isSome_iff_exists.1 h
            obtain ⟨rfl, hn⟩ := parseDecimalU32_eq_some_iff.1 hparse
            exact ⟨.createdAfter n, Nat.le_of_lt_succ hn, afterPrefix_eq_some_iff.1 hval⟩
        · cases h
  · rintro ⟨clause, hrange, rfl⟩
    obtain ⟨hkind, hbefore, hafter⟩ := clause.afterPrefix_text
    have hvalue := parseDecimalU32_decimal hrange.value_lt
    unfold validClause
    rw [if_neg (by simpa using clause.text_ne_nil)]
    cases clause with
    | kind n =>
        have hn : parseDecimalU32 (decimal n) = some n := hvalue
        have hle : n ≤ 65535 := hrange
        rw [(hkind n rfl).1]
        exact (congrArg (Option.any fun m => decide (m ≤ 65535)) hn).trans (by simpa using hle)
    | createdBefore n =>
        rw [(hbefore n rfl).1, (hbefore n rfl).2]
        exact congrArg Option.isSome hvalue
    | createdAfter n =>
        rw [(hafter n rfl).1, (hafter n rfl).2.1, (hafter n rfl).2.2]
        exact congrArg Option.isSome hvalue

/-! ## Conditions -/

theorem fields_conditionsText (clause : Clause) (clauses : List Clause) :
    fields '&' (conditionsText (clause :: clauses)) = (clause :: clauses).map Clause.text := by
  refine fields_join fun s hs => ?_
  rw [← List.map_cons, List.mem_map] at hs
  obtain ⟨c, _, rfl⟩ := hs
  exact c.not_mem_text

theorem isEmpty_conditionsText (clause : Clause) (clauses : List Clause) :
    (conditionsText (clause :: clauses)).isEmpty = false := by
  rw [← Bool.not_eq_true, List.isEmpty_iff]
  intro h
  exact clause.text_ne_nil (List.append_eq_nil_iff.1 h).1

/-- `validate_conditions` lets through what the grammar has, and nothing else. -/
theorem validateConditions_iff {s : Text} :
    validateConditions s = true ↔
      ∃ clauses : List Clause,
        (∀ clause ∈ clauses, clause.InRange) ∧ s = conditionsText clauses := by
  constructor
  · intro h
    rcases Bool.or_eq_true_iff.1 h with hempty | hall
    · exact ⟨[], List.forall_mem_nil _, List.isEmpty_iff.1 hempty⟩
    · obtain ⟨p, ps, hfields, hjoin, _⟩ := exists_fields '&' s
      rw [hfields] at hall
      have hclauses : ∀ l : List Text, l.all validClause = true →
          ∃ clauses : List Clause, (∀ clause ∈ clauses, clause.InRange) ∧
            l = clauses.map Clause.text := by
        intro l hl
        induction l with
        | nil => exact ⟨[], List.forall_mem_nil _, rfl⟩
        | cons piece l ih =>
            obtain ⟨hpiece, hpieces⟩ := Bool.and_eq_true_iff.1 hl
            obtain ⟨clause, hrange, rfl⟩ := validClause_iff.1 hpiece
            obtain ⟨clauses, hclauses, rfl⟩ := ih hpieces
            exact ⟨clause :: clauses, List.forall_mem_cons.2 ⟨hrange, hclauses⟩, rfl⟩
      obtain ⟨clauses, hrange, heq⟩ := hclauses _ hall
      cases clauses with
      | nil => cases heq
      | cons clause clauses =>
          obtain ⟨rfl, rfl⟩ := List.cons.inj heq
          exact ⟨clause :: clauses, hrange, hjoin⟩
  · rintro ⟨clauses, hrange, rfl⟩
    cases clauses with
    | nil => rfl
    | cons clause clauses =>
        rw [validateConditions, isEmpty_conditionsText, fields_conditionsText, Bool.false_or,
          List.all_map]
        exact List.all_eq_true.2 fun c hc => validClause_iff.2 ⟨c, hrange c hc, rfl⟩

theorem enforceClauses_cons {t : Nat} {clause : Clause} (hrange : clause.InRange)
    (rest : List Text) :
    enforceClauses t (clause.text :: rest) = .ok () ↔
      clause.Holds t ∧ enforceClauses t rest = .ok () := by
  obtain ⟨hkind, hbefore, hafter⟩ := clause.afterPrefix_text
  have hvalue := parseDecimalU32_decimal hrange.value_lt
  cases clause with
  | kind n =>
      rw [enforceClauses, (hkind n rfl).2.1, (hkind n rfl).2.2]
      simp [Clause.Holds]
  | createdBefore n =>
      have hn : parseDecimalU32 (decimal n) = some n := hvalue
      rw [enforceClauses, (hbefore n rfl).2]
      simp only [hn, Clause.Holds]
      by_cases hlate : n ≤ t
      · simp [hlate, Nat.not_lt.2 hlate]
      · simp [hlate, Nat.lt_of_not_le hlate]
  | createdAfter n =>
      have hn : parseDecimalU32 (decimal n) = some n := hvalue
      rw [enforceClauses, (hafter n rfl).2.1, (hafter n rfl).2.2]
      simp only [hn, Clause.Holds]
      by_cases hearly : t ≤ n
      · simp [hearly, Nat.not_lt.2 hearly]
      · simp [hearly, Nat.lt_of_not_le hearly]

/-- `enforce_conditions` passes if and only if all clauses hold. -/
theorem enforceConditions_ok_iff {clauses : List Clause}
    (hrange : ∀ clause ∈ clauses, clause.InRange) (t : Nat) :
    enforceConditions (conditionsText clauses) t = .ok () ↔
      ∀ clause ∈ clauses, clause.Holds t := by
  have hall : ∀ l : List Clause, (∀ clause ∈ l, clause.InRange) →
      (enforceClauses t (l.map Clause.text) = .ok () ↔ ∀ clause ∈ l, clause.Holds t) := by
    intro l hl
    induction l with
    | nil => simp [enforceClauses]
    | cons clause l ih =>
        obtain ⟨hclause, hrest⟩ := List.forall_mem_cons.1 hl
        rw [List.map_cons, enforceClauses_cons hclause, ih hrest, List.forall_mem_cons]
  cases clauses with
  | nil => simp [enforceConditions, conditionsText]
  | cons clause clauses =>
      rw [enforceConditions, isEmpty_conditionsText, fields_conditionsText]
      exact hall _ hrange

/-- `has_kind_clause` finds the clauses about a kind. -/
theorem hasKindClause_iff (clauses : List Clause) :
    hasKindClause (conditionsText clauses) = true ↔ ∃ clause ∈ clauses, clause.IsKind := by
  have hone : ∀ clause : Clause, "kind=".toList.isPrefixOf clause.text = true ↔ clause.IsKind := by
    intro clause
    cases clause with
    | kind n => exact iff_of_true (List.isPrefixOf_iff_prefix.2 (List.prefix_append _ _)) trivial
    | createdBefore n => exact iff_of_false (Bool.eq_false_iff.1 rfl) not_false
    | createdAfter n => exact iff_of_false (Bool.eq_false_iff.1 rfl) not_false
  cases clauses with
  | nil => simp [hasKindClause, conditionsText]
  | cons clause clauses =>
      rw [hasKindClause, isEmpty_conditionsText, fields_conditionsText, if_neg Bool.false_ne_true,
        List.any_map, List.any_eq_true]
      exact exists_congr fun c => and_congr_right fun _ => hone c

/-! ## The word that is reported -/

section

variable {SecretKey : Type} {lib : Libraries SecretKey}

theorem goodsig_attestation {engine : Base64Engine} {file : SignatureFile} {payload : Bytes}
    {envelope : Envelope} {result : OaVerifyResult} {oa : Attestation}
    (h : doVerifyFile lib engine file payload = .goodsig envelope result)
    (hoa : envelope.oa = some oa) :
    lib.publicKeyFromHex oa.owner = .ok () ∧ result = attestationResult lib envelope oa := by
  rw [doVerifyFile_eq] at h
  split at h
  · cases h
  · next opened _ =>
      split at h
      · cases h
      · split_ifs at h
        unfold verifyEnvelope at h
        split at h
        · cases h
        · cases h
        · split at h
          · cases h
            next hnone =>
              rw [hoa] at hnone
              cases hnone
          · next found hfound =>
              split at h
              · cases h
              · next hkey =>
                  cases h
                  rw [hoa] at hfound
                  cases hfound
                  exact ⟨hkey, rfl⟩

theorem attestationResult_eq {envelope : Envelope} {oa : Attestation} {clauses : List Clause}
    (hkey : lib.publicKeyFromHex oa.owner = .ok ())
    (hrange : ∀ clause ∈ clauses, clause.InRange) (hoa : oa.conditions = conditionsText clauses) :
    attestationResult lib envelope oa =
      if ¬ OwnerSigned lib envelope oa then .invalidSignature
      else if ∃ clause ∈ clauses, ¬ clause.Holds envelope.t then .conditionsViolated
      else .valid := by
  have hverify : verifyOa lib envelope.pk oa = true ↔ OwnerSigned lib envelope oa := by
    rw [verifyOa, hkey]
    exact beq_iff_eq
  have henforce := enforceConditions_ok_iff hrange envelope.t
  rw [← hoa] at henforce
  unfold attestationResult
  by_cases hsigned : OwnerSigned lib envelope oa
  · rw [hverify.2 hsigned, if_neg (not_not_intro hsigned)]
    by_cases hexpired : ∃ clause ∈ clauses, ¬ clause.Holds envelope.t
    · rw [if_pos hexpired]
      cases hresult : enforceConditions oa.conditions envelope.t with
      | error msg => rfl
      | ok _ =>
          obtain ⟨clause, hmem, hnot⟩ := hexpired
          exact absurd (henforce.1 hresult clause hmem) hnot
    · rw [if_neg hexpired]
      push Not at hexpired
      rw [henforce.2 hexpired]
      rfl
  · have hnot : verifyOa lib envelope.pk oa = false := by
      rw [← Bool.not_eq_true, hverify]
      exact hsigned
    rw [hnot, if_pos hsigned]
    rfl

/-- The conditions are read as they are documented, and the word that is reported is the documented
one unless the owner has signed, all times hold and there is a kind. -/
theorem oaStatus_iff (lib : Libraries SecretKey) (engine : Base64Engine) :
    (∀ s : Text, validateConditions s = true ↔
      ∃ clauses : List Clause, (∀ clause ∈ clauses, clause.InRange) ∧ s = conditionsText clauses) ∧
    (∀ (clauses : List Clause) (t : Nat), (∀ clause ∈ clauses, clause.InRange) →
      (enforceConditions (conditionsText clauses) t = .ok () ↔
        ∀ clause ∈ clauses, clause.Holds t)) ∧
    ∀ (file : SignatureFile) (payload : Bytes) (envelope : Envelope) (result : OaVerifyResult)
      (oa : Attestation) (clauses : List Clause),
      doVerifyFile lib engine file payload = .goodsig envelope result →
      envelope.oa = some oa → (∀ clause ∈ clauses, clause.InRange) →
      oa.conditions = conditionsText clauses →
      (oaLines envelope result = documentedLines lib envelope oa clauses ↔
        ¬ (OwnerSigned lib envelope oa ∧ (∀ clause ∈ clauses, clause.Holds envelope.t) ∧
          hasKindClause oa.conditions = true)) := by
  refine ⟨fun s => validateConditions_iff, fun clauses t h => enforceConditions_ok_iff h t, ?_⟩
  intro file payload envelope result oa clauses hgood hoa hrange hconditions
  obtain ⟨hkey, rfl⟩ := goodsig_attestation hgood hoa
  have hlines : ∀ result : OaVerifyResult,
      oaLines envelope result = documentedLines lib envelope oa clauses ↔
        result.asStatusStr = documentedStatus lib envelope oa clauses := by
    intro result
    simp [oaLines, hoa, documentedLines]
  rw [hlines, attestationResult_eq hkey hrange hconditions, hconditions, hasKindClause_iff]
  unfold documentedStatus
  by_cases hsigned : OwnerSigned lib envelope oa
  · by_cases hexpired : ∃ clause ∈ clauses, ¬ clause.Holds envelope.t
    · rw [if_neg (not_not_intro hsigned), if_neg (not_not_intro hsigned), if_pos hexpired,
        if_pos hexpired]
      refine iff_of_true rfl ?_
      rintro ⟨_, hall, _⟩
      obtain ⟨clause, hmem, hnot⟩ := hexpired
      exact hnot (hall clause hmem)
    · rw [if_neg (not_not_intro hsigned), if_neg (not_not_intro hsigned), if_neg hexpired,
        if_neg hexpired]
      push Not at hexpired
      by_cases hkind : ∃ clause ∈ clauses, clause.IsKind
      · rw [if_pos hkind]
        refine iff_of_false (by decide) ?_
        exact not_not_intro ⟨hsigned, hexpired, hkind⟩
      · rw [if_neg hkind]
        exact iff_of_true rfl fun h => hkind h.2.2
  · rw [if_pos hsigned, if_pos hsigned]
    exact iff_of_true rfl fun h => hsigned h.1

end

/-! ## Signatures under conditions -/

namespace Toy

/-- The second key lets the first sign under these conditions. -/
def oaFor (clauses : List Clause) : Attestation where
  owner := lib.publicKey true
  conditions := conditionsText clauses
  sig := lib.signSchnorr true
    (lib.sha256 (encode ("nostr:agent-auth:".toList ++ lib.publicKey false ++ ":".toList ++
      conditionsText clauses)))

def tagFor (clauses : List Clause) : Text :=
  Json.print (.arr [.str "auth".toList, .str (oaFor clauses).owner,
    .str (oaFor clauses).conditions, .str (oaFor clauses).sig])

/-- The file with the signature of the first key. -/
def fileFor (clauses : List Clause) : SignatureFile where
  path := "commit.sig".toList
  regular := true
  size := (signatureBytes engine (signed (some (oaFor clauses)))).length
  content := signatureBytes engine (signed (some (oaFor clauses)))

/-- What is signed at time 0 is in time. -/
def inTime : List Clause := [.createdBefore 5, .createdBefore 4294967295]

/-- What is signed at time 0 is too early for the second clause. -/
def tooEarly : List Clause := [.createdBefore 5, .createdAfter 3, .kind 1]

theorem doVerifyFile_for {clauses : List Clause} {result : OaVerifyResult}
    (hfields : Embeddable lib (signed (some (oaFor clauses))))
    (hverify : verifyEnvelope lib (signed (some (oaFor clauses))) [1] =
      .goodsig (signed (some (oaFor clauses))) result) :
    doVerifyFile lib engine (fileFor clauses) [1] =
      .goodsig (signed (some (oaFor clauses))) result := by
  have hfile : (fileFor clauses).Holds (signatureBytes engine (signed (some (oaFor clauses)))) :=
    ⟨rfl, rfl, rfl⟩
  have hsize : ¬ maxPayload < [(1 : UInt8)].length := by decide
  rw [doVerifyFile_eq, openSignature_eq engine_standard hfields hfile]
  simp only [lib, hsize, if_false]
  exact hverify

theorem embeddable_for {clauses : List Clause}
    (hsig : byteLen (signed (some (oaFor clauses))).sig = 128 ∧
      (signed (some (oaFor clauses))).sig.all isLowerHex = true)
    (htag : loadAuthTag lib (some (tagFor clauses)) = .ok (some (oaFor clauses))) :
    Embeddable lib (signed (some (oaFor clauses))) := by
  have hpk : byteLen (lib.publicKey false) = 64 ∧ (lib.publicKey false).all isLowerHex = true := by
    decide +kernel
  have howner : lib.publicKey true ≠ lib.publicKey false := by decide +kernel
  refine ⟨hpk, hsig, (by decide : 0 < 2 ^ 32), ?_⟩
  intro other hother
  cases hother
  exact ⟨⟨_, htag⟩, rfl, howner⟩

theorem doVerifyFile_kind :
    doVerifyFile lib engine (fileFor [.kind 1]) [1] =
      .goodsig (signed (some (oaFor [.kind 1]))) .valid :=
  doVerifyFile_for (embeddable_for (by decide +kernel) (by decide +kernel)) (by decide +kernel)

theorem doVerifyFile_inTime :
    doVerifyFile lib engine (fileFor inTime) [1] =
      .goodsig (signed (some (oaFor inTime))) .valid :=
  doVerifyFile_for (embeddable_for (by decide +kernel) (by decide +kernel)) (by decide +kernel)

theorem doVerifyFile_tooEarly :
    doVerifyFile lib engine (fileFor tooEarly) [1] =
      .goodsig (signed (some (oaFor tooEarly))) .conditionsViolated :=
  doVerifyFile_for (embeddable_for (by decide +kernel) (by decide +kernel)) (by decide +kernel)

end Toy

/-- The words for an attestation whose times hold and for one of which a time does not hold. -/
theorem oaStatus_times :
    oaLines (Toy.signed (some (Toy.oaFor Toy.inTime))) .valid =
        documentedLines Toy.lib (Toy.signed (some (Toy.oaFor Toy.inTime))) (Toy.oaFor Toy.inTime)
          Toy.inTime ∧
      oaLines (Toy.signed (some (Toy.oaFor Toy.tooEarly))) .conditionsViolated =
        documentedLines Toy.lib (Toy.signed (some (Toy.oaFor Toy.tooEarly)))
          (Toy.oaFor Toy.tooEarly) Toy.tooEarly := by
  have hstatus := (oaStatus_iff Toy.lib Toy.engine).2.2
  constructor
  · refine (hstatus (Toy.fileFor Toy.inTime) [1] _ .valid _ Toy.inTime Toy.doVerifyFile_inTime rfl
      (by decide) rfl).2 ?_
    exact fun h => absurd h.2.2 (by decide)
  · refine (hstatus (Toy.fileFor Toy.tooEarly) [1] _ .conditionsViolated _ Toy.tooEarly
      Toy.doVerifyFile_tooEarly rfl (by decide) rfl).2 ?_
    exact fun h => absurd (h.2.1 (.createdAfter 3) (by simp [Toy.tooEarly])) (by decide)

/-- Conditions with a kind are reported as valid, not by the word that is documented for them. -/
theorem kind_reported_valid :
    ¬ ∀ (lib : Libraries Bool) (engine : Base64Engine) (file : SignatureFile) (payload : Bytes)
      (envelope : Envelope) (result : OaVerifyResult) (oa : Attestation) (clauses : List Clause),
      doVerifyFile lib engine file payload = .goodsig envelope result →
      envelope.oa = some oa → (∀ clause ∈ clauses, clause.InRange) →
      oa.conditions = conditionsText clauses →
      oaLines envelope result = documentedLines lib envelope oa clauses := by
  intro h
  have hlines := h Toy.lib Toy.engine (Toy.fileFor [.kind 1]) [1] _ .valid _ [.kind 1]
    Toy.doVerifyFile_kind rfl (by decide) rfl
  have hdiffer : oaLines (Toy.signed (some (Toy.oaFor [.kind 1]))) .valid ≠
      documentedLines Toy.lib (Toy.signed (some (Toy.oaFor [.kind 1]))) (Toy.oaFor [.kind 1])
        [.kind 1] := by
    decide +kernel
  exact hdiffer hlines

end GitSign
end Maju
