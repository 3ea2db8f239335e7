import Maju.Lib.Framing
import Maju.Lib.Shell
import Maju.Relay.Git.Manifest

/-!
# Hook — what the signature of a hook callback is computed over

The pre-receive hook, a shell script, signs the push that git is about to accept and the relay's
policy endpoint checks the signature.  Each side builds the signed bytes on its own: the script
sorts whole lines in the C locale, the endpoint sorts the updates by the name of their ref.

* `hmacInput` — the bytes of the script; `canonicalPayload` — those of the endpoint;
* `hookInput_eq` — the script on the lines git writes to it;
* `canonical_payload_agrees` — both sides build the same bytes, and no two requests that pass the
  structural checks have the same bytes unless they describe one push.
-/

namespace Maju
namespace Relay
namespace Git

open Lib

/-! ## Requests -/

/-- A single ref update as reported by the pre-receive hook. -/
structure HookRefUpdate where
  oldOid : Text
  newOid : Text
  refName : Text
  isAncestor : Bool
  deriving DecidableEq

/-- Request payload from the pre-receive hook. -/
structure HookCallbackRequest where
  repoId : Text
  repoOwner : Text
  communityId : Text
  pusherPubkey : Text
  refUpdates : List HookRefUpdate
  timestamp : UInt64
  signature : Text
  deriving DecidableEq

/-- What `compute_hmac` feeds for one update. -/
def HookRefUpdate.payload (r : HookRefUpdate) : Bytes :=
  encode r.oldOid ++ encode r.newOid ++ countedText r.refName ++ [if r.isAncestor then 49 else 48]

/-- What `compute_hmac` feeds to the MAC: fields between bars, the updates sorted by name. -/
def canonicalPayload (req : HookCallbackRequest) : Bytes :=
  countedText req.repoId ++ [124] ++ encode req.repoOwner ++ [124] ++ encode req.communityId ++
    [124] ++ encode req.pusherPubkey ++ [124] ++
    (sortByBytes (fun r => encode r.refName) req.refUpdates).flatMap HookRefUpdate.payload ++
    [124] ++ encode (decimal req.timestamp.toNat)

/-- A MAC: the secret, the message and the tag. -/
abbrev Hmac := Bytes → Bytes → Bytes

def computeHmac (hmac : Hmac) (secret : Bytes) (req : HookCallbackRequest) : Bytes :=
  hmac secret (canonicalPayload req)

/-- `hex::decode`. -/
def hexDecode : Text → Option Bytes
  | [] => some []
  | [_] => none
  | hi :: lo :: rest => do
      let high ← hexValue hi
      let low ← hexValue lo
      let bytes ← hexDecode rest
      return UInt8.ofNat (high * 16 + low) :: bytes

def verifyHmac (hmac : Hmac) (secret : Bytes) (req : HookCallbackRequest) : Bool :=
  match hexDecode req.signature with
  | some provided => computeHmac hmac secret req = provided
  | none => false

/-! ## The structural checks of `hook_policy_check` -/

/-- A public key: 64 lowercase hexadecimal digits. -/
def isPubkeyHex (s : Text) : Bool :=
  byteLen s = 64 && s.all fun c => isAsciiHexdigit c && !c.isUpper

/-- An object id: 40 hexadecimal digits. -/
def isHookOid (s : Text) : Bool := byteLen s = 40 && s.all isAsciiHexdigit

/-- A ref name as the endpoint takes it. -/
def isHookRefName (s : Text) : Bool :=
  !(s = [] || 256 < byteLen s || !"refs/".toList.isPrefixOf s || containsText s "..".toList ||
    (encode s).any fun b => b ≤ 0x20 || b = 0x7f)

def checkUpdates : List HookRefUpdate → Except String Unit
  | [] => .ok ()
  | r :: rest =>
      if !isHookOid r.oldOid then .error "invalid old_oid"
      else if !isHookOid r.newOid then .error "invalid new_oid"
      else if !isHookRefName r.refName then .error "invalid ref_name"
      else checkUpdates rest

/-- Step 1 of `hook_policy_check`, with `Uuid::parse_str`: the community of the request. -/
def checkRequest {U : Type} (parseUuid : Text → Option U) (req : HookCallbackRequest) :
    Except String U :=
  if req.repoId = [] || 64 < byteLen req.repoId then .error "invalid repo_id"
  else if !isPubkeyHex req.repoOwner then .error "invalid repo_owner"
  else if !isPubkeyHex req.pusherPubkey then .error "invalid pusher_pubkey"
  else
    match parseUuid req.communityId with
    | none => .error "invalid community_id"
    | some community =>
        if req.refUpdates = [] || 500 < req.refUpdates.length then
          .error "invalid ref_updates count"
        else do
          checkUpdates req.refUpdates
          return community

/-! ## The script -/

/-- The variables that the relay sets for the script. -/
structure HookEnv where
  repoId : Bytes
  repoOwner : Bytes
  communityId : Bytes
  pusherPubkey : Bytes
  hookUrl : Bytes
  hookSecret : Bytes

/-- The variables without which the script exits, `: "${NAME:?…}"`. -/
def HookEnv.required (env : HookEnv) : List Bytes :=
  [env.repoId, env.repoOwner, env.communityId, env.pusherPubkey, env.hookUrl, env.hookSecret]

/-- `ZERO`. -/
def zeroOid : Bytes := List.replicate 40 48

/-- `echo "${ref_name} ${old_oid} ${new_oid} 1"`, or with `0`. -/
def hmacLine (refName oldOid newOid : Bytes) (isAncestor : Bool) : Bytes :=
  refName ++ 32 :: oldOid ++ 32 :: newOid ++ [32, if isAncestor then 49 else 48]

/-- A turn of the first loop: `read -r old_oid new_oid ref_name` and the line for `HMAC_FILE`.
`mergeBase` says whether `git merge-base --is-ancestor` exits with 0. -/
def classifyLine (mergeBase : Bytes → Bytes → Bool) (line : Bytes) : Bytes :=
  match Shell.readFields true Shell.defaultIfs 3 line with
  | [oldOid, newOid, refName] =>
      hmacLine refName oldOid newOid
        (oldOid != zeroOid && newOid != zeroOid && mergeBase oldOid newOid)
  | _ => []

/-- A turn of the second loop: `IFS=' ' read ref_name old_oid new_oid is_anc` and the `printf`. -/
def printLine (line : Bytes) : Bytes :=
  match Shell.readFields false (fun b => b = 32) 4 line with
  | [refName, oldOid, newOid, isAnc] =>
      oldOid ++ newOid ++ countBytes refName.length ++ refName ++ isAnc
  | _ => []

/-- `HMAC_INPUT` at the end of the script, from the lines of `HMAC_FILE`. -/
def hmacInput (env : HookEnv) (hmacFile : List Bytes) (timestamp : UInt64) : Option Bytes :=
  if [] ∈ env.required then none
  else
    some (countBytes env.repoId.length ++ env.repoId ++ [124] ++ env.repoOwner ++ [124] ++
      env.communityId ++ [124] ++ env.pusherPubkey ++ [124] ++
      Shell.capture ((Shell.sortLines hmacFile).flatMap printLine) ++
      [124] ++ encode (decimal timestamp.toNat))

/-- `HMAC_INPUT` from the lines of stdin. -/
def hookInput (env : HookEnv) (mergeBase : Bytes → Bytes → Bool) (stdin : List Bytes)
    (timestamp : UInt64) : Option Bytes :=
  hmacInput env (stdin.map (classifyLine mergeBase)) timestamp

/-! ## What the script reads back -/

/-- A word of a line: not empty, and nothing in it that `read` takes apart. -/
def IsWord (text : Text) : Prop := text ≠ [] ∧ ∀ b ∈ encode text, 32 < b ∧ b ≠ 92

instance (text : Text) : Decidable (IsWord text) := inferInstanceAs (Decidable (_ ∧ _))

/-- An update whose three fields are words. -/
structure HookRefUpdate.Readable (r : HookRefUpdate) : Prop where
  oldOid : IsWord r.oldOid
  newOid : IsWord r.newOid
  refName : IsWord r.refName

theorem IsWord.field {text : Text} {ifs : UInt8 → Bool} (h : IsWord text)
    (hifs : ∀ b, 32 < b → ifs b = false) :
    encode text ≠ [] ∧ ∀ b ∈ encode text, ifs b = false ∧ b ≠ 92 :=
  ⟨fun hnil => h.1 (encode_injective hnil), fun b hb => ⟨hifs b (h.2 b hb).1, (h.2 b hb).2⟩⟩

/-- The line that git writes for an update. -/
def HookRefUpdate.stdinLine (r : HookRefUpdate) : Bytes :=
  encode r.oldOid ++ 32 :: encode r.newOid ++ 32 :: encode r.refName

/-- The line of `HMAC_FILE` for an update. -/
def HookRefUpdate.hmacLine (r : HookRefUpdate) : Bytes :=
  Git.hmacLine (encode r.refName) (encode r.oldOid) (encode r.newOid) r.isAncestor

namespace HookRefUpdate

variable {r : HookRefUpdate}

theorem readFields_stdinLine (h : r.Readable) :
    Shell.readFields true Shell.defaultIfs 3 r.stdinLine =
      [encode r.oldOid, encode r.newOid, encode r.refName] := by
  have hifs : ∀ b : UInt8, 32 < b → Shell.defaultIfs b = false := by
    intro b hb
    have hval : 32 < b.toNat := hb
    have hne : ∀ c : UInt8, c.toNat ≤ 32 → b ≠ c := fun c hc heq => by
      rw [heq] at hval
      exact Nat.not_lt_of_le hc hval
    simp [Shell.defaultIfs, hne 32 (by decide), hne 9 (by decide), hne 10 (by decide)]
  have hwords : ∀ v ∈ [encode r.oldOid, encode r.newOid, encode r.refName],
      v ≠ [] ∧ ∀ b ∈ v, Shell.defaultIfs b = false ∧ b ≠ 92 := by
    simp only [List.forall_mem_cons, List.not_mem_nil, false_imp_iff, implies_true, and_true]
    exact ⟨h.oldOid.field hifs, h.newOid.field hifs, h.refName.field hifs⟩
  have hread := Shell.readFields_join true rfl hwords
  simp only [List.length_cons, List.length_nil, List.flatMap_cons, List.flatMap_nil,
    List.append_nil] at hread
  rw [stdinLine, List.append_assoc]
  exact hread

theorem classifyLine_stdinLine (h : r.Readable) (mergeBase : Bytes → Bytes → Bool) :
    classifyLine mergeBase r.stdinLine =
      ({ r with isAncestor := encode r.oldOid != zeroOid && encode r.newOid != zeroOid &&
        mergeBase (encode r.oldOid) (encode r.newOid) } : HookRefUpdate).hmacLine := by
  rw [classifyLine, readFields_stdinLine h]
  rfl

theorem printLine_hmacLine (h : r.Readable) : printLine r.hmacLine = r.payload := by
  have hifs : ∀ b : UInt8, 32 < b → decide (b = 32) = false := by
    intro b hb
    exact decide_eq_false fun heq => absurd hb (heq ▸ UInt8.lt_irrefl 32)
  have hflag : ∀ isAncestor : Bool, ∀ b ∈ [if isAncestor then (49 : UInt8) else 48],
      decide (b = 32) = false ∧ b ≠ 92 := by
    decide +kernel
  have hwords : ∀ v ∈ [encode r.refName, encode r.oldOid, encode r.newOid,
      [if r.isAncestor then 49 else 48]], v ≠ [] ∧ ∀ b ∈ v, decide (b = 32) = false ∧ b ≠ 92 := by
    simp only [List.forall_mem_cons, List.not_mem_nil, false_imp_iff, implies_true, and_true]
    exact ⟨h.refName.field hifs, h.oldOid.field hifs, h.newOid.field hifs, List.cons_ne_nil _ _,
      by simpa using hflag r.isAncestor⟩
  have hread := Shell.readFields_join false (by rfl) hwords
  simp only [List.length_cons, List.length_nil, List.flatMap_cons, List.flatMap_nil,
    List.append_nil] at hread
  have hline : r.hmacLine = encode r.refName ++ (32 :: encode r.oldOid ++ (32 :: encode r.newOid ++
      [32, if r.isAncestor then 49 else 48])) := by
    simp only [hmacLine, Git.hmacLine, List.append_assoc]
  rw [printLine, hline, hread]
  simp only [payload, countedText, length_encode, List.append_assoc]

theorem hmacLine_lt {r' : HookRefUpdate} (h' : r'.Readable)
    (hlt : encode r.refName < encode r'.refName) : r.hmacLine < r'.hmacLine := by
  simp only [hmacLine, Git.hmacLine, List.append_assoc]
  exact Shell.append_blank_lt hlt (fun b hb => (h'.refName.2 b hb).1) _ _

theorem newline_not_mem_payload (h : r.Readable) : 10 ∉ r.payload := by
  have hword : ∀ {text : Text}, IsWord text → 10 ∉ encode text := by
    intro text htext hmem
    exact absurd (htext.2 10 hmem).1 (by decide)
  have hcount : ∀ n, 10 ∉ countBytes n := by
    intro n hmem
    rcases List.mem_append.1 hmem with hdigit | hcolon
    · exact not_mem_decimal (c := '\n') rfl n (mem_of_mem_encode (by decide) (by decide) hdigit)
    · exact absurd hcolon (by decide)
  have hflag : ∀ isAncestor : Bool, 10 ∉ [if isAncestor then (49 : UInt8) else 48] := by decide +kernel
  simp only [payload, countedText, List.mem_append, not_or]
  exact ⟨⟨⟨hword h.oldOid, hword h.newOid⟩, hcount _, hword h.refName⟩, hflag r.isAncestor⟩

end HookRefUpdate

/-! ## Agreement -/

/-- The variables that the relay sets for the push of a request. -/
def HookCallbackRequest.env (req : HookCallbackRequest) (hookUrl hookSecret : Bytes) : HookEnv where
  repoId := encode req.repoId
  repoOwner := encode req.repoOwner
  communityId := encode req.communityId
  pusherPubkey := encode req.pusherPubkey
  hookUrl := hookUrl
  hookSecret := hookSecret

theorem nodup_names {updates : List HookRefUpdate}
    (hnames : (updates.map HookRefUpdate.refName).Nodup) :
    (updates.map fun r => encode r.refName).Nodup := by
  have hmap : (updates.map fun r => encode r.refName) =
      (updates.map HookRefUpdate.refName).map encode := by
    rw [List.map_map]
    rfl
  rw [hmap]
  exact hnames.map encode_injective

theorem canonicalPayload_congr {req : HookCallbackRequest} {updates : List HookRefUpdate}
    (hperm : req.refUpdates.Perm updates)
    (hnames : (req.refUpdates.map HookRefUpdate.refName).Nodup) :
    canonicalPayload req = canonicalPayload { req with refUpdates := updates } := by
  simp only [canonicalPayload, sortByBytes_congr hperm (nodup_names hnames)]

theorem printLine_sortLines {updates : List HookRefUpdate}
    (hnames : (updates.map HookRefUpdate.refName).Nodup) (hreadable : ∀ r ∈ updates, r.Readable) :
    (Shell.sortLines (updates.map HookRefUpdate.hmacLine)).flatMap printLine =
      (sortByBytes (fun r => encode r.refName) updates).flatMap HookRefUpdate.payload := by
  rw [Shell.sortLines_map (fun _ _ r' hr' hlt => HookRefUpdate.hmacLine_lt (hreadable r' hr') hlt)
    (nodup_names hnames), List.flatMap_map]
  apply List.flatMap_congr
  intro r hr
  exact HookRefUpdate.printLine_hmacLine (hreadable r ((sortByBytes_perm _ _).mem_iff.1 hr))

theorem hmacInput_eq {req : HookCallbackRequest} (hookUrl hookSecret : Bytes)
    (hnames : (req.refUpdates.map HookRefUpdate.refName).Nodup)
    (hreadable : ∀ r ∈ req.refUpdates, r.Readable) :
    hmacInput (req.env hookUrl hookSecret) (req.refUpdates.map HookRefUpdate.hmacLine)
        req.timestamp =
      if [] ∈ (req.env hookUrl hookSecret).required then none else some (canonicalPayload req) := by
  have hcapture : 10 ∉
      (sortByBytes (fun r => encode r.refName) req.refUpdates).flatMap HookRefUpdate.payload := by
    intro hmem
    obtain ⟨r, hr, hbyte⟩ := List.mem_flatMap.1 hmem
    exact HookRefUpdate.newline_not_mem_payload
      (hreadable r ((sortByBytes_perm _ _).mem_iff.1 hr)) hbyte
  rw [hmacInput, printLine_sortLines hnames hreadable, Shell.capture_eq_self hcapture]
  by_cases hunset : [] ∈ (req.env hookUrl hookSecret).required
  · rw [if_pos hunset, if_pos hunset]
  · rw [if_neg hunset, if_neg hunset]
    simp only [HookCallbackRequest.env, canonicalPayload, countedText, length_encode]

/-- The whole script, on the lines that git writes: the updates it signs say of each whether it
moves an existing ref to a descendant. -/
theorem hookInput_eq {req : HookCallbackRequest} (hookUrl hookSecret : Bytes)
    (mergeBase : Bytes → Bytes → Bool)
    (hnames : (req.refUpdates.map HookRefUpdate.refName).Nodup)
    (hreadable : ∀ r ∈ req.refUpdates, r.Readable)
    (hancestor : ∀ r ∈ req.refUpdates, r.isAncestor = (encode r.oldOid != zeroOid &&
      encode r.newOid != zeroOid && mergeBase (encode r.oldOid) (encode r.newOid))) :
    hookInput (req.env hookUrl hookSecret) mergeBase (req.refUpdates.map HookRefUpdate.stdinLine)
        req.timestamp =
      if [] ∈ (req.env hookUrl hookSecret).required then none else some (canonicalPayload req) := by
  have hlines : (req.refUpdates.map HookRefUpdate.stdinLine).map (classifyLine mergeBase) =
      req.refUpdates.map HookRefUpdate.hmacLine := by
    rw [List.map_map]
    apply List.map_congr_left
    intro r hr
    rw [Function.comp_apply, HookRefUpdate.classifyLine_stdinLine (hreadable r hr), ← hancestor r hr]
  rw [hookInput, hlines]
  exact hmacInput_eq hookUrl hookSecret hnames hreadable

/-! ## What the checks leave -/

/-- A text as `Uuid::parse_str` takes it: digits and hyphens, alone, in braces or as a URN. -/
def IsUuidText (s : Text) : Prop :=
  ∃ digits : Text, (∀ c ∈ digits, isAsciiHexdigit c = true ∨ c = '-') ∧
    (s = digits ∨ s = '{' :: digits ++ ['}'] ∨ s = "urn:uuid:".toList ++ digits)

/-- The fields of a checked request that the bytes do not count or end otherwise. -/
structure HookCallbackRequest.Checked (req : HookCallbackRequest) : Prop where
  repoOwner : isPubkeyHex req.repoOwner = true
  pusherPubkey : isPubkeyHex req.pusherPubkey = true
  communityId : IsUuidText req.communityId
  oids : ∀ r ∈ req.refUpdates, isHookOid r.oldOid = true ∧ isHookOid r.newOid = true

theorem checkUpdates_ok {updates : List HookRefUpdate} (h : checkUpdates updates = .ok ()) :
    ∀ r ∈ updates, isHookOid r.oldOid = true ∧ isHookOid r.newOid = true := by
  induction updates with
  | nil => simp
  | cons r rest ih =>
      rw [checkUpdates] at h
      split at h
      · cases h
      · split at h
        · cases h
        · split at h
          · cases h
          · rename_i hold hnew _
            intro u hu
            rcases List.mem_cons.1 hu with rfl | hrest
            · exact ⟨by simpa using hold, by simpa using hnew⟩
            · exact ih h u hrest

theorem checked_of_checkRequest {U : Type} {parseUuid : Text → Option U} {community : U}
    {req : HookCallbackRequest}
    (hforms : ∀ s c, parseUuid s = some c → IsUuidText s)
    (h : checkRequest parseUuid req = .ok community) : req.Checked := by
  rw [checkRequest] at h
  split at h
  · cases h
  · split at h
    · cases h
    · split at h
      · cases h
      · rename_i _ howner hpusher
        cases huuid : parseUuid req.communityId with
        | none =>
            rw [huuid] at h
            cases h
        | some c =>
            simp only [huuid] at h
            split at h
            · cases h
            · cases hupdates : checkUpdates req.refUpdates with
              | error e =>
                  rw [hupdates] at h
                  cases h
              | ok u =>
                  exact ⟨by simpa using howner, by simpa using hpusher, hforms _ _ huuid,
                    checkUpdates_ok hupdates⟩

theorem IsUuidText.forall_mem {s : Text} (h : IsUuidText s) (p : Char → Prop)
    (hhex : ∀ c, isAsciiHexdigit c = true → p c)
    (hform : ∀ c ∈ "-\x7b\x7durn:uuid:".toList, p c) : ∀ c ∈ s, p c := by
  obtain ⟨digits, hdigits, hs⟩ := h
  simp only [String.reduceToList, List.forall_mem_cons] at hform
  have hall : ∀ c ∈ digits, p c := by
    intro c hc
    rcases hdigits c hc with hc | rfl
    · exact hhex c hc
    · exact hform.1
  rcases hs with rfl | rfl | rfl
  · exact hall
  · exact List.forall_mem_cons.2 ⟨hform.2.1, List.forall_mem_append.2
      ⟨hall, List.forall_mem_singleton.2 hform.2.2.1⟩⟩
  · refine List.forall_mem_append.2 ⟨?_, hall⟩
    simpa only [String.reduceToList, List.forall_mem_cons] using hform.2.2.2

theorem IsUuidText.bar_not_mem {s : Text} (h : IsUuidText s) : 124 ∉ encode s := by
  intro hmem
  have hbar : '|' ∈ s := mem_of_mem_encode (by decide) (by decide) hmem
  refine h.forall_mem (· ≠ '|') ?_ (by simp) '|' hbar rfl
  rintro c hc rfl
  exact absurd hc (by decide)

theorem pubkey_prefixFree : PrefixFreeOn encode { s | isPubkeyHex s = true } := by
  apply prefixFreeOn_of_length encode_injective.injOn
  intro s hs
  have hlen : byteLen s = 64 := of_decide_eq_true (Bool.and_eq_true_iff.1 hs).1
  exact (length_encode s).trans hlen

theorem oid_prefixFree : PrefixFreeOn encode { s | isHookOid s = true } := by
  apply prefixFreeOn_of_length encode_injective.injOn
  intro s hs
  have hlen : byteLen s = 40 := of_decide_eq_true (Bool.and_eq_true_iff.1 hs).1
  exact (length_encode s).trans hlen

theorem uuid_prefixFree : PrefixFreeOn (fun s => encode s ++ [124]) { s | IsUuidText s } :=
  prefixFreeOn_of_terminated encode_injective.injOn fun _ hs => hs.bar_not_mem

/-- Updates with object ids of the checked length. -/
def checkedUpdates : Set HookRefUpdate :=
  { r | isHookOid r.oldOid = true ∧ isHookOid r.newOid = true }

theorem payload_prefixFree : PrefixFreeOn HookRefUpdate.payload checkedUpdates := by
  intro a ha b hb x y heq
  simp only [HookRefUpdate.payload, List.append_assoc] at heq
  obtain ⟨hold, heq⟩ := oid_prefixFree ha.1 hb.1 heq
  obtain ⟨hnew, heq⟩ := oid_prefixFree ha.2 hb.2 heq
  obtain ⟨hname, heq⟩ := countedText_prefixFree (Set.mem_univ _) (Set.mem_univ _) heq
  obtain ⟨hflag, hrest⟩ := List.cons.inj heq
  have hancestor : a.isAncestor = b.isAncestor := by
    revert hflag
    cases a.isAncestor <;> cases b.isAncestor <;> decide
  refine ⟨?_, hrest⟩
  cases a
  cases b
  simp only [HookRefUpdate.mk.injEq]
  exact ⟨hold, hnew, hname, hancestor⟩

theorem payload_head {r : HookRefUpdate} (hr : r ∈ checkedUpdates) :
    ∃ c rest, r.payload = c :: rest ∧ c ≠ 124 := by
  have hoid := Bool.and_eq_true_iff.1 hr.1
  have hlen : (encode r.oldOid).length = 40 :=
    (length_encode r.oldOid).trans (of_decide_eq_true hoid.1)
  cases hbytes : encode r.oldOid with
  | nil => simp [hbytes] at hlen
  | cons c rest =>
      refine ⟨c, rest ++ (encode r.newOid ++ (countedText r.refName ++
        [if r.isAncestor then 49 else 48])), ?_, ?_⟩
      · simp only [HookRefUpdate.payload, hbytes, List.append_assoc, List.cons_append]
      · rintro rfl
        have hbar : '|' ∈ r.oldOid :=
          mem_of_mem_encode (b := 124) (by decide) (by decide) (hbytes ▸ List.mem_cons_self)
        exact absurd (List.all_eq_true.1 hoid.2 '|' hbar) (by decide)

/-- Two requests describe one push. -/
structure HookCallbackRequest.SamePush (r r' : HookCallbackRequest) : Prop where
  repoId : r.repoId = r'.repoId
  repoOwner : r.repoOwner = r'.repoOwner
  communityId : r.communityId = r'.communityId
  pusherPubkey : r.pusherPubkey = r'.pusherPubkey
  refUpdates : r.refUpdates.Perm r'.refUpdates
  timestamp : r.timestamp = r'.timestamp

theorem samePush_of_canonicalPayload {r r' : HookCallbackRequest} (hr : r.Checked)
    (hr' : r'.Checked) (h : canonicalPayload r = canonicalPayload r') : r.SamePush r' := by
  have hsorted : ∀ {q : HookCallbackRequest}, q.Checked →
      sortByBytes (fun u => encode u.refName) q.refUpdates ∈
        { l : List HookRefUpdate | ∀ u ∈ l, u ∈ checkedUpdates } :=
    fun hq u hu => hq.oids u ((sortByBytes_perm _ _).mem_iff.1 hu)
  simp only [canonicalPayload, List.append_assoc] at h
  obtain ⟨hid, h⟩ := countedText_prefixFree (Set.mem_univ _) (Set.mem_univ _) h
  obtain ⟨howner, h⟩ := pubkey_prefixFree hr.repoOwner hr'.repoOwner (List.append_cancel_left h)
  have hcommunity := uuid_prefixFree hr.communityId hr'.communityId
    (by simpa only [List.append_assoc] using List.append_cancel_left h)
  obtain ⟨hpusher, h⟩ := pubkey_prefixFree hr.pusherPubkey hr'.pusherPubkey hcommunity.2
  have hrefs := (payload_prefixFree.many fun u hu => payload_head hu) (hsorted hr) (hsorted hr')
    (by simpa only [List.append_assoc] using List.append_cancel_left h)
  have hperm : r.refUpdates.Perm r'.refUpdates :=
    (sortByBytes_perm _ r.refUpdates).symm.trans (hrefs.1 ▸ sortByBytes_perm _ r'.refUpdates)
  exact ⟨hid, howner, hcommunity.1, hpusher, hperm,
    UInt64.toNat_inj.1 (decimal_injective (encode_injective hrefs.2))⟩

theorem hmac_of_verifyHmac {hmac : Hmac} {secret : Bytes} {req : HookCallbackRequest}
    (h : verifyHmac hmac secret req = true) :
    hexDecode req.signature = some (hmac secret (canonicalPayload req)) := by
  rw [verifyHmac] at h
  cases hdecode : hexDecode req.signature with
  | none => simp [hdecode] at h
  | some provided =>
      rw [hdecode] at h
      exact congrArg some (of_decide_eq_true h).symm

/-- Two checked requests that verify with one signature describe one push, or their bytes have one
tag. -/
theorem samePush_or_collision {r r' : HookCallbackRequest} {hmac : Hmac} {secret : Bytes}
    (hr : r.Checked) (hr' : r'.Checked) (hsignature : r.signature = r'.signature)
    (hv : verifyHmac hmac secret r = true) (hv' : verifyHmac hmac secret r' = true) :
    r.SamePush r' ∨ canonicalPayload r ≠ canonicalPayload r' ∧
      hmac secret (canonicalPayload r) = hmac secret (canonicalPayload r') := by
  by_cases heq : canonicalPayload r = canonicalPayload r'
  · exact Or.inl (samePush_of_canonicalPayload hr hr' heq)
  · have htags : some (hmac secret (canonicalPayload r)) =
        some (hmac secret (canonicalPayload r')) :=
      calc
        some (hmac secret (canonicalPayload r)) = hexDecode r.signature :=
          (hmac_of_verifyHmac hv).symm
        _ = hexDecode r'.signature := by rw [hsignature]
        _ = some (hmac secret (canonicalPayload r')) := hmac_of_verifyHmac hv'
    exact Or.inr ⟨heq, Option.some.inj htags⟩

/-- For every request whose updates have distinct names and fields without blanks and backslashes,
the script builds the bytes of the endpoint, or exits because a variable is empty.  Two requests
that pass the structural checks with the same bytes describe one push, so that a signature that
verifies for two pushes is a collision of the MAC. -/
theorem canonical_payload_agrees {U : Type} (parseUuid : Text → Option U)
    (hforms : ∀ s c, parseUuid s = some c → IsUuidText s) :
    (∀ (req : HookCallbackRequest) (hookUrl hookSecret : Bytes),
      (req.refUpdates.map HookRefUpdate.refName).Nodup → (∀ r ∈ req.refUpdates, r.Readable) →
      hmacInput (req.env hookUrl hookSecret) (req.refUpdates.map HookRefUpdate.hmacLine)
          req.timestamp =
        if [] ∈ (req.env hookUrl hookSecret).required then none
        else some (canonicalPayload req)) ∧
    ∀ (r r' : HookCallbackRequest) (c c' : U),
      checkRequest parseUuid r = .ok c → checkRequest parseUuid r' = .ok c' →
      (canonicalPayload r = canonicalPayload r' → r.SamePush r') ∧
      ∀ (hmac : Hmac) (secret : Bytes), r.signature = r'.signature →
        verifyHmac hmac secret r = true → verifyHmac hmac secret r' = true →
        r.SamePush r' ∨ canonicalPayload r ≠ canonicalPayload r' ∧
          hmac secret (canonicalPayload r) = hmac secret (canonicalPayload r') := by
  refine ⟨fun req hookUrl hookSecret => hmacInput_eq hookUrl hookSecret, ?_⟩
  intro r r' c c' hr hr'
  have hchecked := checked_of_checkRequest hforms hr
  have hchecked' := checked_of_checkRequest hforms hr'
  exact ⟨samePush_of_canonicalPayload hchecked hchecked',
    fun hmac secret => samePush_or_collision hchecked hchecked'⟩

/-- The hyphenated form of `Uuid::parse_str`, the one the relay sends. -/
def parseHyphenated (s : Text) : Option Text :=
  if (s.all fun c => isAsciiHexdigit c || c = '-') &&
      (fields '-' s).map List.length = [8, 4, 4, 4, 12] then
    some (s.filter fun c => c ≠ '-')
  else none

theorem isUuidText_of_parseHyphenated (s c : Text) (h : parseHyphenated s = some c) :
    IsUuidText s := by
  rw [parseHyphenated] at h
  split at h
  · rename_i hs
    refine ⟨s, fun d hd => ?_, Or.inl rfl⟩
    simpa using List.all_eq_true.1 (Bool.and_eq_true_iff.1 hs).1 d hd
  · cases h

/-- A branch, and one whose name goes on. -/
def prefixUpdates : List HookRefUpdate :=
  [⟨List.replicate 40 'b', List.replicate 40 'c', "refs/heads/a".toList, true⟩,
    ⟨List.replicate 40 'a', List.replicate 40 'd', "refs/heads/a!|".toList, false⟩]

theorem readable_prefixUpdates : ∀ r ∈ prefixUpdates, r.Readable := by
  intro r hr
  rcases List.mem_cons.1 hr with rfl | hr
  · exact ⟨by decide +kernel, by decide +kernel, by decide +kernel⟩
  · rw [List.mem_singleton.1 hr]
    exact ⟨by decide +kernel, by decide +kernel, by decide +kernel⟩

def pushOf (refUpdates : List HookRefUpdate) : HookCallbackRequest where
  repoId := "my|project".toList
  repoOwner := List.replicate 64 'a'
  communityId := "00000000-0000-0000-0000-000000000001".toList
  pusherPubkey := List.replicate 64 'c'
  refUpdates := refUpdates
  timestamp := 1700000000
  signature := []

/-- The script signs the longer name after the shorter one in whichever order git lists them, and
the two orders are one push. -/
theorem canonical_payload_agrees_prefix :
    (hmacInput ((pushOf prefixUpdates.reverse).env [104] [107])
        (prefixUpdates.reverse.map HookRefUpdate.hmacLine) 1700000000 =
      some (canonicalPayload (pushOf prefixUpdates.reverse))) ∧
    (pushOf prefixUpdates.reverse).SamePush (pushOf prefixUpdates) := by
  have hagrees := canonical_payload_agrees parseHyphenated isUuidText_of_parseHyphenated
  have hnames : (prefixUpdates.reverse.map HookRefUpdate.refName).Nodup := by decide +kernel
  constructor
  · have hwords : ∀ r ∈ prefixUpdates.reverse, r.Readable :=
      fun r hr => readable_prefixUpdates r (List.mem_reverse.1 hr)
    have hbytes := hagrees.1 (pushOf prefixUpdates.reverse) [104] [107] hnames hwords
    rw [if_neg (by decide)] at hbytes
    exact hbytes
  · have hone : ∀ updates, updates = prefixUpdates ∨ updates = prefixUpdates.reverse →
        checkRequest parseHyphenated (pushOf updates) = .ok (List.replicate 31 '0' ++ ['1']) := by
      rintro updates (rfl | rfl) <;> rfl
    have hpayload : canonicalPayload (pushOf prefixUpdates.reverse) =
        canonicalPayload (pushOf prefixUpdates) :=
      @canonicalPayload_congr (pushOf prefixUpdates.reverse) _ (List.reverse_perm _) hnames
    exact (hagrees.2 (pushOf prefixUpdates.reverse) (pushOf prefixUpdates) _ _
      (hone _ (Or.inr rfl)) (hone _ (Or.inl rfl))).1 hpayload

end Git
end Relay
end Maju
