import Maju.Relay.Git.Hook

/-!
# Callback — from git's lines to the verdict on the signature

The hook script writes the JSON text of its request by hand and escapes names with `sed`.

* `hookBody` — what the script posts;
* `receiveCallback`, `authenticateCallback` — what the endpoint reads, and the checks it makes
  before it looks at the repository;
* `callback_authenticated` — what the script has signed passes while it is fresh, and no other push
  passes with its signature, short of a collision of the MAC.
-/

namespace Maju
namespace Relay
namespace Git

open Lib

/-! ## The body -/

/-- `hex::encode`, and what `openssl dgst -hex` prints of a tag. -/
def hexEncode (bytes : Bytes) : Text := bytes.flatMap fun b => hexDigits 2 b.toNat

/-- A byte under `sed 's/\\/\\\\/g; s/"/\\"/g'`. -/
def sedByte (b : UInt8) : Bytes :=
  if b = 92 then [92, 92] else if b = 34 then [92, 34] else [b]

/-- `SAFE_REF` and `SAFE_REPO_ID`: the output of `sed`, captured. -/
def sedEscape (text : Bytes) : Bytes := Shell.capture (text.flatMap sedByte)

def refEntry (oldOid newOid refName : Bytes) (isAncestor : Bool) : Bytes :=
  encode "\x7b\"old_oid\":\"".toList ++ oldOid ++ encode "\",\"new_oid\":\"".toList ++ newOid ++
    encode "\",\"ref_name\":\"".toList ++ sedEscape refName ++
    encode "\",\"is_ancestor\":".toList ++
    encode (if isAncestor then "true".toList else "false".toList) ++ encode "\x7d".toList

/-- A turn of the first loop, as `classifyLine`, and the entry that it adds to `REFS`. -/
def classifyEntry (mergeBase : Bytes → Bytes → Bool) (line : Bytes) : Bytes :=
  match Shell.readFields true Shell.defaultIfs 3 line with
  | [oldOid, newOid, refName] =>
      refEntry oldOid newOid refName
        (oldOid != zeroOid && newOid != zeroOid && mergeBase oldOid newOid)
  | _ => []

/-- `REFS` with another entry, after a comma unless it is the first. -/
def addRef (refs entry : Bytes) : Bytes := (if refs = [] then [] else refs ++ [44]) ++ entry

/-- `BODY`, with `SAFE_REPO_ID` in it. -/
def jsonBody (env : HookEnv) (refs : Bytes) (timestamp : UInt64) (signature : Bytes) : Bytes :=
  encode "\x7b\"repo_id\":\"".toList ++ sedEscape env.repoId ++
    encode "\",\"repo_owner\":\"".toList ++ env.repoOwner ++
    encode "\",\"community_id\":\"".toList ++ env.communityId ++
    encode "\",\"pusher_pubkey\":\"".toList ++ env.pusherPubkey ++
    encode "\",\"ref_updates\":[".toList ++ refs ++
    encode "],\"timestamp\":".toList ++ encode (decimal timestamp.toNat) ++
    encode ",\"signature\":\"".toList ++ signature ++ encode "\"\x7d".toList

/-- What is posted, or nothing where the script exits before it posts. -/
def hookBody (env : HookEnv) (mergeBase : Bytes → Bytes → Bool) (hmac : Hmac)
    (stdin : List Bytes) (timestamp : UInt64) : Option Bytes := do
  let input ← hookInput env mergeBase stdin timestamp
  let signature := encode (hexEncode (hmac env.hookSecret input))
  if signature = [] then none
  else
    some (jsonBody env ((stdin.map (classifyEntry mergeBase)).foldl addRef []) timestamp signature)

/-! ## The endpoint -/

/-- A `u64` field. -/
def readU64 : Json → Option UInt64
  | .num token => ((parseDigits token).filter (· < 2 ^ 64)).map UInt64.ofNat
  | _ => none

/-- A `bool` field. -/
def readBool : Json → Option Bool
  | .bool b => some b
  | _ => none

open Manifest (field readString)

/-- The derived `Deserialize` of a struct: an object with these fields, or the fields in order. -/
def structFields (names : List String) : Json → Option (List Json)
  | .obj members => names.mapM (field members)
  | .arr items => if items.length = names.length then some items else none
  | _ => none

def HookRefUpdate.ofJson (value : Json) : Option HookRefUpdate := do
  match ← structFields ["old_oid", "new_oid", "ref_name", "is_ancestor"] value with
  | [oldOid, newOid, refName, isAncestor] =>
      some ⟨← readString oldOid, ← readString newOid, ← readString refName, ← readBool isAncestor⟩
  | _ => none

/-- A `Vec<HookRefUpdate>` field. -/
def readUpdates : Json → Option (List HookRefUpdate)
  | .arr items => items.mapM HookRefUpdate.ofJson
  | _ => none

def HookCallbackRequest.ofJson (value : Json) : Option HookCallbackRequest := do
  match ← structFields ["repo_id", "repo_owner", "community_id", "pusher_pubkey", "ref_updates",
      "timestamp", "signature"] value with
  | [repoId, repoOwner, communityId, pusherPubkey, refUpdates, timestamp, signature] =>
      some ⟨← readString repoId, ← readString repoOwner, ← readString communityId,
        ← readString pusherPubkey, ← readUpdates refUpdates, ← readU64 timestamp,
        ← readString signature⟩
  | _ => none

/-- `Json<HookCallbackRequest>` on the bytes of a body. -/
def receiveCallback (body : Bytes) : Option HookCallbackRequest := do
  let text ← decodeUtf8 body
  let value ← Json.decode text
  HookCallbackRequest.ofJson value

def maxCallbackAgeSecs : Nat := 30

/-- Steps 1 to 3 of `hook_policy_check`; `now` is the clock of the endpoint. -/
def authenticateCallback {U : Type} (parseUuid : Text → Option U) (hmac : Hmac) (secret : Bytes)
    (now : UInt64) (req : HookCallbackRequest) : Except String U := do
  let community ← checkRequest parseUuid req
  if !verifyHmac hmac secret req then .error "signature verification failed"
  else if maxCallbackAgeSecs < now.toNat - req.timestamp.toNat then .error "callback expired"
  else if 5 < req.timestamp.toNat - now.toNat then .error "callback timestamp invalid"
  else return community

/-! ## Escapes -/

theorem hexDecode_hexEncode (bytes : Bytes) : hexDecode (hexEncode bytes) = some bytes := by
  induction bytes with
  | nil => rfl
  | cons b bytes ih =>
      have hb : b.toNat < 256 := b.toNat_lt
      have hdigits : hexEncode (b :: bytes) =
          hexDigit (b.toNat / 16) :: hexDigit (b.toNat % 16) :: hexEncode bytes := by
        have hmod : b.toNat / 16 % 16 = b.toNat / 16 := Nat.mod_eq_of_lt (by omega)
        simp [hexEncode, hexDigits, hmod]
      have hvalue : UInt8.ofNat (b.toNat / 16 * 16 + b.toNat % 16) = b := by
        rw [Nat.div_add_mod' b.toNat 16, UInt8.ofNat_toNat]
      rw [hdigits, hexDecode, hexValue_hexDigit _ (by omega), hexValue_hexDigit _ (by omega), ih]
      exact congrArg (fun d => some (d :: bytes)) hvalue

theorem escapeChar_of_isAsciiHexdigit {c : Char} (h : isAsciiHexdigit c = true) :
    Json.escapeChar c = [c] :=
  Json.escapeChar_of_forall (by decide) (by decide) (by decide) h

theorem escapeChar_of_isUuidText {s : Text} (h : IsUuidText s) :
    ∀ c ∈ s, Json.escapeChar c = [c] :=
  h.forall_mem _ (fun _ hc => escapeChar_of_isAsciiHexdigit hc) (by simp [Json.escapeChar])

theorem escapeChar_of_hexEncode (bytes : Bytes) :
    ∀ c ∈ hexEncode bytes, Json.escapeChar c = [c] := by
  intro c hc
  obtain ⟨b, -, hb⟩ := List.mem_flatMap.1 hc
  exact escapeChar_of_isAsciiHexdigit
    (List.all_eq_true.1 (all_hexDigits (p := isAsciiHexdigit) (by decide) 2 b.toNat) c hb)

theorem escapeChar_cases {c : Char} (h : 32 ≤ c.toNat) :
    c = '"' ∨ c = '\\' ∨ c ≠ '"' ∧ c ≠ '\\' ∧ Json.escapeChar c = [c] := by
  by_cases hquote : c = '"'
  · exact Or.inl hquote
  · by_cases hback : c = '\\'
    · exact Or.inr (Or.inl hback)
    · exact Or.inr (Or.inr ⟨hquote, hback, Json.escapeChar_eq_self hquote hback h⟩)

theorem sedByte_utf8EncodeChar {c : Char} (h : 32 ≤ c.toNat) :
    (String.utf8EncodeChar c).flatMap sedByte = encode (Json.escapeChar c) := by
  rcases escapeChar_cases h with rfl | rfl | ⟨hquote, hback, hself⟩
  · decide
  · decide
  · have hbytes : encode [c] = String.utf8EncodeChar c := by simp [encode]
    have hplain : ∀ b ∈ String.utf8EncodeChar c, sedByte b = [b] := by
      intro b hb
      rw [← hbytes] at hb
      have h92 : b ≠ 92 := by
        rintro rfl
        exact hback (List.mem_singleton.1
          (mem_of_mem_encode (c := '\\') (by decide) (by decide) hb)).symm
      have h34 : b ≠ 34 := by
        rintro rfl
        exact hquote (List.mem_singleton.1
          (mem_of_mem_encode (c := '"') (by decide) (by decide) hb)).symm
      rw [sedByte, if_neg h92, if_neg h34]
    rw [hself, hbytes, List.flatMap_congr hplain]
    simp

theorem newline_not_mem_escapeChar {c : Char} (h : 32 ≤ c.toNat) : '\n' ∉ Json.escapeChar c := by
  rcases escapeChar_cases h with rfl | rfl | ⟨-, -, hself⟩
  · decide
  · decide
  · rw [hself]
    intro hmem
    rw [← List.mem_singleton.1 hmem] at h
    exact absurd h (by decide)

theorem sedEscape_encode {s : Text} (h : ∀ c ∈ s, 32 ≤ c.toNat) :
    sedEscape (encode s) = encode (s.flatMap Json.escapeChar) := by
  have hbytes : (encode s).flatMap sedByte = encode (s.flatMap Json.escapeChar) :=
    calc
      (encode s).flatMap sedByte =
          s.flatMap fun c => (String.utf8EncodeChar c).flatMap sedByte := List.flatMap_assoc
      _ = s.flatMap fun c => encode (Json.escapeChar c) :=
          List.flatMap_congr fun c hc => sedByte_utf8EncodeChar (h c hc)
      _ = encode (s.flatMap Json.escapeChar) := List.flatMap_assoc.symm
  have hline : 10 ∉ encode (s.flatMap Json.escapeChar) := by
    intro hmem
    obtain ⟨c, hc, hnewline⟩ :=
      List.mem_flatMap.1 (mem_of_mem_encode (c := '\n') (by decide) (by decide) hmem)
    exact newline_not_mem_escapeChar (h c hc) hnewline
  rw [sedEscape, hbytes, Shell.capture_eq_self hline]

theorem quote_eq_flatMap (s : Text) :
    Json.quote s = '"' :: (s.flatMap Json.escapeChar ++ ['"']) := by
  have htail : Json.quoteTail s = s.flatMap Json.escapeChar ++ ['"'] := by
    induction s with
    | nil => rfl
    | cons c s ih => rw [Json.quoteTail, ih, List.flatMap_cons, List.append_assoc]
  rw [Json.quote, htail]

/-! ## What is written can be read -/

theorem le_toNat_of_isWord {text : Text} (h : IsWord text) : ∀ c ∈ text, 32 ≤ c.toNat := by
  intro c hc
  by_contra hlow
  have hcontrol : ∀ n < 32, String.utf8EncodeChar (Char.ofNat n) = [UInt8.ofNat n] ∧
      UInt8.ofNat n ≤ 32 := by
    decide
  have hbyte := hcontrol c.toNat (Nat.lt_of_not_le hlow)
  rw [Char.ofNat_toNat] at hbyte
  have hmem : UInt8.ofNat c.toNat ∈ encode text :=
    List.mem_flatMap.2 ⟨c, hc, hbyte.1 ▸ List.mem_singleton_self _⟩
  exact absurd (h.2 _ hmem).1 (UInt8.not_lt.2 hbyte.2)

def HookRefUpdate.toJson (r : HookRefUpdate) : Json :=
  .obj [("old_oid".toList, .str r.oldOid), ("new_oid".toList, .str r.newOid),
    ("ref_name".toList, .str r.refName), ("is_ancestor".toList, .bool r.isAncestor)]

def HookCallbackRequest.toJson (req : HookCallbackRequest) : Json :=
  .obj [("repo_id".toList, .str req.repoId), ("repo_owner".toList, .str req.repoOwner),
    ("community_id".toList, .str req.communityId),
    ("pusher_pubkey".toList, .str req.pusherPubkey),
    ("ref_updates".toList, .arr (req.refUpdates.map HookRefUpdate.toJson)),
    ("timestamp".toList, .num (decimal req.timestamp.toNat)),
    ("signature".toList, .str req.signature)]

theorem HookRefUpdate.ofJson_toJson (r : HookRefUpdate) : ofJson r.toJson = some r := rfl

theorem readUpdates_toJson (updates : List HookRefUpdate) :
    readUpdates (.arr (updates.map HookRefUpdate.toJson)) = some updates := by
  rw [readUpdates]
  induction updates with
  | nil => rfl
  | cons r updates ih => simp [HookRefUpdate.ofJson_toJson, ih]

theorem readU64_decimal (t : UInt64) : readU64 (.num (decimal t.toNat)) = some t := by
  have hfilter : (some t.toNat).filter (· < 2 ^ 64) = some t.toNat :=
    Option.filter_some_pos (decide_eq_true t.toNat_lt)
  rw [readU64, parseDigits_decimal, hfilter, Option.map_some, UInt64.ofNat_toNat]

namespace HookCallbackRequest

theorem ofJson_toJson (req : HookCallbackRequest) : ofJson req.toJson = some req := by
  change ((readUpdates (.arr (req.refUpdates.map HookRefUpdate.toJson))).bind fun refUpdates =>
    (readU64 (.num (decimal req.timestamp.toNat))).bind fun timestamp =>
      some (⟨req.repoId, req.repoOwner, req.communityId, req.pusherPubkey, refUpdates, timestamp,
        req.signature⟩ : HookCallbackRequest)) = some req
  rw [readUpdates_toJson, readU64_decimal]
  rfl

theorem valid_toJson (req : HookCallbackRequest) : req.toJson.Valid := by
  have hitems : ∀ updates : List HookRefUpdate,
      Json.ValidItems (updates.map HookRefUpdate.toJson) := by
    intro updates
    induction updates with
    | nil => trivial
    | cons r updates ih => exact ⟨⟨trivial, trivial, trivial, trivial, trivial⟩, ih⟩
  exact ⟨trivial, trivial, trivial, trivial, hitems _,
    ⟨Json.isNumber_decimal _, fun c hc => Json.isNumChar_of_mem_decimal hc⟩, trivial, trivial⟩

theorem receiveCallback_print (req : HookCallbackRequest) :
    receiveCallback (encode req.toJson.print) = some req := by
  rw [receiveCallback, decodeUtf8_encode, Option.bind_eq_bind, Option.bind_some,
    Json.decode_print req.valid_toJson]
  exact req.ofJson_toJson

end HookCallbackRequest

/-! ## What the script writes -/

/-- What an update must be for its entry to be JSON: the ids stand in it as they are. -/
structure HookRefUpdate.Printable (r : HookRefUpdate) : Prop where
  oldOid : ∀ c ∈ r.oldOid, Json.escapeChar c = [c]
  newOid : ∀ c ∈ r.newOid, Json.escapeChar c = [c]
  refName : ∀ c ∈ r.refName, 32 ≤ c.toNat

/-- What a request must be for its body to be JSON. -/
structure HookCallbackRequest.Printable (req : HookCallbackRequest) : Prop where
  repoId : ∀ c ∈ req.repoId, 32 ≤ c.toNat
  repoOwner : ∀ c ∈ req.repoOwner, Json.escapeChar c = [c]
  communityId : ∀ c ∈ req.communityId, Json.escapeChar c = [c]
  pusherPubkey : ∀ c ∈ req.pusherPubkey, Json.escapeChar c = [c]
  refUpdates : ∀ r ∈ req.refUpdates, r.Printable
  signature : ∀ c ∈ req.signature, Json.escapeChar c = [c]

theorem HookRefUpdate.refEntry_eq {r : HookRefUpdate} (h : r.Printable) :
    refEntry (encode r.oldOid) (encode r.newOid) (encode r.refName) r.isAncestor =
      encode r.toJson.print := by
  rw [refEntry, sedEscape_encode h.refName]
  simp only [← encode_append]
  apply congrArg encode
  rw [toJson, Json.print, Json.print, Json.printMembers, Json.print, Json.printMembers, Json.print,
    Json.printMembers, Json.quote_eq h.oldOid, Json.quote_eq h.newOid, quote_eq_flatMap r.refName]
  cases r.isAncestor <;>
    simp [Json.print, Json.printMembers, Json.quote, Json.quoteTail, Json.escapeChar]

theorem foldl_addRef (vs : List Json) {refs : Bytes} (h : refs ≠ []) :
    ∃ text, (vs.map fun v => encode v.print).foldl addRef refs = refs ++ encode text ∧
      Json.printItems vs = text ++ [']'] := by
  induction vs generalizing refs with
  | nil => exact ⟨[], by simp [encode], rfl⟩
  | cons v vs ih =>
      have hadd : addRef refs (encode v.print) = refs ++ encode (',' :: v.print) := by
        rw [addRef, if_neg h, List.append_assoc]
        rfl
      have hne : addRef refs (encode v.print) ≠ [] := by simp [hadd, h]
      obtain ⟨text, hfold, hprint⟩ := ih hne
      refine ⟨',' :: (v.print ++ text), ?_, ?_⟩
      · rw [List.map_cons, List.foldl_cons, hfold, hadd, ← List.cons_append, encode_append,
          List.append_assoc]
      · rw [Json.printItems, hprint, List.cons_append, List.append_assoc]

theorem foldl_addRef_nil (updates : List HookRefUpdate) :
    ∃ text, (updates.map fun r => encode r.toJson.print).foldl addRef [] = encode text ∧
      Json.print (.arr (updates.map HookRefUpdate.toJson)) = '[' :: (text ++ [']']) := by
  cases updates with
  | nil => exact ⟨[], rfl, rfl⟩
  | cons r updates =>
      have hne : encode r.toJson.print ≠ [] := by
        rw [HookRefUpdate.toJson, Json.print, encode_cons]
        exact List.append_ne_nil_of_left_ne_nil (by decide) _
      obtain ⟨text, hfold, hprint⟩ := foldl_addRef (updates.map HookRefUpdate.toJson) hne
      rw [List.map_map] at hfold
      refine ⟨r.toJson.print ++ text, ?_, ?_⟩
      · rw [List.map_cons, List.foldl_cons, encode_append]
        exact hfold
      · rw [List.map_cons, Json.print, hprint, List.append_assoc]

theorem jsonBody_eq {req : HookCallbackRequest} (hookUrl hookSecret : Bytes) (h : req.Printable) :
    jsonBody (req.env hookUrl hookSecret)
        ((req.refUpdates.map fun r => encode r.toJson.print).foldl addRef []) req.timestamp
        (encode req.signature) =
      encode req.toJson.print := by
  obtain ⟨text, hrefs, hprint⟩ := foldl_addRef_nil req.refUpdates
  rw [jsonBody, hrefs]
  simp only [HookCallbackRequest.env, sedEscape_encode h.repoId, ← encode_append]
  apply congrArg encode
  rw [HookCallbackRequest.toJson, Json.print, Json.print, Json.printMembers, Json.print,
    Json.printMembers, Json.print, Json.printMembers, Json.print, Json.printMembers, hprint,
    Json.printMembers, Json.print, Json.printMembers, Json.print,
    quote_eq_flatMap req.repoId, Json.quote_eq h.repoOwner, Json.quote_eq h.communityId,
    Json.quote_eq h.pusherPubkey, Json.quote_eq h.signature]
  simp [Json.printMembers, Json.quote, Json.quoteTail, Json.escapeChar]

/-! ## The verdict -/

/-- A push as git hands it to the script, for a repository whose name has no control characters:
`validate_repo_id` lets none through. -/
structure HookCallbackRequest.Pushed (mergeBase : Bytes → Bytes → Bool)
    (req : HookCallbackRequest) : Prop where
  names : (req.refUpdates.map HookRefUpdate.refName).Nodup
  readable : ∀ r ∈ req.refUpdates, r.Readable
  isAncestor : ∀ r ∈ req.refUpdates, r.isAncestor = (encode r.oldOid != zeroOid &&
    encode r.newOid != zeroOid && mergeBase (encode r.oldOid) (encode r.newOid))
  repoId : ∀ c ∈ req.repoId, 32 ≤ c.toNat

/-- The request with the tag of its bytes. -/
def HookCallbackRequest.signed (hmac : Hmac) (secret : Bytes) (req : HookCallbackRequest) :
    HookCallbackRequest :=
  { req with signature := hexEncode (hmac secret (canonicalPayload req)) }

theorem HookRefUpdate.classifyEntry_stdinLine {r : HookRefUpdate} (h : r.Readable)
    (hprint : r.Printable) {mergeBase : Bytes → Bytes → Bool}
    (hancestor : r.isAncestor = (encode r.oldOid != zeroOid && encode r.newOid != zeroOid &&
      mergeBase (encode r.oldOid) (encode r.newOid))) :
    classifyEntry mergeBase r.stdinLine = encode r.toJson.print := by
  rw [classifyEntry, readFields_stdinLine h, ← refEntry_eq hprint, hancestor]

theorem verifyHmac_signed (hmac : Hmac) (secret : Bytes) (req : HookCallbackRequest) :
    verifyHmac hmac secret (req.signed hmac secret) = true := by
  rw [verifyHmac, HookCallbackRequest.signed, hexDecode_hexEncode]
  exact decide_eq_true rfl

section

variable {U : Type} {parseUuid : Text → Option U} {community : U} {req : HookCallbackRequest}
variable {mergeBase : Bytes → Bytes → Bool} {hmac : Hmac} {hookUrl secret : Bytes}

theorem authenticateCallback_iff {now : UInt64} :
    authenticateCallback parseUuid hmac secret now req = .ok community ↔
      checkRequest parseUuid req = .ok community ∧ verifyHmac hmac secret req = true ∧
        now.toNat ≤ req.timestamp.toNat + maxCallbackAgeSecs ∧
        req.timestamp.toNat ≤ now.toNat + 5 := by
  have hold : maxCallbackAgeSecs < now.toNat - req.timestamp.toNat ↔
      ¬ now.toNat ≤ req.timestamp.toNat + maxCallbackAgeSecs := by omega
  have hearly : 5 < req.timestamp.toNat - now.toNat ↔
      ¬ req.timestamp.toNat ≤ now.toNat + 5 := by omega
  rw [authenticateCallback]
  cases checkRequest parseUuid req with
  | error e => simp [bind, Except.bind]
  | ok c =>
      cases verifyHmac hmac secret req with
      | false => simp [bind, Except.bind]
      | true =>
          by_cases hfresh : now.toNat ≤ req.timestamp.toNat + maxCallbackAgeSecs
          · by_cases hdue : req.timestamp.toNat ≤ now.toNat + 5
            · simp [bind, Except.bind, pure, Except.pure, hold, hearly, hfresh, hdue]
            · simp [bind, Except.bind, hold, hearly, hfresh, hdue]
          · simp [bind, Except.bind, hold, hfresh]

theorem printable_signed (hmac : Hmac) (secret : Bytes) (hchecked : req.Checked)
    (hpush : req.Pushed mergeBase) : (req.signed hmac secret).Printable := by
  have hkey : ∀ {s : Text}, isPubkeyHex s = true → ∀ c ∈ s, Json.escapeChar c = [c] := by
    intro s hs c hc
    have hchar := List.all_eq_true.1 (Bool.and_eq_true_iff.1 hs).2 c hc
    exact escapeChar_of_isAsciiHexdigit (Bool.and_eq_true_iff.1 hchar).1
  have hoid : ∀ {s : Text}, isHookOid s = true → ∀ c ∈ s, Json.escapeChar c = [c] :=
    fun hs c hc => escapeChar_of_isAsciiHexdigit
      (List.all_eq_true.1 (Bool.and_eq_true_iff.1 hs).2 c hc)
  exact ⟨hpush.repoId, hkey hchecked.repoOwner, escapeChar_of_isUuidText hchecked.communityId,
    hkey hchecked.pusherPubkey,
    fun r hr => ⟨hoid (hchecked.oids r hr).1, hoid (hchecked.oids r hr).2,
      le_toNat_of_isWord (hpush.readable r hr).refName⟩,
    escapeChar_of_hexEncode _⟩

theorem receiveCallback_hookBody (hchecked : req.Checked) (hpush : req.Pushed mergeBase)
    (hset : [] ∉ (req.env hookUrl secret).required)
    (htag : hmac secret (canonicalPayload req) ≠ []) :
    ∃ body, hookBody (req.env hookUrl secret) mergeBase hmac
        (req.refUpdates.map HookRefUpdate.stdinLine) req.timestamp = some body ∧
      receiveCallback body = some (req.signed hmac secret) := by
  have hinput := hookInput_eq hookUrl secret mergeBase hpush.names hpush.readable hpush.isAncestor
  rw [if_neg hset] at hinput
  have hsignature : encode (hexEncode (hmac secret (canonicalPayload req))) ≠ [] := by
    intro hnil
    have hdecode := hexDecode_hexEncode (hmac secret (canonicalPayload req))
    rw [encode_injective (hnil.trans (by rfl : [] = encode []))] at hdecode
    exact htag (Option.some.inj hdecode).symm
  have hprint := printable_signed hmac secret hchecked hpush
  have hbody := jsonBody_eq hookUrl secret hprint
  have hentries : (req.refUpdates.map HookRefUpdate.stdinLine).map (classifyEntry mergeBase) =
      req.refUpdates.map fun r => encode r.toJson.print := by
    rw [List.map_map]
    apply List.map_congr_left
    intro r hr
    exact HookRefUpdate.classifyEntry_stdinLine (hpush.readable r hr)
      (hprint.refUpdates r hr) (hpush.isAncestor r hr)
  refine ⟨encode (req.signed hmac secret).toJson.print, ?_,
    (req.signed hmac secret).receiveCallback_print⟩
  rw [hookBody, hinput, Option.bind_eq_bind, Option.bind_some, hentries]
  change (if encode (hexEncode (hmac secret (canonicalPayload req))) = [] then none else _) = _
  rw [if_neg hsignature]
  exact congrArg some hbody

/-- From the lines of git to the verdict: the script posts a body, the endpoint reads the signed
request from it and passes it exactly while it is at most 30 s old and at most 5 s ahead.  At no
time does another push pass with the same signature, unless the MAC gives two payloads one tag. -/
theorem callback_authenticated (hforms : ∀ s c, parseUuid s = some c → IsUuidText s)
    (hcheck : checkRequest parseUuid req = .ok community) (hpush : req.Pushed mergeBase)
    (hset : [] ∉ (req.env hookUrl secret).required)
    (htag : hmac secret (canonicalPayload req) ≠ []) :
    (∃ body, hookBody (req.env hookUrl secret) mergeBase hmac
        (req.refUpdates.map HookRefUpdate.stdinLine) req.timestamp = some body ∧
      receiveCallback body = some (req.signed hmac secret)) ∧
    (∀ now, authenticateCallback parseUuid hmac secret now (req.signed hmac secret) =
        .ok community ↔
      now.toNat ≤ req.timestamp.toNat + 30 ∧ req.timestamp.toNat ≤ now.toNat + 5) ∧
    ∀ (now : UInt64) (other : HookCallbackRequest) (c : U),
      other.signature = (req.signed hmac secret).signature →
      authenticateCallback parseUuid hmac secret now other = .ok c →
      other.SamePush req ∨ canonicalPayload other ≠ canonicalPayload req ∧
        hmac secret (canonicalPayload other) = hmac secret (canonicalPayload req) := by
  have hchecked := checked_of_checkRequest hforms hcheck
  refine ⟨receiveCallback_hookBody hchecked hpush hset htag, ?_, ?_⟩
  · intro now
    rw [authenticateCallback_iff]
    exact ⟨fun h => h.2.2, fun h => ⟨hcheck, verifyHmac_signed hmac secret req, h⟩⟩
  · intro now other c hsignature hpass
    obtain ⟨hother, hverify, -⟩ := authenticateCallback_iff.1 hpass
    have hsigned : (req.signed hmac secret).Checked :=
      ⟨hchecked.repoOwner, hchecked.pusherPubkey, hchecked.communityId, hchecked.oids⟩
    rcases samePush_or_collision (checked_of_checkRequest hforms hother) hsigned hsignature hverify
      (verifyHmac_signed hmac secret req) with hsame | hcollision
    · exact Or.inl ⟨hsame.repoId, hsame.repoOwner, hsame.communityId, hsame.pusherPubkey,
        hsame.refUpdates, hsame.timestamp⟩
    · exact Or.inr hcollision

end

/-- HMAC-SHA256 of the push of `prefixUpdates` under the key `k`. -/
def prefixTag : Bytes :=
  [156, 229, 137, 127, 213, 217, 144, 216, 107, 78, 154, 95, 126, 64, 158, 55, 25, 180, 217, 127,
    131, 58, 15, 82, 215, 107, 244, 225, 113, 100, 190, 37]

/-- A push of two branches posts a request that still passes after half a minute. -/
theorem callback_authenticated_prefix :
    ∃ body, hookBody ((pushOf prefixUpdates).env [104] [107])
        (fun oldOid _ => oldOid == List.replicate 40 98) (fun _ _ => prefixTag)
        (prefixUpdates.map HookRefUpdate.stdinLine) 1700000000 = some body ∧
      (receiveCallback body).map
          (authenticateCallback parseHyphenated (fun _ _ => prefixTag) [107] 1700000030) =
        some (.ok (List.replicate 31 '0' ++ ['1'])) := by
  have hpush : (pushOf prefixUpdates).Pushed fun oldOid _ => oldOid == List.replicate 40 98 := by
    refine ⟨by decide, readable_prefixUpdates, ?_, ?_⟩
    · intro r hr
      rcases List.mem_cons.1 hr with rfl | hr
      · decide
      · rw [List.mem_singleton.1 hr]
        decide
    · have hname : ("my|project".toList.all fun c => 32 ≤ c.toNat) = true := by decide
      exact fun c hc => of_decide_eq_true (List.all_eq_true.1 hname c hc)
  have hpassed := @callback_authenticated Text parseHyphenated (List.replicate 31 '0' ++ ['1'])
    (pushOf prefixUpdates) (fun oldOid _ => oldOid == List.replicate 40 98) (fun _ _ => prefixTag)
    [104] [107] isUuidText_of_parseHyphenated rfl hpush (by decide) (by decide)
  obtain ⟨body, hbody, hreceived⟩ := hpassed.1
  refine ⟨body, hbody, ?_⟩
  rw [hreceived]
  exact congrArg some ((hpassed.2.1 1700000030).2 (by decide))

end Git
end Relay
end Maju
