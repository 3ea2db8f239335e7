import Maju.Core.Nostr
import Maju.Lib.Decimal
import Maju.Lib.Text

/-!
# Directory — the Redis-backed session directory of the relay mesh

Who owns a tunnel session is decided by two Redis keys of the session: an expiring lease value
`owner|generation|profile` and a generation counter that never expires.  Each operation of a relay
runtime is one Lua script over these two keys, run atomically by Redis, between checks of the
durable write guard of the community.

* `Redis` — keys with their values and times to live;
* `acquireScript`, `renewScript`, `releaseScript`, `validateScript` — the scripts, on the `Slot`
  that the two keys of a session make up;
* `Directory.acquire`, `renew`, `release`, `lookup`, `validateFencedHeader` — the calls;
* `Directory.step` — one call by any runtime, or the expiry of a key, on the shared Redis.
-/

namespace Maju
namespace Relay
namespace Tunnel

open Lib Core

/-! ## Redis -/

/-- The value of a key and its time to live in milliseconds, if it has one. -/
structure Entry where
  value : Text
  pttl : Option Nat
  deriving DecidableEq, Repr

abbrev Redis := HashMap Text Entry

def Redis.put (redis : Redis) (key : Text) : Option Entry → Redis
  | some entry => redis.insert key entry
  | none => redis.erase key

/-- A time to live runs out.  Keys without one stay. -/
def Redis.expire (redis : Redis) (key : Text) : Redis :=
  match redis.lookup key with
  | some entry => if entry.pttl.isSome then redis.put key none else redis
  | none => redis

/-- Redis's own integer syntax: no plus sign, no leading zeros, and within 64 bits. -/
def string2ll (text : Text) : Option Int :=
  let canonical (digits : Text) : Option Nat :=
    if digits = ['0'] ∨ digits.head? ≠ some '0' then parseDigits digits else none
  match text with
  | '-' :: digits =>
      (canonical digits).bind fun n => if 0 < n ∧ n ≤ 2 ^ 63 then some (-(n : Int)) else none
  | digits => (canonical digits).bind fun n => if n < 2 ^ 63 then some (n : Int) else none

/-- Why a script or a command failed. -/
inductive RedisError where
  | notAnInteger
  | wouldOverflow
  | connection
  deriving DecidableEq, Repr

/-- Decimal text of an integer, as `INCR` stores it. -/
def intText (i : Int) : Text := if i < 0 then '-' :: decimal i.natAbs else decimal i.natAbs

/-- `INCR`: the new number, and the entry that keeps it.  The time to live is kept. -/
def incr (entry : Option Entry) : Except RedisError (Int × Entry) :=
  match entry with
  | none => .ok (1, ⟨intText 1, none⟩)
  | some e =>
      match string2ll e.value with
      | none => .error .notAnInteger
      | some i =>
          if i = 2 ^ 63 - 1 then .error .wouldOverflow
          else .ok (i + 1, ⟨intText (i + 1), e.pttl⟩)

/-- Lua's `tostring` of an integer reply: it went through a double and prints as `%.14g`. -/
def luaToString (i : Int) : Text :=
  if i < 0 then '-' :: formatG14 (toDouble i.natAbs) else formatG14 (toDouble i.natAbs)

/-! ## Scripts -/

/-- The lease key and the generation key of one session. -/
structure Slot where
  lease : Option Entry
  generation : Option Entry
  deriving DecidableEq, Repr

/-- The first text of a script's reply. -/
inductive ScriptStatus where
  | acquired
  | exists
  | renewed
  | released
  | missing
  | lost
  deriving DecidableEq, Repr

/-- The reply `{status, value, known_generation}`. -/
structure Reply where
  status : ScriptStatus
  value : Text
  knownGeneration : Text
  deriving DecidableEq, Repr

/-- `GET key or ''`. -/
def getOrEmpty (entry : Option Entry) : Text := (entry.map Entry.value).getD []

/-- The lease value `owner|generation|profile`. -/
def leaseValue (owner generation profile : Text) : Text :=
  owner ++ '|' :: (generation ++ '|' :: profile)

/-- `string.match(current, '^([^|]+)|([^|]+)|([^|]+)$')`. -/
def matchLease (current : Text) : Option (Text × Text × Text) :=
  match fields '|' current with
  | [owner, generation, profile] =>
      if owner = [] ∨ generation = [] ∨ profile = [] then none
      else some (owner, generation, profile)
  | _ => none

def acquireScript (owner profile : Text) (ttl : Nat) (slot : Slot) :
    Except RedisError (Slot × Reply) :=
  match slot.lease with
  | some current => .ok (slot, ⟨.exists, current.value, getOrEmpty slot.generation⟩)
  | none =>
      match incr slot.generation with
      | .error e => .error e
      | .ok (generation, entry) =>
          let value := leaseValue owner (luaToString generation) profile
          .ok (⟨some ⟨value, some ttl⟩, some entry⟩,
            ⟨.acquired, value, luaToString generation⟩)

/-- What `RENEW_SCRIPT` and `RELEASE_SCRIPT` share: `change` is applied to the lease key only when
the current value names this owner and this generation. -/
def ownerScript (done : ScriptStatus) (change : Entry → Option Entry) (owner generation : Text)
    (slot : Slot) : Slot × Reply :=
  match slot.lease with
  | none => (slot, ⟨.missing, [], getOrEmpty slot.generation⟩)
  | some current =>
      let known (fallback : Text) : Text := (slot.generation.map Entry.value).getD fallback
      match matchLease current.value with
      | some (currentOwner, currentGeneration, _) =>
          if currentOwner = owner ∧ currentGeneration = generation then
            (⟨change current, slot.generation⟩, ⟨done, current.value, known currentGeneration⟩)
          else (slot, ⟨.lost, current.value, known currentGeneration⟩)
      -- without a match the Lua locals are nil and compare unequal to any argument
      | none => (slot, ⟨.lost, current.value, known []⟩)

/-- `RENEW_SCRIPT`: `PEXPIRE` of the matching lease. -/
def renewScript (owner generation : Text) (ttl : Nat) (slot : Slot) : Slot × Reply :=
  ownerScript .renewed (fun current => some ⟨current.value, some ttl⟩) owner generation slot

/-- `RELEASE_SCRIPT`: `DEL` of the matching lease. -/
def releaseScript (owner generation : Text) (slot : Slot) : Slot × Reply :=
  ownerScript .released (fun _ => none) owner generation slot

def validateScript (slot : Slot) : Text × Text :=
  (getOrEmpty slot.lease, getOrEmpty slot.generation)

/-! ## Leases -/

abbrev RuntimeId := BitVec 256

/-- `RuntimeId::to_hex`. -/
def toHex (runtime : RuntimeId) : Text := hexDigits 64 runtime.toNat

/-- `hex::decode` into 32 bytes. -/
def runtimeFromHex (text : Text) : Option RuntimeId :=
  if text.length = 64 then (parseHex text).map (BitVec.ofNat 256) else none

/-- Tunnel profile, fixed at session establishment. -/
inductive Profile where
  | reliableStream
  | realtimeMedia
  | huddleControl
  deriving DecidableEq, Repr

namespace Profile

def asWireStr : Profile → Text
  | .reliableStream => "reliable-stream".toList
  | .realtimeMedia => "realtime-media".toList
  | .huddleControl => "huddle-control".toList

/-- `profile_from_wire`. -/
def fromWire (value : Text) : Option Profile :=
  if value = "reliable-stream".toList then some .reliableStream
  else if value = "realtime-media".toList then some .realtimeMedia
  else if value = "huddle-control".toList then some .huddleControl
  else none

end Profile

/-- The fence carried in every session-bearing frame. -/
structure FencedHeader where
  sessionId : Uuid
  generation : Nat
  ownerRuntimeId : RuntimeId
  deriving DecidableEq, Repr

/-- Active session ownership lease read from Redis. -/
structure SessionLease where
  communityId : CommunityId
  sessionId : Uuid
  ownerRuntimeId : RuntimeId
  generation : Nat
  profile : Profile
  deriving DecidableEq, Repr

def SessionLease.fencedHeader (lease : SessionLease) : FencedHeader where
  sessionId := lease.sessionId
  generation := lease.generation
  ownerRuntimeId := lease.ownerRuntimeId

/-- Errors of the session directory; `expectFailed` is the panic of an `expect` on a reply without a
lease. -/
inductive DirectoryError where
  | pool
  | redis (error : RedisError)
  | malformedLease (communityId : CommunityId) (sessionId : Uuid) (value : Text)
  | malformedGeneration (communityId : CommunityId) (sessionId : Uuid) (value : Text)
  | unexpectedScriptStatus (status : ScriptStatus)
  | invalidLeaseTtl
  | communityWriteFenced
  | expectFailed
  deriving DecidableEq, Repr

def parseLease (communityId : CommunityId) (sessionId : Uuid) (value : Text) :
    Except DirectoryError SessionLease :=
  let malformed := DirectoryError.malformedLease communityId sessionId value
  match fields '|' value with
  | [ownerHex, generationText, profileText] =>
      match parseU64 generationText, Profile.fromWire profileText, runtimeFromHex ownerHex with
      | some generation, some profile, some ownerRuntimeId =>
          if generation = 0 then .error malformed
          else .ok ⟨communityId, sessionId, ownerRuntimeId, generation, profile⟩
      | _, _, _ => .error malformed
  | _ => .error malformed

def parseOptionalLease (communityId : CommunityId) (sessionId : Uuid) (value : Text) :
    Except DirectoryError (Option SessionLease) :=
  if value = [] then .ok none else (parseLease communityId sessionId value).map some

def parseOptionalGeneration (communityId : CommunityId) (sessionId : Uuid) (value : Text) :
    Except DirectoryError (Option Nat) :=
  if value = [] then .ok none
  else
    match parseU64 value with
    | none => .error (.malformedGeneration communityId sessionId value)
    | some generation =>
        if generation = 0 then .error (.malformedGeneration communityId sessionId value)
        else .ok (some generation)

/-! ## Keys -/

/-- A UUID as it is displayed: hexadecimal digits in the groups 8-4-4-4-12. -/
def uuidText (id : Uuid) : Text :=
  let digits := hexDigits 32 id.toNat
  digits.take 8 ++ '-' :: ((digits.drop 8).take 4 ++ '-' :: ((digits.drop 12).take 4 ++
    '-' :: ((digits.drop 16).take 4 ++ '-' :: digits.drop 20)))

/-- The two keys of a session. -/
structure SessionKeys where
  lease : Text
  generation : Text
  deriving DecidableEq, Repr

namespace SessionKeys

/-- What both keys of a session start with. -/
def base (communityId : CommunityId) (sessionId : Uuid) : Text :=
  "maju:".toList ++ (uuidText communityId.uuid ++ (":tunnel:".toList ++ uuidText sessionId))

/-- `SessionKeys::new`. -/
def new (communityId : CommunityId) (sessionId : Uuid) : SessionKeys where
  lease := base communityId sessionId ++ ":lease".toList
  generation := base communityId sessionId ++ ":generation".toList

/-- The slot that the two keys make up. -/
def slot (keys : SessionKeys) (redis : Redis) : Slot where
  lease := redis.lookup keys.lease
  generation := redis.lookup keys.generation

/-- The Redis in which a script has left the two keys as `slot`. -/
def store (keys : SessionKeys) (redis : Redis) (slot : Slot) : Redis :=
  (redis.put keys.lease slot.lease).put keys.generation slot.generation

end SessionKeys

/-! ## Calls -/

/-- How the surroundings of one mutating call behave: `begin_serving_write` refuses, there is no
connection, `protect` fails or the reply is lost although the script may have run, or the reply
arrives and `finish` succeeds or fails. -/
inductive Attempt where
  | refused
  | noConnection
  | fenced (ran : Bool)
  | broken (ran : Bool)
  | completed (finished : Bool)
  deriving DecidableEq, Repr

def ttlMs (leaseTtl : Nat) : Except DirectoryError Nat :=
  if 0 < leaseTtl ∧ leaseTtl < 2 ^ 63 then .ok leaseTtl else .error .invalidLeaseTtl

inductive AcquireResult where
  | acquired (lease : SessionLease)
  | exists (lease : SessionLease)
  deriving DecidableEq, Repr

inductive RenewResult where
  | renewed (lease : SessionLease)
  | lost (current : Option SessionLease) (knownGeneration : Option Nat)
  deriving DecidableEq, Repr

inductive ReleaseResult where
  | released (lease : SessionLease)
  | notOwner (current : Option SessionLease) (knownGeneration : Option Nat)
  deriving DecidableEq, Repr

namespace Directory

/-- The two keys after a script, or as they were when it failed. -/
def afterScript (slot : Slot) : Except RedisError (Slot × Reply) → Slot
  | .ok (slot', _) => slot'
  | .error _ => slot

/-- One guarded script invocation on the keys of a session: the keys afterwards, and the reply
with the outcome of the guard's `finish`. -/
def invoke (attempt : Attempt) (script : Slot → Except RedisError (Slot × Reply)) (slot : Slot) :
    Slot × Except DirectoryError (Reply × Bool) :=
  match attempt with
  | .refused => (slot, .error .communityWriteFenced)
  | .noConnection => (slot, .error .pool)
  | .fenced ran =>
      (if ran then afterScript slot (script slot) else slot, .error .communityWriteFenced)
  | .broken ran =>
      (if ran then afterScript slot (script slot) else slot, .error (.redis .connection))
  | .completed finished =>
      match script slot with
      | .error e => (slot, .error (.redis e))
      | .ok (slot', reply) => (slot', .ok (reply, finished))

/-- `guard.finish()`, after the reply has been parsed. -/
def finish (finished : Bool) : Except DirectoryError Unit :=
  if finished then .ok () else .error .communityWriteFenced

/-- The result part of `acquire`. -/
def readAcquire (communityId : CommunityId) (sessionId : Uuid) (reply : Reply) (finished : Bool) :
    Except DirectoryError AcquireResult := do
  let lease ← parseLease communityId sessionId reply.value
  finish finished
  match reply.status with
  | .acquired => .ok (.acquired lease)
  | .exists => .ok (.exists lease)
  | status => .error (.unexpectedScriptStatus status)

/-- `acquire` on the keys of the session.  The guard is begun before the time to live is checked,
so a refusal comes first. -/
def acquire (leaseTtl : Nat) (attempt : Attempt) (communityId : CommunityId) (sessionId : Uuid)
    (ownerRuntimeId : RuntimeId) (profile : Profile) (slot : Slot) :
    Slot × Except DirectoryError AcquireResult :=
  if attempt = .refused then (slot, .error .communityWriteFenced)
  else
    match ttlMs leaseTtl with
    | .error e => (slot, .error e)
    | .ok ttl =>
        let (slot', reply) :=
          invoke attempt (acquireScript (toHex ownerRuntimeId) profile.asWireStr ttl) slot
        (slot', reply.bind fun (reply, finished) =>
          readAcquire communityId sessionId reply finished)

/-- `takeover`: the same atomic path as `acquire`. -/
def takeover (leaseTtl : Nat) (attempt : Attempt) (communityId : CommunityId) (sessionId : Uuid)
    (ownerRuntimeId : RuntimeId) (profile : Profile) (slot : Slot) :
    Slot × Except DirectoryError AcquireResult :=
  acquire leaseTtl attempt communityId sessionId ownerRuntimeId profile slot

/-- The result part of `renew`. -/
def readRenew (lease : SessionLease) (reply : Reply) (finished : Bool) :
    Except DirectoryError RenewResult := do
  let current ← parseOptionalLease lease.communityId lease.sessionId reply.value
  finish finished
  match reply.status with
  | .renewed =>
      match current with
      | some current => .ok (.renewed current)
      | none => .error .expectFailed
  | .missing | .lost => do
      let known ← parseOptionalGeneration lease.communityId lease.sessionId reply.knownGeneration
      .ok (.lost current known)
  | status => .error (.unexpectedScriptStatus status)

def renew (leaseTtl : Nat) (attempt : Attempt) (lease : SessionLease) (slot : Slot) :
    Slot × Except DirectoryError RenewResult :=
  if attempt = .refused then (slot, .error .communityWriteFenced)
  else
    match ttlMs leaseTtl with
    | .error e => (slot, .error e)
    | .ok ttl =>
        let script := renewScript (toHex lease.ownerRuntimeId) (decimal lease.generation) ttl
        let (slot', reply) := invoke attempt (fun slot => .ok (script slot)) slot
        (slot', reply.bind fun (reply, finished) => readRenew lease reply finished)

/-- The result part of `release`. -/
def readRelease (lease : SessionLease) (reply : Reply) (finished : Bool) :
    Except DirectoryError ReleaseResult := do
  let current ← parseOptionalLease lease.communityId lease.sessionId reply.value
  finish finished
  match reply.status with
  | .released =>
      match current with
      | some current => .ok (.released current)
      | none => .error .expectFailed
  | .missing | .lost => do
      let known ← parseOptionalGeneration lease.communityId lease.sessionId reply.knownGeneration
      .ok (.notOwner current known)
  | status => .error (.unexpectedScriptStatus status)

/-- `release`: no time to live is involved. -/
def release (attempt : Attempt) (lease : SessionLease) (slot : Slot) :
    Slot × Except DirectoryError ReleaseResult :=
  let script := releaseScript (toHex lease.ownerRuntimeId) (decimal lease.generation)
  let (slot', reply) := invoke attempt (fun slot => .ok (script slot)) slot
  (slot', reply.bind fun (reply, finished) => readRelease lease reply finished)

/-- `lookup`: the current live lease, if any. -/
def lookup (communityId : CommunityId) (sessionId : Uuid) (slot : Slot) :
    Except DirectoryError (Option SessionLease) :=
  match slot.lease with
  | none => .ok none
  | some entry => (parseLease communityId sessionId entry.value).map some

/-- The rejections of a session-bearing frame. -/
inductive MeshError where
  | transport
  | staleGeneration (sessionId : Uuid) (frameGeneration knownGeneration : Nat)
  | noActiveLease (sessionId : Uuid) (frameGeneration knownGeneration : Nat)
      (frameOwnerRuntimeId : RuntimeId)
  | futureGeneration (sessionId : Uuid) (frameGeneration knownGeneration : Nat)
  | ownerMismatch (sessionId : Uuid) (generation : Nat)
      (frameOwnerRuntimeId currentOwnerRuntimeId : RuntimeId)
  deriving DecidableEq, Repr

/-- `validate_fenced_header`, when Redis answers. -/
def validateFencedHeader (communityId : CommunityId) (fenced : FencedHeader) (slot : Slot) :
    Except MeshError Unit :=
  let (leaseText, knownText) := validateScript slot
  match parseOptionalGeneration communityId fenced.sessionId knownText,
      parseOptionalLease communityId fenced.sessionId leaseText with
  | .ok fromCounter, .ok current =>
      let knownFromCounter := fromCounter.getD 0
      let known := max ((current.map SessionLease.generation).getD knownFromCounter) knownFromCounter
      if 0 < known ∧ fenced.generation < known then
        .error (.staleGeneration fenced.sessionId fenced.generation known)
      else
        match current with
        | none =>
            .error (.noActiveLease fenced.sessionId fenced.generation known fenced.ownerRuntimeId)
        | some current =>
            if fenced.generation ≠ current.generation then
              .error (.futureGeneration fenced.sessionId fenced.generation current.generation)
            else if fenced.ownerRuntimeId ≠ current.ownerRuntimeId then
              .error (.ownerMismatch fenced.sessionId fenced.generation fenced.ownerRuntimeId
                current.ownerRuntimeId)
            else .ok ()
  | _, _ => .error .transport

/-! ## The shared directory -/

/-- A call of some runtime. -/
inductive Call where
  | acquire (leaseTtl : Nat) (attempt : Attempt) (communityId : CommunityId) (sessionId : Uuid)
      (ownerRuntimeId : RuntimeId) (profile : Profile)
  | takeover (leaseTtl : Nat) (attempt : Attempt) (communityId : CommunityId) (sessionId : Uuid)
      (ownerRuntimeId : RuntimeId) (profile : Profile)
  | renew (leaseTtl : Nat) (attempt : Attempt) (lease : SessionLease)
  | release (attempt : Attempt) (lease : SessionLease)
  | lookup (communityId : CommunityId) (sessionId : Uuid)
  | validate (communityId : CommunityId) (fenced : FencedHeader)
  deriving DecidableEq, Repr

/-- What a call returns. -/
inductive Outcome where
  | acquire (result : Except DirectoryError AcquireResult)
  | renew (result : Except DirectoryError RenewResult)
  | release (result : Except DirectoryError ReleaseResult)
  | lookup (result : Except DirectoryError (Option SessionLease))
  | validate (result : Except MeshError Unit)

namespace Call

def session : Call → CommunityId × Uuid
  | .acquire _ _ c s _ _ => (c, s)
  | .takeover _ _ c s _ _ => (c, s)
  | .renew _ _ lease => (lease.communityId, lease.sessionId)
  | .release _ lease => (lease.communityId, lease.sessionId)
  | .lookup c s => (c, s)
  | .validate c fenced => (c, fenced.sessionId)

/-- A call as it runs on the keys of its session. -/
def exec (slot : Slot) : Call → Slot × Outcome
  | .acquire ttl attempt c s owner profile =>
      (Directory.acquire ttl attempt c s owner profile slot).map id .acquire
  | .takeover ttl attempt c s owner profile =>
      (Directory.takeover ttl attempt c s owner profile slot).map id .acquire
  | .renew ttl attempt lease => (Directory.renew ttl attempt lease slot).map id .renew
  | .release attempt lease => (Directory.release attempt lease slot).map id .release
  | .lookup c s => (slot, .lookup (Directory.lookup c s slot))
  | .validate c fenced => (slot, .validate (validateFencedHeader c fenced slot))

end Call

/-- A call, or the end of some key's time to live. -/
inductive Input where
  | call (call : Call)
  | expire (key : Text)
  deriving DecidableEq, Repr

def keysOf (session : CommunityId × Uuid) : SessionKeys := SessionKeys.new session.1 session.2

/-- One step of the shared Redis, with the outcome of the call. -/
def exec (redis : Redis) : Input → Redis × Option Outcome
  | .call call =>
      let keys := keysOf call.session
      let (slot', outcome) := call.exec (keys.slot redis)
      (keys.store redis slot', some outcome)
  | .expire key => (redis.expire key, none)

def step (redis : Redis) (input : Input) : Redis := (exec redis input).1

/-- The steps of a run, each with its outcome. -/
def trace (redis : Redis) : List Input → List (Input × Option Outcome)
  | [] => []
  | input :: inputs => (input, (exec redis input).2) :: trace (step redis input) inputs

end Directory

end Tunnel
end Relay
end Maju
