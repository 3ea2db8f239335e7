import Maju.Auth.Nip98
import Maju.Lib.Run
import Maju.Lib.Slots

/-!
# Authorize — the credentials of the deployment-admin API

A request is checked in this order: its signed event, the grant of the signer, the host and the
origin; only then is the id of the event claimed in the store that all pods share.  The claim is a
later step than the checks, since the grant may be looked up in between.

* `authorizeNip98`, `resolveAdminPrincipal`, `checkRequest` — everything before the claim;
* `Api.step` — presentations and claims of any number of requests, at any times, on any pods.
-/

namespace Maju
namespace Relay
namespace Admin

open Lib Core Auth

/-! ## Configuration and requests -/

inductive AdminAuth where
  | disabled
  | nip98
  deriving DecidableEq, Repr

structure Config where
  host : String
  auth : AdminAuth
  relayOperatorPubkeys : List String
  relayOwnerPubkey : Option String

/-- The parts of a request that are looked at; a header that is no text is `none`. -/
structure Request where
  authorization : List (Option String)
  host : Option (Option String)
  origin : Option (Option String)
  pathAndQuery : String
  method : String
  rawBody : Option (List UInt8)

inductive ApiError where
  | unauthorized
  | forbidden
  | internal
  deriving DecidableEq, Repr

inductive AdminRole where
  | operator
  | moderator
  deriving DecidableEq, Repr

inductive AdminSource where
  | config
  | ownerFallback
  | db
  deriving DecidableEq, Repr

structure AdminPrincipal where
  pubkey : PublicKey
  role : AdminRole
  source : AdminSource
  deriving DecidableEq, Repr

def adminReplayScope : String := "admin-moderation"

def adminApiPrefix : String := "/api/admin/v1"

/-! ## URLs -/

def schemeForHost (host : String) : String :=
  let hostPart :=
    match host.toList with
    | '[' :: rest => rest.takeWhile (· ≠ ']')
    | chars => chars.takeWhile (· ≠ ':')
  if hostPart = "localhost".toList ∨ ".localhost".toList <:+ hostPart ∨ hostPart = "::1".toList ∨
      "127.".toList <+: hostPart then "http"
  else "https"

def canonicalUrl (host path : String) : String := schemeForHost host ++ "://" ++ host ++ path

def originMatchesHost (origin host : String) : Bool := origin = schemeForHost host ++ "://" ++ host

def isAdminHost (config : Config) (request : Request) : Bool :=
  match request.host with
  | some (some host) => host = config.host
  | _ => false

def nostrCredential (value : String) : Option String :=
  match value.toList.span (· ≠ ' ') with
  | (_, []) => none
  | (scheme, _ :: rest) =>
      let credential := String.ofList (rest.dropWhile (· = ' '))
      if eqIgnoreAsciiCase (String.ofList scheme) "Nostr" && credential ≠ "" then some credential
      else none

theorem nostrCredential_nostr {c : Char} {credential : String}
    (h : credential.toList.head? = some c) (hc : c ≠ ' ') :
    nostrCredential ("Nostr " ++ credential) = some credential := by
  obtain ⟨rest, hrest⟩ := List.head?_eq_some_iff.mp h
  have hne : credential ≠ "" := by
    rintro rfl
    simp at h
  have hlist : ("Nostr " ++ credential).toList = ['N', 'o', 's', 't', 'r', ' '] ++ (c :: rest) := by
    rw [String.toList_append, hrest]
    rfl
  have hback : String.ofList (c :: rest) = credential := by
    rw [← hrest, String.ofList_toList]
  unfold nostrCredential
  simp only [hlist]
  simp [List.span_eq_takeWhile_dropWhile, List.takeWhile, List.dropWhile, hc, hback, hne]
  decide

/-! ## Checks before the claim -/

/-- `authorize_nip98`, at a time in whole seconds. -/
def authorizeNip98 (p : Primitives) (config : Config) (request : Request) (now : Nat) :
    Except ApiError (PublicKey × Event) :=
  match request.authorization with
  | [some value] =>
      match (nostrCredential value).bind p.decode with
      | none => .error .unauthorized
      | some eventJson =>
          match p.parse eventJson with
          | none => .error .unauthorized
          | some event =>
              if request.rawBody.isSome && countTags event "payload" = 0 then .error .unauthorized
              else
                match verifyNip98Event p eventJson
                  (canonicalUrl config.host (adminApiPrefix ++ request.pathAndQuery))
                  request.method request.rawBody now with
                | .ok pubkey => .ok (pubkey, event)
                | .error _ => .error .unauthorized
  | _ => .error .unauthorized

/-- `resolve_admin_principal`; `lookup` is what the table of operators answers. -/
def resolveAdminPrincipal (config : Config) (pubkey : PublicKey)
    (lookup : Except Unit (Option String)) : Except ApiError AdminPrincipal :=
  if toHex pubkey ∈ config.relayOperatorPubkeys then .ok ⟨pubkey, .operator, .config⟩
  else if config.relayOperatorPubkeys = [] ∧ config.relayOwnerPubkey = some (toHex pubkey) then
    .ok ⟨pubkey, .operator, .ownerFallback⟩
  else
    match lookup with
    | .error _ => .error .internal
    | .ok (some "operator") => .ok ⟨pubkey, .operator, .db⟩
    | .ok (some "moderator") => .ok ⟨pubkey, .moderator, .db⟩
    | .ok (some _) => .error .forbidden
    | .ok none => .error .forbidden

/-- The host and the origin of the request. -/
def checkHost (config : Config) (request : Request) : Bool :=
  isAdminHost config request &&
    match request.origin with
    | none => true
    | some none => false
    | some (some origin) => originMatchesHost origin config.host

/-- `authorize` up to the claim: the principal and the event to be claimed, if there is one. -/
def checkRequest (p : Primitives) (config : Config) (request : Request)
    (lookup : Except Unit (Option String)) (now : Nat) :
    Except ApiError (Option (AdminPrincipal × Event)) :=
  match config.auth with
  | .disabled => if checkHost config request then .ok none else .error .forbidden
  | .nip98 =>
      match authorizeNip98 p config request now with
      | .error error => .error error
      | .ok (pubkey, event) =>
          match resolveAdminPrincipal config pubkey lookup with
          | .error error => .error error
          | .ok principal =>
              if checkHost config request then .ok (some (principal, event)) else .error .forbidden

theorem authorizeNip98_ok {p : Primitives} {config : Config} {request : Request} {now : Nat}
    {value eventJson : String} {event : Event} {pubkey : PublicKey}
    (hvalue : request.authorization = [some value])
    (hdecode : (nostrCredential value).bind p.decode = some eventJson)
    (hparse : p.parse eventJson = some event) (hbody : request.rawBody = none)
    (hverify : verifyNip98Event p eventJson
      (canonicalUrl config.host (adminApiPrefix ++ request.pathAndQuery)) request.method none now =
        .ok pubkey) : authorizeNip98 p config request now = .ok (pubkey, event) := by
  simp only [authorizeNip98, hvalue, hdecode, hparse, hbody, Option.isSome_none, Bool.false_and,
    Bool.false_eq_true, if_false, hverify]

theorem checkRequest_ok {p : Primitives} {config : Config} {request : Request}
    {lookup : Except Unit (Option String)} {now : Nat} {pubkey : PublicKey}
    {principal : AdminPrincipal} {event : Event} (hauth : config.auth = .nip98)
    (hauthorize : authorizeNip98 p config request now = .ok (pubkey, event))
    (hprincipal : resolveAdminPrincipal config pubkey lookup = .ok principal)
    (hhost : checkHost config request = true) :
    checkRequest p config request lookup now = .ok (some (principal, event)) := by
  simp only [checkRequest, hauth, hauthorize, hprincipal, hhost, if_true]

theorem checkRequest_verified {p : Primitives} {config : Config} {request : Request}
    {lookup : Except Unit (Option String)} {now : Nat} {principal : AdminPrincipal} {event : Event}
    (h : checkRequest p config request lookup now = .ok (some (principal, event))) :
    p.verifyEvent event = true ∧ Fresh event now := by
  unfold checkRequest at h
  split at h
  next => split at h <;> exact nomatch h
  next =>
    split at h
    next => exact nomatch h
    next pubkey checked hauthorize =>
      split at h
      next => exact nomatch h
      next =>
        split at h
        next =>
          obtain rfl : checked = event :=
            (Prod.mk.inj (Option.some.inj (Except.ok.inj h))).2
          unfold authorizeNip98 at hauthorize
          split at hauthorize
          next =>
            split at hauthorize
            next => exact nomatch hauthorize
            next eventJson _ =>
              split at hauthorize
              next => exact nomatch hauthorize
              next parsed hparse =>
                split at hauthorize
                next => exact nomatch hauthorize
                next =>
                  split at hauthorize
                  next hok =>
                    obtain ⟨-, rfl⟩ := Prod.mk.inj (Except.ok.inj hauthorize)
                    exact verifyNip98Event_ok hparse hok
                  next => exact nomatch hauthorize
          next => exact nomatch hauthorize
        next => exact nomatch h

/-! ## Requests in progress -/

universe u

/-- Where a request is: it passed without a credential, authentication being off, or its checks are
passed and its event is to be claimed, or it is answered. -/
inductive Phase (τ : Type u) where
  | passed
  | checked (principal : AdminPrincipal) (event : Event)
  | accepted (principal : AdminPrincipal) (event : Event) (claimedAt : τ)
  | refused (error : ApiError)
  deriving DecidableEq, Repr

/-- What becomes of a command to the store, which may be unreachable, or do it and its answer be
lost. -/
inductive Delivery where
  | answered
  | unreachable
  | lost
  deriving DecidableEq, Repr

structure Api (τ : Type u) where
  now : τ
  markers : List (Marker τ)
  requests : List (Phase τ)

/-- A request arrives at a pod and is checked, a request that passed claims its event, or the store
is used otherwise. -/
inductive Input (τ : Type u) where
  | present (time : τ) (request : Request) (lookup : Except Unit (Option String))
  | claim (time : τ) (call : Nat) (delivery : Delivery)
  | mark (time : τ) (scope : String) (event : EventId) (ttlSecs : Nat)

namespace Input

variable {τ : Type u}

def time : Input τ → τ
  | .present time _ _ => time
  | .claim time _ _ => time
  | .mark time _ _ _ => time

end Input

namespace Api

variable {τ : Type u} [Semiring τ] [LinearOrder τ] [FloorSemiring τ]

def empty : Api τ := ⟨0, [], []⟩

/-- `claim_nip98_replay`. -/
def claim (s : Api τ) (time : τ) (call : Nat) (delivery : Delivery) : Api τ :=
  match s.requests[call]? with
  | some (.checked principal event) =>
      let (markers, fresh) :=
        tryMarkInScope s.markers time adminReplayScope event.id defaultReplayTtlSecs
      match delivery with
      | .answered =>
          { s with
              markers := markers
              requests := s.requests.set call
                (if fresh then .accepted principal event time else .refused .unauthorized) }
      | .unreachable => { s with requests := s.requests.set call (.refused .unauthorized) }
      | .lost =>
          { s with
              markers := markers
              requests := s.requests.set call (.refused .unauthorized) }
  | _ => s

/-- The checks of a request, at the clock rounded down to seconds. -/
def present (p : Primitives) (config : Config) (s : Api τ) (time : τ) (request : Request)
    (lookup : Except Unit (Option String)) : Api τ :=
  let phase : Phase τ :=
    match checkRequest p config request lookup ⌊time⌋₊ with
    | .error error => .refused error
    | .ok none => .passed
    | .ok (some (principal, event)) => .checked principal event
  { s with requests := s.requests ++ [phase] }

def step (p : Primitives) (config : Config) (s : Api τ) (input : Input τ) : Api τ :=
  if input.time < s.now then s
  else
    let s := { s with now := input.time }
    match input with
    | .present time request lookup => s.present p config time request lookup
    | .claim time call delivery => s.claim time call delivery
    | .mark time scope event ttlSecs =>
        { s with markers := (tryMarkInScope s.markers time scope event ttlSecs).1 }

def run (p : Primitives) (config : Config) (inputs : List (Input τ)) : Api τ :=
  Run.run (step p config) empty inputs

end Api

end Admin
end Relay
end Maju
