import Maju.Core.Nostr
import Mathlib.Algebra.Order.Floor.Defs

/-!
# Nip98 — signed HTTP requests and their replay markers

A client signs an event that names the URL, the method and the hash of the body of its request.
The verifier is stateless; that an event is used once is the business of a store that the pods
share, with one marker for each event that was used.

* `verifyNip98Event` — the checks of one event against one request;
* `tryMarkInScope` — the atomic claim of an event in the store.
-/

namespace Maju
namespace Auth

open Lib Core

/-! ## Library code -/

/-- What the verifier takes from its libraries: base64 to text, JSON to an event, `verify_event`, a
URL with the slashes at the end of its path removed, `to_lowercase` and SHA-256.  The hash of a
verified event stands for one event. -/
structure Primitives where
  decode : String → Option String
  parse : String → Option Event
  verifyEvent : Event → Bool
  trimUrl : String → Option String
  toLowercase : String → String
  sha256 : List UInt8 → BitVec 256
  id_binds : ∀ e e' : Event, verifyEvent e = true → verifyEvent e' = true → e.id = e'.id → e = e'

def eqIgnoreAsciiCase (a b : String) : Bool := a.toList.map Char.toLower == b.toList.map Char.toLower

/-! ## Verification -/

def timestampToleranceSecs : Nat := 60

/-- `Kind::HttpAuth`. -/
def kindHttpAuth : Nat := 27235

inductive AuthError where
  | parseError
  | unexpectedKind (kind : Nat)
  | invalidSignature
  | outsideWindow (delta : Nat)
  | urlTagCount (count : Nat)
  | missingUrl
  | urlMismatch (tag expected : String)
  | methodTagCount (count : Nat)
  | missingMethod
  | methodMismatch (tag expected : String)
  | payloadTagCount (count : Nat)
  | payloadMismatch
  deriving DecidableEq, Repr

def normalizeUrl (p : Primitives) (raw : String) : String := (p.trimUrl raw).getD (p.toLowercase raw)

/-- How many tags of an event have the name. -/
def countTags (event : Event) (name : String) : Nat := event.tags.countP fun t => t.name = name

/-- The content of the first tag of an event with the name. -/
def tagContent (event : Event) (name : String) : Option String :=
  (event.tags.find? fun t => t.name = name).bind Tag.content

/-- `u64::abs_diff`. -/
def absDiff (a b : Nat) : Nat := max a b - min a b

/-- The payload of the event, if it has one, is the hash of the body, if there is one. -/
def verifyPayload (p : Primitives) (event : Event) (body : Option (List UInt8)) :
    Except AuthError PublicKey :=
  if 1 < countTags event "payload" then .error (.payloadTagCount (countTags event "payload"))
  else
    match tagContent event "payload", body with
    | some payload, some bytes =>
        if toHex (p.sha256 bytes) ≠ payload then .error .payloadMismatch else .ok event.pubkey
    | _, _ => .ok event.pubkey

/-- The tags of the event name the request. -/
def verifyTags (p : Primitives) (event : Event) (expectedUrl expectedMethod : String)
    (body : Option (List UInt8)) : Except AuthError PublicKey :=
  if countTags event "u" ≠ 1 then .error (.urlTagCount (countTags event "u"))
  else
    match tagContent event "u" with
    | none => .error .missingUrl
    | some url =>
        if normalizeUrl p url ≠ normalizeUrl p expectedUrl then .error (.urlMismatch url expectedUrl)
        else if countTags event "method" ≠ 1 then
          .error (.methodTagCount (countTags event "method"))
        else
          match tagContent event "method" with
          | none => .error .missingMethod
          | some method =>
              if eqIgnoreAsciiCase method expectedMethod then verifyPayload p event body
              else .error (.methodMismatch method expectedMethod)

/-- `verify_nip98_event`, at a time in whole seconds. -/
def verifyNip98Event (p : Primitives) (eventJson expectedUrl expectedMethod : String)
    (body : Option (List UInt8)) (now : Nat) : Except AuthError PublicKey :=
  match p.parse eventJson with
  | none => .error .parseError
  | some event =>
      if eventKindU32 event ≠ kindHttpAuth then .error (.unexpectedKind (eventKindU32 event))
      else if !p.verifyEvent event then .error .invalidSignature
      else if timestampToleranceSecs < absDiff now event.createdAt.toNat then
        .error (.outsideWindow (absDiff now event.createdAt.toNat))
      else verifyTags p event expectedUrl expectedMethod body

/-- The event is in the window of the verifier. -/
def Fresh (event : Event) (now : Nat) : Prop :=
  absDiff now event.createdAt.toNat ≤ timestampToleranceSecs

instance (event : Event) (now : Nat) : Decidable (Fresh event now) :=
  inferInstanceAs (Decidable (absDiff now event.createdAt.toNat ≤ timestampToleranceSecs))

theorem fresh_iff {event : Event} {now : Nat} :
    Fresh event now ↔ event.createdAt.toNat ≤ now + 60 ∧ now ≤ event.createdAt.toNat + 60 := by
  unfold Fresh absDiff timestampToleranceSecs
  omega

theorem verifyNip98Event_ok {p : Primitives} {eventJson expectedUrl expectedMethod : String}
    {body : Option (List UInt8)} {now : Nat} {pubkey : PublicKey} {event : Event}
    (hparse : p.parse eventJson = some event)
    (h : verifyNip98Event p eventJson expectedUrl expectedMethod body now = .ok pubkey) :
    p.verifyEvent event = true ∧ Fresh event now := by
  simp only [verifyNip98Event, hparse] at h
  split at h
  next => exact nomatch h
  next =>
    split at h
    next => exact nomatch h
    next hverified =>
      split at h
      next => exact nomatch h
      next hfresh => exact ⟨by simpa using hverified, Nat.le_of_not_lt hfresh⟩

theorem verifyNip98Event_eq {p : Primitives} {eventJson expectedUrl expectedMethod : String}
    {body : Option (List UInt8)} {now : Nat} {event : Event}
    (hparse : p.parse eventJson = some event) (hkind : eventKindU32 event = kindHttpAuth)
    (hverified : p.verifyEvent event = true) (hfresh : Fresh event now) :
    verifyNip98Event p eventJson expectedUrl expectedMethod body now =
      verifyTags p event expectedUrl expectedMethod body := by
  simp only [verifyNip98Event, hparse, hkind, hverified, if_neg (Nat.not_lt.mpr hfresh), ne_eq,
    not_true_eq_false, Bool.not_true, Bool.false_eq_true, if_false]

/-! ## Replay markers -/

def defaultReplayTtlSecs : Nat := 120

def maxReplayTtlSecs : Nat := 3600

def nip98ReplayKeyForScope (scope : String) (event : EventId) : String :=
  "maju:" ++ scope ++ ":nip98:" ++ toHex event

universe u

variable {τ : Type u} [Semiring τ] [LinearOrder τ]

/-- A key of the store and the moment at which it vanishes. -/
structure Marker (τ : Type u) where
  key : String
  expiresAt : τ
  deriving DecidableEq, Repr

def Present (markers : List (Marker τ)) (time : τ) (key : String) : Prop :=
  ∃ m ∈ markers, m.key = key ∧ time < m.expiresAt

instance (markers : List (Marker τ)) (time : τ) (key : String) : Decidable (Present markers time key) :=
  inferInstanceAs (Decidable (∃ m ∈ markers, m.key = key ∧ time < m.expiresAt))

/-- `try_mark_in_scope`: `SET key 1 NX EX ttl`, with the lifetime clamped. -/
def tryMarkInScope (markers : List (Marker τ)) (time : τ) (scope : String) (event : EventId)
    (ttlSecs : Nat) : List (Marker τ) × Bool :=
  let ttl := max defaultReplayTtlSecs (min ttlSecs maxReplayTtlSecs)
  let key := nip98ReplayKeyForScope scope event
  if Present markers time key then (markers, false) else (⟨key, time + ttl⟩ :: markers, true)

end Auth
end Maju
