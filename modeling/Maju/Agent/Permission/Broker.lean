import Maju.Lib.Decimal
import Maju.Lib.HashMap
import Maju.Lib.Json
import Maju.Lib.Run
import Maju.Lib.Text

/-!
# Broker — `session/request_permission`

Before each tool call the agent asks the client.  A call of `request_permission` waits for a permit
of the process-wide semaphore, registers a correlation entry under a fresh id, sends the request and
waits for the answer; cancellation, the deadline, a closed wire and an abort of the task may end it
at each of its awaits.  Inbound frames are classified and delivered by the id they echo.

One step is one poll of one call, one grant of the semaphore, one abort or one frame.  Which branch
of a `select!` fires is part of the input.  `minted` and `resolved` record ids; no step reads them.
-/

namespace Maju
namespace Agent

open Lib

/-! ## Frames -/

def invalidRequest : Int := -32600

inductive Inbound where
  | request (id : Json) (method : Text) (params : Json)
  | notification (method : Text) (params : Json)
  | response (id result : Json)
  | invalid (id : Json) (code : Int) (message : String)

def classify (msg : Json) : Inbound :=
  if !msg.isObject || (msg.get "jsonrpc").bind Json.asStr ≠ some "2.0".toList then
    .invalid ((msg.get "id").getD .null) invalidRequest "jsonrpc: missing or invalid version"
  else
    let params := (msg.get "params").getD .null
    match (msg.get "method").bind Json.asStr, msg.get "id" with
    | some m, some id => .request id m params
    | some m, none => .notification m params
    | none, some id =>
        -- a method that is no string, or not exactly one of result and error, is malformed
        let wellFormed := (msg.get "method").isNone && (msg.get "result").isSome &&
          (msg.get "error").isNone
        .response id (if wellFormed then (msg.get "result").getD .null else .null)
    | none, none => .invalid .null invalidRequest "jsonrpc: missing method and id"

/-! ## Ids and decisions -/

/-- The id of a request as it is sent. -/
def permId (n : Nat) : Text := "perm-".toList ++ decimal n

/-- `str::strip_prefix`. -/
def stripPrefix (p s : Text) : Option Text :=
  if p.isPrefixOf s then some (s.drop p.length) else none

/-- `parse_id`: only the text that was minted is recognized. -/
def parseId (id : Json) : Option Nat := do
  let s ← id.asStr
  let n ← (stripPrefix "perm-".toList s).bind parseU64
  if permId n = s then some n else none

inductive PermissionDecision where
  | allowed
  | denied (reason : String)
  | cancelled
  deriving DecidableEq, Repr

def permissionDeniedMsg : String := "permission denied: the tool call was not authorized"

def permissionTimeoutMsg : String :=
  "permission request timed out: the tool call was not authorized"

def permissionWireClosedMsg : String :=
  "permission request undeliverable: the tool call was not authorized"

def allowOptionId : Text := "allow_once".toList

/-- The result selects the offered allow option. -/
def selectsAllow (result : Json) : Bool :=
  let outcome := result.index "outcome"
  (outcome.index "outcome").asStr = some "selected".toList &&
    (outcome.index "optionId").asStr = some allowOptionId

def evaluate (result : Json) : PermissionDecision :=
  if selectsAllow result then .allowed else .denied permissionDeniedMsg

/-! ## Calls -/

/-- The receiving end of a response channel, closed when the sender is gone. -/
inductive Slot where
  | empty
  | value (result : Json)
  | closed

/-- `PendingPermission`; it owns one permit. -/
structure Lease where
  id : Nat
  slot : Slot

/-- Where a call of `request_permission` stands; a granted permit is not picked up yet. -/
inductive Phase where
  | admitting
  | granted
  | sending (lease : Lease)
  | waiting (lease : Lease)
  | returned (decision : PermissionDecision)
  | aborted

/-- The lease of a call, while it has one. -/
def Phase.lease : Phase → Option Lease
  | .sending lease => some lease
  | .waiting lease => some lease
  | _ => none

def Phase.setSlot (slot : Slot) : Phase → Phase
  | .sending lease => .sending { lease with slot := slot }
  | .waiting lease => .waiting { lease with slot := slot }
  | phase => phase

/-- `PermissionBroker` with the calls in progress; `pending` has the call whose sender is under an
id. -/
structure PermissionBroker where
  available : Nat
  pending : HashMap Nat Nat
  nextId : Nat
  calls : HashMap Nat Phase
  minted : List Nat
  resolved : List Nat

namespace PermissionBroker

/-- `PermissionBroker::new`. -/
def new (maxPending : Nat) : PermissionBroker := ⟨max maxPending 1, ∅, 0, ∅, [], []⟩

def setPhase (b : PermissionBroker) (call : Nat) (phase : Phase) : PermissionBroker :=
  { b with calls := b.calls.insert call phase }

/-- Put something into the channel of a call, or close it. -/
def fill (b : PermissionBroker) (call : Nat) (slot : Slot) : PermissionBroker :=
  match b.calls.lookup call with
  | some phase => b.setPhase call (phase.setSlot slot)
  | none => b

/-- Remove the entry under an id; this leaves the channel of its call as given. -/
def takeEntry (b : PermissionBroker) (id : Nat) (slot : Slot) : PermissionBroker :=
  match b.pending.lookup id with
  | some owner => { b.fill owner slot with pending := b.pending.erase id }
  | none => b

/-- Remove the entry under an id; its sender is dropped with it. -/
def removeEntry (b : PermissionBroker) (id : Nat) : PermissionBroker := b.takeEntry id .closed

/-- `register`: the call gets its lease. -/
def register (b : PermissionBroker) (call : Nat) : PermissionBroker :=
  let id := b.nextId
  let b := b.removeEntry id
  { b.setPhase call (.sending ⟨id, .empty⟩) with
    pending := b.pending.insert id call
    nextId := (id + 1) % 2 ^ 64
    minted := b.minted ++ [id] }

/-- `Drop` of the lease of a call that goes on to `phase`. -/
def dropLease (b : PermissionBroker) (call : Nat) (lease : Lease) (phase : Phase) :
    PermissionBroker :=
  let b := b.removeEntry lease.id
  { b.setPhase call phase with available := b.available + 1 }

/-- `deliver`: claim the entry, then send into it. -/
def deliver (b : PermissionBroker) (id result : Json) : PermissionBroker :=
  match parseId id with
  | none => b
  | some key =>
      match b.pending.lookup key with
      | none => b
      | some _ =>
          { b.takeEntry key (.value result) with resolved := b.resolved ++ [key] }

end PermissionBroker

/-! ## Steps -/

/-- The branch of a `select!` that fires; the turn may be cancelled by the time that a request is on
the wire. -/
inductive Branch where
  | cancelled
  | deadline
  | acquired
  | sent (cancelSeen : Bool)
  | wireClosed
  | received
  deriving DecidableEq, Repr

/-- A call starts, which returns at once when the turn is cancelled already; the semaphore assigns
it a permit; it is polled; its task is dropped; or a frame arrives. -/
inductive Input where
  | start (call : Nat) (cancelSeen : Bool)
  | grant (call : Nat)
  | poll (call : Nat) (branch : Branch)
  | abort (call : Nat)
  | frame (msg : Json)

namespace PermissionBroker

/-- A poll of a call before it has a lease. -/
def pollAdmission (b : PermissionBroker) (call : Nat) (granted : Bool) :
    Branch → PermissionBroker
  | .cancelled =>
      { b.setPhase call (.returned .cancelled) with
        available := b.available + granted.toNat }
  | .deadline =>
      { b.setPhase call (.returned (.denied permissionTimeoutMsg)) with
        available := b.available + granted.toNat }
  | .acquired => if granted then b.register call else b
  | _ => b

def pollSending (b : PermissionBroker) (call : Nat) (lease : Lease) : Branch → PermissionBroker
  | .cancelled => b.dropLease call lease (.returned .cancelled)
  | .deadline => b.dropLease call lease (.returned (.denied permissionTimeoutMsg))
  | .wireClosed => b.dropLease call lease (.returned (.denied permissionWireClosedMsg))
  | .sent true => b.dropLease call lease (.returned .cancelled)
  | .sent false => b.setPhase call (.waiting lease)
  | _ => b

/-- A poll while the answer is awaited. -/
def pollWaiting (b : PermissionBroker) (call : Nat) (lease : Lease) : Branch → PermissionBroker
  | .cancelled => b.dropLease call lease (.returned .cancelled)
  | .deadline => b.dropLease call lease (.returned (.denied permissionTimeoutMsg))
  | .received =>
      match lease.slot with
      | .empty => b
      | .value result => b.dropLease call lease (.returned (evaluate result))
      | .closed => b.dropLease call lease (.returned (.denied permissionDeniedMsg))
  | _ => b

def step (b : PermissionBroker) : Input → PermissionBroker
  | .start call cancelSeen =>
      match b.calls.lookup call with
      | some _ => b
      | none => b.setPhase call (if cancelSeen then .returned .cancelled else .admitting)
  | .grant call =>
      match b.calls.lookup call with
      | some .admitting =>
          if 0 < b.available then
            { b.setPhase call .granted with available := b.available - 1 }
          else b
      | _ => b
  | .poll call branch =>
      match b.calls.lookup call with
      | some .admitting => b.pollAdmission call false branch
      | some .granted => b.pollAdmission call true branch
      | some (.sending lease) => b.pollSending call lease branch
      | some (.waiting lease) => b.pollWaiting call lease branch
      | _ => b
  | .abort call =>
      match b.calls.lookup call with
      | some .admitting => b.setPhase call .aborted
      | some .granted => { b.setPhase call .aborted with available := b.available + 1 }
      | some (.sending lease) => b.dropLease call lease .aborted
      | some (.waiting lease) => b.dropLease call lease .aborted
      | _ => b
  | .frame msg =>
      match classify msg with
      | .response id result => b.deliver id result
      | _ => b

/-- The broker after a list of inputs. -/
def runFrom (maxPending : Nat) (inputs : List Input) : PermissionBroker :=
  Run.run step (new maxPending) inputs

end PermissionBroker

end Agent
end Maju
