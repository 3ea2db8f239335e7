import Maju.Lib.Run
import Maju.Relay.Audio.Manager
import Maju.Relay.Audio.Owners
import Maju.Relay.Tunnel.Reliable

/-!
# Control — the owner's side of a huddle-control stream

A pod whose client joins a huddle that another pod owns opens a control stream to the owner.  The
owner serves it in a loop: it registers the pod's clients as peers of its own room, after the
session directory has confirmed the fence, removes them on request, and forwards the roster.

* `removeRemotePeer` — one peer leaves, and an empty room ends;
* `Control` — the loop between two events, with the map of the peers it registered;
* `Control.step` — one event: a frame, a roster event, the directory's answer, a lost or draining
  owner, or what other tasks of the pod do in the meantime.

A broken loop ends in its teardown; an error behind the `?` operator returns at once.  Encoding a
message does not fail, and the media sinks of the peers are left out.
-/

namespace Maju
namespace Relay
namespace Audio

open Lib Core Tunnel

/-! ## Messages -/

inductive FenceRejection where
  | staleGeneration
  | noActiveLease
  | ownerMismatch
  | futureGeneration
  deriving DecidableEq, Repr

def FenceRejection.fromMeshError : Directory.MeshError → Option FenceRejection
  | .staleGeneration _ _ _ => some .staleGeneration
  | .noActiveLease _ _ _ _ => some .noActiveLease
  | .ownerMismatch _ _ _ _ => some .ownerMismatch
  | .futureGeneration _ _ _ => some .futureGeneration
  | .transport => none

inductive RegisterRejection where
  | roomFull
  | roomEnded
  | versionMismatch (pinned requested : Nat)
  | fenced (reason : FenceRejection)
  deriving DecidableEq, Repr

def admissionToRejection : AdmissionError → RegisterRejection
  | .full => .roomFull
  | .ended => .roomEnded
  | .versionMismatch pinned requested => .versionMismatch pinned requested

inductive HuddleControlMsg where
  | registerPeer (communityId : Uuid) (pubkey : Text) (protocolVersion : Nat)
  | peerRegistered (pubkey : Text) (peerIndex epoch : Nat) (roster : RosterSnapshot)
  | rosterSnapshot (snapshot : RosterSnapshot)
  | rosterDelta (delta : RosterDelta)
  | rosterResync
  | registerRejected (pubkey : Text) (reason : RegisterRejection)
  | unregisterPeer (pubkey : Text)
  deriving DecidableEq, Repr

/-- What `recv_frame` returns; a payload is given as what it decodes to. -/
inductive ControlFrame where
  | data (fenced : FencedHeader) (payload : Except Directory.MeshError HuddleControlMsg)
  | goodbye
  | closed
  | other
  | failed (error : Directory.MeshError)
  deriving DecidableEq

/-- What the roster channel returns. -/
inductive RosterEvent where
  | delta (delta : RosterDelta)
  | lagged
  | closed
  deriving DecidableEq, Repr

/-- What the loop returns as an error. -/
inductive ControlError where
  | mesh (error : Directory.MeshError)
  | unexpectedFrame
  | communityChanged (latched communityId : Uuid)
  | unexpectedReply
  deriving DecidableEq, Repr

/-- What the loop hands to the stream, delivered or not. -/
inductive Outgoing where
  | message (msg : HuddleControlMsg)
  | goodbye (reason : GoodbyeReason)
  deriving DecidableEq, Repr

/-! ## The pod -/

/-- The rooms and the owner registry that all tasks of a pod share. -/
structure Host where
  rooms : AudioRoomManager
  owners : Registry

/-- What other tasks do to them: local clients, other streams and the lease renewers. -/
inductive HostOp where
  | getOrCreate (key : RoomKey)
  | room (ref : Nat) (op : RoomOp)
  | cleanupIfEmpty (key : RoomKey)
  | owners (owners : Registry)

namespace Host

def run (host : Host) : HostOp → Host
  | .getOrCreate key => { host with rooms := (host.rooms.getOrCreate key).1 }
  | .room ref op => { host with rooms := host.rooms.update ref fun room => (room.step op).1 }
  | .cleanupIfEmpty key => { host with rooms := (host.rooms.cleanupIfEmpty key).1 }
  | .owners owners => { host with owners := owners }

/-- The room at an address that was handed out. -/
def roomOf (host : Host) (ref : Nat) : Room := (host.rooms.roomAt ref).getD .new

def removeRemotePeer (community : Uuid) (session : Uuid) (generation : Nat) (host : Host)
    (peerId : Uuid) : Host :=
  match host.rooms.get (⟨community⟩, session) with
  | none => host
  | some ref =>
      match (host.roomOf ref).removePeerAndCheckEnded peerId with
      | (_, none) => host
      | (room, some (_, shouldEnd)) =>
          let rooms := host.rooms.update ref fun _ => room
          if shouldEnd then
            match rooms.cleanupIfEmpty (⟨community⟩, session) with
            | (rooms, true) => ⟨rooms, host.owners.release session generation⟩
            | (rooms, false) => { host with rooms := rooms }
          else { host with rooms := rooms }

end Host

/-! ## The loop -/

/-- What a stream is about: its fence, the pod that serves it, and the order in which the map of
its peers is visited. -/
structure ControlStream where
  fenced : FencedHeader
  localRuntimeId : RuntimeId
  order : IterOrder (Sigma fun _ : Text => Uuid)

/-- Where the loop is; `asking` has looked the room up and asks the directory. -/
inductive Phase where
  | serving
  | asking (room : Nat) (communityId : Uuid) (pubkey : Text) (protocolVersion : Nat)
  | returned (result : Except ControlError Unit)
  deriving DecidableEq

/-- The state of a loop: whether the roster subscription is there, and every peer that this stream
was admitted with. -/
structure Control where
  host : Host
  phase : Phase
  registered : HashMap Text Uuid
  streamCommunity : Option Uuid
  rosterRx : Bool
  outbox : List Outgoing
  admitted : List Uuid

/-- What reaches a loop, with how a message about it is sent, and with the directory's answer the id
that an admission draws. -/
inductive ControlInput where
  | others (op : HostOp)
  | drainFired
  | lostFired
  | rosterEvent (event : RosterEvent) (sending : Except Directory.MeshError Unit)
  | frame (frame : ControlFrame) (sending : Except Directory.MeshError Unit)
  | directory (answer : Except Directory.MeshError Unit) (drawn : Uuid)
      (sending : Except Directory.MeshError Unit)

namespace Control

def start (host : Host) : Control where
  host := host
  phase := .serving
  registered := ∅
  streamCommunity := none
  rosterRx := false
  outbox := []
  admitted := []

variable (stream : ControlStream)

/-- `break`: the goodbye, if there is a reason for one, and the teardown of every registered
peer. -/
def finish (s : Control) (result : Except ControlError Unit) (reason : Option GoodbyeReason) :
    Control :=
  { s with
    phase := .returned result
    outbox := s.outbox ++ (reason.map Outgoing.goodbye).toList
    host :=
      match s.streamCommunity with
      | none => s.host
      | some community =>
          ((stream.order.run s.registered.entries).map fun e => e.2).foldl
            (Host.removeRemotePeer community stream.fenced.sessionId stream.fenced.generation)
            s.host }

/-- A send behind the `?` operator: an error returns at once. -/
def sendOrReturn (s : Control) (msg : HuddleControlMsg)
    (sending : Except Directory.MeshError Unit) : Control :=
  match sending with
  | .ok () => { s with outbox := s.outbox ++ [Outgoing.message msg] }
  | .error e =>
      { s with outbox := s.outbox ++ [.message msg], phase := .returned (.error (.mesh e)) }

/-- `roster_snapshot_msg` of the stream's room, when the manager has it. -/
def snapshotMsg (s : Control) : Option HuddleControlMsg :=
  s.streamCommunity.bind fun community =>
    (s.host.rooms.get (⟨community⟩, stream.fenced.sessionId)).map fun ref =>
      .rosterSnapshot (s.host.roomOf ref).rosterSnapshot

def onRosterEvent (s : Control) (event : RosterEvent) (sending : Except Directory.MeshError Unit) :
    Control :=
  match event with
  | .closed => s.finish stream (.ok ()) none
  | .lagged =>
      match s.snapshotMsg stream with
      | none => s.finish stream (.ok ()) none
      | some msg => s.sendOrReturn msg sending
  | .delta delta => s.sendOrReturn (.rosterDelta delta) sending

/-- `RegisterPeer`, up to the question to the directory. -/
def onRegisterPeer (s : Control) (communityId : Uuid) (pubkey : Text) (protocolVersion : Nat) :
    Control :=
  match s.streamCommunity.filter (· ≠ communityId) with
  | some latched => s.finish stream (.error (.communityChanged latched communityId)) none
  | none =>
      let s := { s with streamCommunity := some communityId }
      if s.host.owners.draining then s.finish stream (.ok ()) (some .draining)
      else
        match s.host.rooms.getOrCreate (⟨communityId⟩, stream.fenced.sessionId) with
        | (rooms, ref) =>
            { s with
              host := { s.host with rooms := rooms }
              phase := .asking ref communityId pubkey protocolVersion }

/-- `UnregisterPeer`. -/
def onUnregisterPeer (s : Control) (pubkey : Text) : Control :=
  match s.registered.lookup pubkey with
  | none => s
  | some peerId =>
      { s with
        registered := s.registered.erase pubkey
        host :=
          match s.streamCommunity with
          | none => s.host
          | some community =>
              s.host.removeRemotePeer community stream.fenced.sessionId stream.fenced.generation
                peerId }

def onMessage (s : Control) (msg : HuddleControlMsg) (sending : Except Directory.MeshError Unit) :
    Control :=
  match msg with
  | .registerPeer communityId pubkey protocolVersion =>
      s.onRegisterPeer stream communityId pubkey protocolVersion
  | .unregisterPeer pubkey => s.onUnregisterPeer stream pubkey
  | .rosterResync =>
      match s.snapshotMsg stream with
      | none => s.finish stream (.ok ()) none
      | some msg => s.sendOrReturn msg sending
  | _ => s.finish stream (.error .unexpectedReply) none

/-- The frame arm of the loop: every frame carries the fence of the hello. -/
def onFrame (s : Control) (frame : ControlFrame) (sending : Except Directory.MeshError Unit) :
    Control :=
  match frame with
  | .data fenced payload =>
      if fenced ≠ stream.fenced then
        s.finish stream
          (.error (.mesh (.ownerMismatch stream.fenced.sessionId fenced.generation
            fenced.ownerRuntimeId stream.localRuntimeId))) none
      else
        match payload with
        | .error e => s.finish stream (.error (.mesh e)) none
        | .ok msg => s.onMessage stream msg sending
  | .goodbye => s.finish stream (.ok ()) none
  | .closed => s.finish stream (.ok ()) none
  | .other => s.finish stream (.error .unexpectedFrame) none
  | .failed e => s.finish stream (.error (.mesh e)) none

/-- The reply to a registration is sent; here an error breaks the loop. -/
def reply (s : Control) (msg : HuddleControlMsg) (subscribed : Bool)
    (sending : Except Directory.MeshError Unit) : Control :=
  let s := { s with outbox := s.outbox ++ [Outgoing.message msg] }
  match sending with
  | .error e => s.finish stream (.error (.mesh e)) none
  | .ok () => { s with phase := .serving, rosterRx := s.rosterRx || subscribed }

/-- `RegisterPeer` behind the directory's answer, with `register_remote_peer`. -/
def onAnswer (s : Control) (ref : Nat) (pubkey : Text) (protocolVersion : Nat)
    (answer : Except Directory.MeshError Unit) (drawn : Uuid)
    (sending : Except Directory.MeshError Unit) : Control :=
  match answer with
  | .error e =>
      match FenceRejection.fromMeshError e with
      | some reason => s.reply stream (.registerRejected pubkey (.fenced reason)) false sending
      | none => s.finish stream (.error (.mesh e)) none
  | .ok () =>
      match (s.host.roomOf ref).addPeer drawn pubkey protocolVersion with
      | (room, .error reason) =>
          { s with host := { s.host with rooms := s.host.rooms.update ref fun _ => room } }.reply
            stream (.registerRejected pubkey (admissionToRejection reason)) false sending
      | (room, .ok admission) =>
          { s with
            host := { s.host with rooms := s.host.rooms.update ref fun _ => room }
            registered := s.registered.insert pubkey drawn
            admitted := s.admitted ++ [drawn] }.reply stream
              (.peerRegistered pubkey admission.peerIndex admission.epoch room.rosterSnapshot) true
              sending

/-- One event.  While the directory is asked the loop waits, and what does not concern it in its
phase leaves it as it is. -/
def step (s : Control) (input : ControlInput) : Control :=
  match input, s.phase with
  | .others op, _ => { s with host := s.host.run op }
  | .drainFired, .serving => s.finish stream (.ok ()) (some .draining)
  | .lostFired, .serving => s.finish stream (.ok ()) (some .staleGeneration)
  | .rosterEvent event sending, .serving =>
      if s.rosterRx then s.onRosterEvent stream event sending else s
  | .frame frame sending, .serving => s.onFrame stream frame sending
  | .directory answer drawn sending, .asking ref _ pubkey protocolVersion =>
      s.onAnswer stream ref pubkey protocolVersion answer drawn sending
  | _, _ => s

end Control

end Audio
end Relay
end Maju
