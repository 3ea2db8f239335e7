import Maju.Relay.Audio.Control

/-!
# Validation — a registration that the directory refuses

The owner means to validate a registration before it admits the peer, so that a frame that names the
wrong community touches no room.  It looks the room up first, though, and a lookup creates the room:
media datagrams carry only the channel, and a second room of the same channel makes their routing
ambiguous.

* `Unchanged` — no room, peer, roster or media route has changed;
* `refused_unchanged_iff` — a refused registration changes nothing exactly when the room of the
  named community was there before.
-/

namespace Maju
namespace Relay
namespace Audio

open Lib Core Tunnel

namespace AudioRoomManager

/-- The room under a key, with its peers and its roster. -/
def roomUnder (m : AudioRoomManager) (key : RoomKey) : Option Room :=
  (m.get key).bind m.roomAt

end AudioRoomManager

/-- The same rooms, each with the same peers and roster, and the same media routes. -/
structure Unchanged (m m' : AudioRoomManager) : Prop where
  rooms : ∀ key, (m'.get key).isSome = (m.get key).isSome
  contents : ∀ key, m'.roomUnder key = m.roomUnder key
  routes : ∀ channel, m'.getUnambiguousByChannel channel = m.getUnambiguousByChannel channel

theorem Unchanged.refl (m : AudioRoomManager) : Unchanged m m :=
  ⟨fun _ => rfl, fun _ => rfl, fun _ => rfl⟩

namespace Host

variable {host : Host} {community session : Uuid} {generation : Nat}

theorem foldl_remove_absent (h : host.rooms.get (⟨community⟩, session) = none) (ids : List Uuid) :
    ids.foldl (removeRemotePeer community session generation) host = host := by
  induction ids with
  | nil => rfl
  | cons id ids ih =>
      have hsame : host.removeRemotePeer community session generation id = host := by
        unfold removeRemotePeer
        rw [h]
      rw [List.foldl_cons, hsame]
      exact ih

theorem foldl_remove_empty {ref : Nat} (h : host.rooms.get (⟨community⟩, session) = some ref)
    (hempty : (host.roomOf ref).peers = ∅) (ids : List Uuid) :
    ids.foldl (removeRemotePeer community session generation) host = host := by
  induction ids with
  | nil => rfl
  | cons id ids ih =>
      have hnone : (host.roomOf ref).removePeerAndCheckEnded id = (host.roomOf ref, none) := by
        rcases (host.roomOf ref).removePeerAndCheckEnded_peers id with ⟨hsame, _⟩ | hremoved
        · exact hsame
        · rcases hremoved with ⟨delta, ended, hsome, _⟩
          have htake : (host.roomOf ref).takePeer id = none := by
            unfold Room.takePeer
            rw [hempty]
            rfl
          unfold Room.removePeerAndCheckEnded at hsome
          rw [htake] at hsome
          cases hsome
      have hsame : host.removeRemotePeer community session generation id = host := by
        unfold removeRemotePeer
        rw [h]
        dsimp only
        rw [hnone]
      rw [List.foldl_cons, hsame]
      exact ih

end Host

namespace Control

variable (stream : ControlStream)

/-- A `RegisterPeer` frame under the stream's fence. -/
def registerFrame (communityId : Uuid) (pubkey : Text) (protocolVersion : Nat) : ControlInput :=
  .frame (.data stream.fenced (.ok (.registerPeer communityId pubkey protocolVersion))) (.ok ())

/-- The stream ends behind a refused registration: the answer is no fence rejection, or the reply
is not sent. -/
def EndsStream (e : Directory.MeshError) (sending : Except Directory.MeshError Unit) : Prop :=
  FenceRejection.fromMeshError e = none ∨ sending ≠ .ok ()

instance (e : Directory.MeshError) (sending : Except Directory.MeshError Unit) :
    Decidable (EndsStream e sending) := inferInstanceAs (Decidable (_ ∨ _))

/-- The rooms of a pod on which the stream that latched a community ends, if it does. -/
def restHost (s : Control) (communityId : Uuid) (ends : Prop) [Decidable ends] : Host :=
  if ends then ({ s with streamCommunity := some communityId }.finish stream (.ok ()) none).host
  else s.host

theorem step_registerFrame {s : Control} {communityId : Uuid} (pubkey : Text)
    (protocolVersion : Nat) (hphase : s.phase = .serving)
    (hlatch : ∀ latched, s.streamCommunity = some latched → latched = communityId)
    (hdraining : s.host.owners.draining = false) :
    s.step stream (registerFrame stream communityId pubkey protocolVersion) =
      { s with
        streamCommunity := some communityId
        host := { s.host with
          rooms := (s.host.rooms.getOrCreate (⟨communityId⟩, stream.fenced.sessionId)).1 }
        phase := .asking (s.host.rooms.getOrCreate (⟨communityId⟩, stream.fenced.sessionId)).2
          communityId pubkey protocolVersion } := by
  have hfilter : s.streamCommunity.filter (· ≠ communityId) = none := by
    cases hcommunity : s.streamCommunity with
    | none => rfl
    | some latched =>
        rw [hlatch latched hcommunity]
        simp
  have hframe : s.step stream (registerFrame stream communityId pubkey protocolVersion) =
      s.onRegisterPeer stream communityId pubkey protocolVersion := by
    unfold step registerFrame
    rw [hphase]
    exact if_neg (not_not.2 rfl)
  rw [hframe, onRegisterPeer, hfilter]
  dsimp only
  rw [hdraining]
  rfl

theorem host_refused (s : Control) {ref : Nat} {communityId : Uuid} {pubkey : Text}
    {protocolVersion : Nat} (hphase : s.phase = .asking ref communityId pubkey protocolVersion)
    (e : Directory.MeshError) (drawn : Uuid) (sending : Except Directory.MeshError Unit) :
    (s.step stream (.directory (.error e) drawn sending)).host =
      if EndsStream e sending then (s.finish stream (.ok ()) none).host else s.host := by
  have hstep : s.step stream (.directory (.error e) drawn sending) =
      s.onAnswer stream ref pubkey protocolVersion (.error e) drawn sending := by
    unfold step
    rw [hphase]
  rw [hstep, onAnswer]
  cases hreason : FenceRejection.fromMeshError e with
  | none => rw [if_pos (.inl hreason)]; rfl
  | some reason =>
      cases sending with
      | error e' => rw [if_pos (.inr (nofun))]; rfl
      | ok u =>
          have hgoes : ¬ EndsStream e (.ok u) := by
            rintro (hnone | hfails)
            · rw [hreason] at hnone
              cases hnone
            · exact hfails rfl
          rw [if_neg hgoes]
          rfl

end Control

/-- A refused registration changes nothing exactly when the room of the community it names was
there before. -/
theorem refused_unchanged_iff (stream : ControlStream) (s : Control) (communityId : Uuid)
    (pubkey : Text) (protocolVersion : Nat) (hphase : s.phase = .serving)
    (hlatch : ∀ latched, s.streamCommunity = some latched → latched = communityId)
    (hdraining : s.host.owners.draining = false) (e : Directory.MeshError) (drawn : Uuid)
    (sending : Except Directory.MeshError Unit) :
    Unchanged (s.restHost stream communityId (Control.EndsStream e sending)).rooms
        ((s.step stream (Control.registerFrame stream communityId pubkey protocolVersion)).step
          stream (.directory (.error e) drawn sending)).host.rooms ↔
      (s.host.rooms.get (⟨communityId⟩, stream.fenced.sessionId)).isSome := by
  have hasking := Control.step_registerFrame stream pubkey protocolVersion hphase hlatch hdraining
  rw [Control.host_refused stream _ (by rw [hasking]), hasking]
  cases hroom : s.host.rooms.get (⟨communityId⟩, stream.fenced.sessionId) with
  | some ref =>
      -- the room is there: nothing is created
      rw [AudioRoomManager.getOrCreate_some hroom]
      refine iff_of_true ?_ rfl
      unfold Control.restHost
      split
      · exact .refl _
      · exact .refl _
  | none =>
      -- the new room stays, since the teardown finds no peer in it
      have hbefore : (s.restHost stream communityId (Control.EndsStream e sending)).rooms.get
          (⟨communityId⟩, stream.fenced.sessionId) = none := by
        unfold Control.restHost
        split
        · change (List.foldl _ s.host _).rooms.get _ = none
          rw [Host.foldl_remove_absent hroom]
          exact hroom
        · exact hroom
      rw [AudioRoomManager.getOrCreate_none hroom]
      refine iff_of_false (fun hunchanged => ?_) (by simp)
      have hsame := hunchanged.rooms (⟨communityId⟩, stream.fenced.sessionId)
      rw [hbefore] at hsame
      have hnew : (⟨s.host.rooms.rooms.insert (⟨communityId⟩, stream.fenced.sessionId)
          s.host.rooms.arena.length, s.host.rooms.arena ++
            [⟨(⟨communityId⟩, stream.fenced.sessionId), .new⟩]⟩ : AudioRoomManager).get
          (⟨communityId⟩, stream.fenced.sessionId) = some s.host.rooms.arena.length :=
        AList.lookup_insert _
      split at hsame
      · change (AudioRoomManager.get (List.foldl _ (Host.mk _ _) _).rooms _).isSome = _ at hsame
        rw [Host.foldl_remove_empty hnew (by simp [Host.roomOf, AudioRoomManager.roomAt]; rfl)]
          at hsame
        rw [hnew] at hsame
        cases hsame
      · rw [hnew] at hsame
        cases hsame

/-! ## A route that is lost -/

namespace Refused

/-- A stream of session 7 at its owner. -/
def stream : ControlStream := ⟨⟨7, 1, 3⟩, 3, .stored _⟩

/-- A pod with one huddle: channel 7 of community 1. -/
def host : Host := ⟨(AudioRoomManager.new.getOrCreate (⟨1⟩, 7)).1, .new⟩

def refusal : Directory.MeshError := .noActiveLease 7 1 0 3

/-- The loop behind a refused registration that names a community. -/
def handled (communityId : Uuid) : Control :=
  ((Control.start host).step stream (Control.registerFrame stream communityId ['a'] 3)).step stream
    (.directory (.error refusal) 9 (.ok ()))

end Refused

/-- A registration that names community 2 is refused, and media for channel 7 of community 1 finds
no room any more. -/
theorem refused_registration_routes :
    Refused.host.rooms.getUnambiguousByChannel 7 = some 0 ∧
    (Refused.handled 2).phase = .serving ∧
    (Refused.handled 2).host.rooms.getUnambiguousByChannel 7 = none ∧
    ¬ Unchanged Refused.host.rooms (Refused.handled 2).host.rooms := by
  have hbefore : Refused.host.rooms.getUnambiguousByChannel 7 = some 0 := by decide
  have hafter : (Refused.handled 2).host.rooms.getUnambiguousByChannel 7 = none := by
    decide
  refine ⟨hbefore, by decide, hafter, fun hunchanged => ?_⟩
  have hroute := hunchanged.routes 7
  rw [hbefore, hafter] at hroute
  cases hroute

/-- A refused registration of community 1 finds its room and changes nothing. -/
theorem refused_unchanged_present :
    Unchanged (Control.restHost Refused.stream (Control.start Refused.host) 1
        (Control.EndsStream Refused.refusal (.ok ()))).rooms (Refused.handled 1).host.rooms :=
  (refused_unchanged_iff Refused.stream (Control.start Refused.host) 1 ['a'] 3 rfl
    (fun _ hnone => nomatch hnone) rfl Refused.refusal 9 (.ok ())).2 (by decide)

end Audio
end Relay
end Maju
