import Maju.Lib.Bytes
import Maju.Lib.Outcome
import Maju.Lib.Run
import Maju.Lib.Trace
import Maju.Relay.Tunnel.Directory

/-!
# Reliable — ordered bytes over a fenced mesh stream

A reliable session sends bytes as chunks, each in a wire frame with the community, inside a mesh
frame with the fence of the session.  The receiver pins the fence, asks the directory about every
frame and latches the community of the first frame that passed.

* `WireFrame.encode`, `WireFrame.decode` — the frame inside the mesh frame, an exact codec;
* `sendBytes`, `recvValidated` — the two ends;
* `recvValidated_outcome` — what it means that a frame passed.
-/

namespace Maju
namespace Relay
namespace Tunnel

open Lib Core

/-! ## Wire frames -/

inductive GoodbyeReason where
  | sessionEnded
  | draining
  | staleGeneration
  deriving DecidableEq, Repr

/-- `ReliableWireFrame`. -/
inductive WireFrame where
  | data (communityId : CommunityId) (payload : Bytes)
  | goodbye (communityId : CommunityId) (reason : GoodbyeReason)
  deriving DecidableEq, Repr

/-- `ReliableStreamError`, as far as the two ends return it. -/
inductive ReliableStreamError where
  | mesh (error : Directory.MeshError)
  | unexpectedFrame (kind : String)
  | frameFenceMismatch (expected actual : FencedHeader)
  | communityMismatch (expected actual : CommunityId)
  | malformedReliableFrame (reason : String)
  deriving DecidableEq, Repr

namespace GoodbyeReason

def toWireByte : GoodbyeReason → UInt8
  | .sessionEnded => 1
  | .draining => 2
  | .staleGeneration => 3

def fromWireByte (byte : UInt8) : Except ReliableStreamError GoodbyeReason :=
  if byte = 1 then .ok .sessionEnded
  else if byte = 2 then .ok .draining
  else if byte = 3 then .ok .staleGeneration
  else .error (.malformedReliableFrame "unknown goodbye reason")

theorem fromWireByte_toWireByte (reason : GoodbyeReason) :
    fromWireByte reason.toWireByte = .ok reason := by
  cases reason <;> rfl

theorem toWireByte_of_fromWireByte {byte : UInt8} {reason : GoodbyeReason}
    (h : fromWireByte byte = .ok reason) : reason.toWireByte = byte := by
  unfold fromWireByte at h
  split at h
  · next hbyte =>
      cases h
      exact hbyte.symm
  · split at h
    · next hbyte =>
        cases h
        exact hbyte.symm
    · split at h
      · next hbyte =>
          cases h
          exact hbyte.symm
      · cases h

end GoodbyeReason

/-- `community_id.as_uuid().as_bytes()`. -/
def communityBytes (communityId : CommunityId) : Bytes := beBytes 16 communityId.uuid.toNat

/-- `CommunityId::from_uuid(Uuid::from_bytes(…))`. -/
def communityOfBytes (bytes : Bytes) : CommunityId := ⟨BitVec.ofNat 128 (beNat bytes)⟩

@[simp] theorem length_communityBytes (communityId : CommunityId) :
    (communityBytes communityId).length = 16 := length_beBytes 16 _

theorem communityOfBytes_communityBytes (communityId : CommunityId) :
    communityOfBytes (communityBytes communityId) = communityId := by
  have hlt : communityId.uuid.toNat < 256 ^ 16 := communityId.uuid.isLt
  rw [communityOfBytes, communityBytes, beNat_beBytes hlt, BitVec.ofNat_toNat, BitVec.setWidth_eq]

theorem communityBytes_communityOfBytes {bytes : Bytes} (h : bytes.length = 16) :
    communityBytes (communityOfBytes bytes) = bytes := by
  have hbytes := beBytes_beNat bytes
  rw [h] at hbytes
  have hlt : beNat bytes < 2 ^ 128 :=
    calc
      beNat bytes < 256 ^ bytes.length := beNat_lt bytes
      _ = 2 ^ 128 := by rw [h]; rfl
  rw [communityBytes, communityOfBytes, BitVec.toNat_ofNat, Nat.mod_eq_of_lt hlt,
    hbytes]

namespace WireFrame

def version : UInt8 := 1
def dataTag : UInt8 := 1
def goodbyeTag : UInt8 := 2

def communityId : WireFrame → CommunityId
  | .data communityId _ => communityId
  | .goodbye communityId _ => communityId

def encode : WireFrame → Bytes
  | .data communityId payload => version :: dataTag :: (communityBytes communityId ++ payload)
  | .goodbye communityId reason =>
      version :: goodbyeTag :: (communityBytes communityId ++ [reason.toWireByte])

def decode (bytes : Bytes) : Except ReliableStreamError WireFrame :=
  if bytes.length < 18 then .error (.malformedReliableFrame "too short")
  else if bytes[0]? ≠ some version then .error (.malformedReliableFrame "unknown version")
  else
    let communityId := communityOfBytes ((bytes.drop 2).take 16)
    if bytes[1]? = some dataTag then .ok (.data communityId (bytes.drop 18))
    else if bytes[1]? = some goodbyeTag then
      if bytes.length ≠ 19 then .error (.malformedReliableFrame "bad goodbye length")
      else
        match GoodbyeReason.fromWireByte (bytes.getD 18 0) with
        | .error e => .error e
        | .ok reason => .ok (.goodbye communityId reason)
    else .error (.malformedReliableFrame "unknown kind")

theorem decode_encode (frame : WireFrame) : decode frame.encode = .ok frame := by
  cases frame with
  | data communityId payload =>
      have hlen : ¬ (encode (.data communityId payload)).length < 18 := by
        simp [encode]
      have hcommunity : ((encode (.data communityId payload)).drop 2).take 16 =
          communityBytes communityId := by
        simp [encode]
      have hpayload : (encode (.data communityId payload)).drop 18 = payload := by
        simp [encode]
      rw [decode, if_neg hlen, if_neg (by simp [encode])]
      dsimp only
      rw [if_pos (by simp [encode]), hcommunity, hpayload, communityOfBytes_communityBytes]
  | goodbye communityId reason =>
      have hlen : (encode (.goodbye communityId reason)).length = 19 := by
        simp [encode]
      have hcommunity : ((encode (.goodbye communityId reason)).drop 2).take 16 =
          communityBytes communityId := by
        simp [encode]
      have hreason : (encode (.goodbye communityId reason)).getD 18 0 = reason.toWireByte := by
        simp [encode]
      rw [decode, if_neg (by omega), if_neg (by simp [encode])]
      dsimp only
      rw [if_neg (by simp [encode, dataTag, goodbyeTag]), if_pos (by simp [encode]),
        if_neg (not_not.2 hlen), hcommunity, hreason, GoodbyeReason.fromWireByte_toWireByte,
        communityOfBytes_communityBytes]

theorem eq_of_header {bytes : Bytes} {v t : UInt8} (hlen : 18 ≤ bytes.length)
    (hv : bytes[0]? = some v) (ht : bytes[1]? = some t) :
    bytes = v :: t :: ((bytes.drop 2).take 16 ++ bytes.drop 18) := by
  rcases bytes with _ | ⟨a, _ | ⟨b, rest⟩⟩
  · simp at hv
  · simp at ht
  · have ha : a = v := Option.some.inj hv
    have hb : b = t := Option.some.inj ht
    rw [ha, hb]
    exact congrArg (fun l => v :: t :: l) (List.take_append_drop 16 rest).symm

theorem drop_eq_last {bytes : Bytes} (h : bytes.length = 19) :
    bytes.drop 18 = [bytes.getD 18 0] := by
  rw [List.drop_eq_getElem_cons (by omega), List.drop_of_length_le (by omega)]
  simp [h]

theorem encode_of_decode {bytes : Bytes} {frame : WireFrame} (h : decode bytes = .ok frame) :
    frame.encode = bytes := by
  unfold decode at h
  split at h
  · cases h
  · next hshort =>
      have hlen : 18 ≤ bytes.length := Nat.le_of_not_lt hshort
      have hcommunity : ((bytes.drop 2).take 16).length = 16 := by
        simp
        omega
      split at h
      · cases h
      · next hversion =>
          have hv : bytes[0]? = some version := not_not.1 hversion
          dsimp only at h
          split at h
          · next ht =>
              cases h
              rw [encode, communityBytes_communityOfBytes hcommunity]
              exact (eq_of_header hlen hv ht).symm
          · split at h
            · next ht =>
                split at h
                · cases h
                · next hnineteen =>
                    split at h
                    · cases h
                    · next reason hreason =>
                        cases h
                        have hlast : bytes.drop 18 = [bytes.getD 18 0] :=
                          drop_eq_last (not_not.1 hnineteen)
                        rw [encode, communityBytes_communityOfBytes hcommunity,
                          GoodbyeReason.toWireByte_of_fromWireByte hreason, ← hlast]
                        exact (eq_of_header hlen hv ht).symm
            · cases h

end WireFrame

/-! ## The two ends of a stream -/

def maxReliablePayloadBytes : Nat := 1024 * 1024

/-- `MeshStreamFrame`, without the content of the kinds a reliable session refuses. -/
inductive StreamFrame where
  | hello
  | data (fenced : FencedHeader) (payload : Bytes)
  | goodbye
  | gossip
  deriving DecidableEq, Repr

/-- Validated frame from a reliable mesh stream. -/
inductive ReliableFrame where
  | data (payload : Bytes)
  | goodbye (reason : GoodbyeReason)
  deriving DecidableEq, Repr

/-- What a validated wire frame hands to the caller. -/
def WireFrame.deliver : WireFrame → ReliableFrame
  | .data _ payload => .data payload
  | .goodbye _ reason => .goodbye reason

/-- A reliable mesh stream pinned to one fenced session. -/
structure ReliableMeshStream where
  fenced : FencedHeader
  communityId : Option CommunityId
  deriving DecidableEq, Repr

/-- What `validate_fenced_header` answers at one moment. -/
abbrev Answers := CommunityId → FencedHeader → Except Directory.MeshError Unit

/-- The answers of the directory on a Redis. -/
def Redis.answers (redis : Redis) : Answers := fun communityId fenced =>
  Directory.validateFencedHeader communityId fenced
    ((SessionKeys.new communityId fenced.sessionId).slot redis)

namespace ReliableMeshStream

def ensureOutboundCommunity (communityId : CommunityId) (s : ReliableMeshStream) :
    Except ReliableStreamError ReliableMeshStream :=
  match s.communityId with
  | some expected =>
      if expected ≠ communityId then .error (.communityMismatch expected communityId) else .ok s
  | none => .ok { s with communityId := some communityId }

/-- `send_bytes` on a stream that takes every frame: the frames it sends. -/
def sendBytes (communityId : CommunityId) (bytes : Bytes) (s : ReliableMeshStream) :
    Except ReliableStreamError (ReliableMeshStream × List StreamFrame) :=
  match s.ensureOutboundCommunity communityId with
  | .error e => .error e
  | .ok s' => .ok (s', (chunks maxReliablePayloadBytes bytes).map fun chunk =>
      .data s'.fenced (WireFrame.data communityId chunk).encode)

def checkFence (fenced : FencedHeader) (s : ReliableMeshStream) : Except ReliableStreamError Unit :=
  if fenced ≠ s.fenced then .error (.frameFenceMismatch s.fenced fenced) else .ok ()

/-- The check of the latched community. -/
def checkCommunity (communityId : CommunityId) (s : ReliableMeshStream) :
    Except ReliableStreamError Unit :=
  match s.communityId with
  | some expected =>
      if expected ≠ communityId then .error (.communityMismatch expected communityId) else .ok ()
  | none => .ok ()

def latch (communityId : CommunityId) (s : ReliableMeshStream) : ReliableMeshStream :=
  if s.communityId.isNone then { s with communityId := some communityId } else s

def validateFrameFence (answers : Answers) (communityId : CommunityId) (fenced : FencedHeader) :
    EStateM ReliableStreamError ReliableMeshStream Unit := do
  reads (checkFence fenced)
  reads (checkCommunity communityId)
  reads fun _ => (answers communityId fenced).mapError .mesh
  modify (latch communityId)

/-- `recv_validated` on what the mesh stream returns next. -/
def recvValidated (answers : Answers) (incoming : Except Directory.MeshError (Option StreamFrame)) :
    EStateM ReliableStreamError ReliableMeshStream (Option ReliableFrame) := do
  let frame ← reads fun _ => incoming.mapError .mesh
  match frame with
  | none => return none
  | some (.data fenced payload) => do
      let frame ← reads fun _ => WireFrame.decode payload
      validateFrameFence answers frame.communityId fenced
      return some frame.deliver
  | some .goodbye => throw (.unexpectedFrame "goodbye")
  | some .hello => throw (.unexpectedFrame "hello")
  | some .gossip => throw (.unexpectedFrame "gossip")

/-! ## What a reception means -/

/-- A frame passed: it carried the pinned fence, the directory accepted it for its community, and
the community is the latched one. -/
structure Passed (answers : Answers) (s : ReliableMeshStream)
    (incoming : Except Directory.MeshError (Option StreamFrame)) (frame : WireFrame)
    (s' : ReliableMeshStream) : Prop where
  fence : ∃ payload, incoming = .ok (some (.data s.fenced payload)) ∧
    WireFrame.decode payload = .ok frame
  accepted : answers frame.communityId s.fenced = .ok ()
  community : ∀ c, s.communityId = some c → frame.communityId = c
  latched : s' = { s with communityId := some frame.communityId }

variable {answers : Answers} {s : ReliableMeshStream}

theorem validateFrameFence_outcome (communityId : CommunityId) (fenced : FencedHeader) :
    Outcome (validateFrameFence answers communityId fenced) s
      (fun _ s' => fenced = s.fenced ∧ answers communityId s.fenced = .ok () ∧
        (∀ c, s.communityId = some c → communityId = c) ∧
        s' = { s with communityId := some communityId })
      (fun _ s' => s' = s) := by
  refine Outcome.reads_bind (fun _ _ => rfl) fun _ hfence => ?_
  refine Outcome.reads_bind (fun _ _ => rfl) fun _ hcommunity => ?_
  refine Outcome.reads_bind (fun _ _ => rfl) fun _ hanswer => ?_
  have hpinned : fenced = s.fenced := by
    unfold checkFence at hfence
    split at hfence
    · cases hfence
    · next h => exact not_not.1 h
  have hlatched : ∀ c, s.communityId = some c → communityId = c := by
    intro c hc
    unfold checkCommunity at hcommunity
    rw [hc] at hcommunity
    dsimp only at hcommunity
    split at hcommunity
    · cases hcommunity
    · next h => exact (not_not.1 h).symm
  have haccepted : answers communityId s.fenced = .ok () := by
    rw [← hpinned]
    cases hresult : answers communityId fenced with
    | error e =>
        rw [hresult] at hanswer
        cases hanswer
    | ok u => rfl
  refine ⟨hpinned, haccepted, hlatched, ?_⟩
  rcases s with ⟨pinned, community⟩
  cases community with
  | none => rfl
  | some c =>
      rw [hlatched c rfl]
      rfl

/-- A reception ends with nothing, with a frame that passed, or with an error that leaves the
stream as it was. -/
theorem recvValidated_outcome (incoming : Except Directory.MeshError (Option StreamFrame)) :
    Outcome (recvValidated answers incoming) s
      (fun result s' => (result = none ∧ s' = s) ∨
        ∃ frame, result = some frame.deliver ∧ Passed answers s incoming frame s')
      (fun _ s' => s' = s) := by
  refine Outcome.reads_bind (fun _ _ => rfl) fun next hnext => ?_
  have hincoming : incoming = .ok next := by
    cases incoming with
    | error e => cases hnext
    | ok frame =>
        have hframe : frame = next := Except.ok.inj hnext
        rw [hframe]
  match next with
  | none => exact .inl ⟨rfl, rfl⟩
  | some .goodbye => rfl
  | some .hello => rfl
  | some .gossip => rfl
  | some (.data fenced payload) =>
      refine Outcome.reads_bind (fun _ _ => rfl) fun frame hframe => ?_
      refine Outcome.bind ((validateFrameFence_outcome frame.communityId fenced).mono ?_ ?_)
      · rintro _ s' ⟨rfl, haccepted, hcommunity, hs'⟩
        exact .inr ⟨frame, rfl, ⟨payload, hincoming, hframe⟩, haccepted, hcommunity, hs'⟩
      · exact fun _ _ hs' => hs'

end ReliableMeshStream

end Tunnel
end Relay
end Maju
