import Maju.Relay.Tunnel.Reliable

/-!
# Delivery — runs of a reliable stream

Two ends share a mesh stream that loses and reorders nothing.  While the lease of the session
stands, the receiver gets exactly the bytes that the sender was allowed to send.  On any stream,
whatever arrives and whatever the directory answers, a payload is handed out only behind the fence.

* `Link` — a sender, the frames in flight and a receiver;
* `End` — one end, with the log of its receptions;
* `reliable_stream` — the codec, the link and the fence in one statement.
-/

namespace Maju
namespace Relay
namespace Tunnel

open Lib Core

/-! ## Both ends of a stream -/

/-- Both ends of a stream, the frames in flight, and the bytes sent and delivered so far. -/
structure Link where
  sender : ReliableMeshStream
  receiver : ReliableMeshStream
  inFlight : List StreamFrame
  sent : Bytes
  delivered : Bytes
  deriving DecidableEq, Repr

namespace Link

inductive Input where
  | sendBytes (communityId : CommunityId) (bytes : Bytes)
  | recvValidated (answers : Answers)

def start (sender receiver : ReliableMeshStream) : Link where
  sender := sender
  receiver := receiver
  inFlight := []
  sent := []
  delivered := []

/-- A call at one end.  A receiver with nothing to receive waits. -/
def step (link : Link) : Input → Link
  | .sendBytes communityId bytes =>
      match link.sender.sendBytes communityId bytes with
      | .ok (sender, frames) =>
          { link with
            sender := sender
            inFlight := link.inFlight ++ frames
            sent := link.sent ++ bytes }
      | .error _ => link
  | .recvValidated answers =>
      match link.inFlight with
      | [] => link
      | frame :: rest =>
          match ReliableMeshStream.recvValidated answers (.ok (some frame)) link.receiver with
          | .ok (some (.data payload)) receiver =>
              { link with
                receiver := receiver
                inFlight := rest
                delivered := link.delivered ++ payload }
          | .ok _ receiver => { link with receiver := receiver, inFlight := rest }
          | .error _ receiver => { link with receiver := receiver, inFlight := rest }

/-- The lease of the session belongs to `communityId` and stands: a first send names it, and the
directory accepts it. -/
def Leased (communityId : CommunityId) (link : Link) : Input → Prop
  | .sendBytes c _ => link.sender.communityId = none → c = communityId
  | .recvValidated answers => answers communityId link.receiver.fenced = .ok ()

/-- The stream is not latched to another community. -/
def Fits (communityId : CommunityId) (s : ReliableMeshStream) : Prop :=
  ∀ c, s.communityId = some c → c = communityId

def chunkFrame (fenced : FencedHeader) (communityId : CommunityId) (chunk : Bytes) : StreamFrame :=
  .data fenced (WireFrame.data communityId chunk).encode

/-- The invariant of a link under a standing lease: what is in flight are chunks of the lease's
community, and they are what was sent and not yet delivered. -/
structure Inv (communityId : CommunityId) (fenced : FencedHeader) (link : Link) : Prop where
  senderFence : link.sender.fenced = fenced
  receiverFence : link.receiver.fenced = fenced
  senderFits : Fits communityId link.sender
  receiverFits : Fits communityId link.receiver
  pending : ∃ pending : List Bytes, link.inFlight = pending.map (chunkFrame fenced communityId) ∧
    link.delivered ++ pending.flatten = link.sent

variable {communityId : CommunityId} {fenced : FencedHeader} {link : Link}

theorem Inv.start {sender receiver : ReliableMeshStream} (hsender : sender.fenced = fenced)
    (hreceiver : receiver.fenced = fenced) (hsenderFits : Fits communityId sender)
    (hreceiverFits : Fits communityId receiver) :
    Inv communityId fenced (Link.start sender receiver) :=
  ⟨hsender, hreceiver, hsenderFits, hreceiverFits, [], rfl, rfl⟩

theorem sendBytes_ok {c : CommunityId} {bytes : Bytes} {s s' : ReliableMeshStream}
    {frames : List StreamFrame} (h : s.sendBytes c bytes = .ok (s', frames))
    (hfits : Fits communityId s) (hfirst : s.communityId = none → c = communityId) :
    s' = { s with communityId := some communityId } ∧
      frames = (Lib.chunks maxReliablePayloadBytes bytes).map (chunkFrame s.fenced communityId) := by
  rcases s with ⟨pinned, community⟩
  unfold ReliableMeshStream.sendBytes ReliableMeshStream.ensureOutboundCommunity at h
  cases community with
  | none =>
      cases hfirst rfl
      cases h
      exact ⟨rfl, rfl⟩
  | some expected =>
      cases hfits expected rfl
      dsimp only at h
      by_cases hc : communityId = c
      · subst hc
        rw [if_neg (not_not.2 rfl)] at h
        cases h
        exact ⟨rfl, rfl⟩
      · rw [if_pos hc] at h
        cases h

theorem recvValidated_chunk {answers : Answers} {s : ReliableMeshStream} (chunk : Bytes)
    (hfence : s.fenced = fenced) (hfits : Fits communityId s)
    (haccept : answers communityId fenced = .ok ()) :
    ReliableMeshStream.recvValidated answers (.ok (some (chunkFrame fenced communityId chunk))) s =
      .ok (some (.data chunk)) { s with communityId := some communityId } := by
  rcases s with ⟨pinned, community⟩
  cases hfence
  have hdecode := WireFrame.decode_encode (.data communityId chunk)
  have hcommunity : ReliableMeshStream.checkCommunity communityId ⟨pinned, community⟩ =
      .ok () := by
    cases community with
    | none => rfl
    | some expected =>
        cases hfits expected rfl
        exact if_neg (not_not.2 rfl)
  have hlatch : ReliableMeshStream.latch communityId ⟨pinned, community⟩ =
      ⟨pinned, some communityId⟩ := by
    cases community with
    | none => rfl
    | some expected =>
        cases hfits expected rfl
        rfl
  have hpinned : ReliableMeshStream.checkFence pinned ⟨pinned, community⟩ = .ok () :=
    if_neg (not_not.2 rfl)
  have hmodify : (modify (ReliableMeshStream.latch communityId) :
      EStateM ReliableStreamError ReliableMeshStream PUnit) =
        fun s => .ok () (ReliableMeshStream.latch communityId s) := rfl
  simp [ReliableMeshStream.recvValidated, ReliableMeshStream.validateFrameFence, chunkFrame, reads,
    bind, EStateM.bind, Except.mapError, hdecode, WireFrame.communityId, hpinned, hcommunity,
    haccept, hmodify, hlatch, pure, EStateM.pure, WireFrame.deliver]

theorem Inv.step (h : Inv communityId fenced link) {input : Input}
    (hleased : Leased communityId link input) : Inv communityId fenced (link.step input) := by
  rcases h.pending with ⟨pending, hflight, hsent⟩
  cases input with
  | sendBytes c bytes =>
      unfold Link.step
      dsimp only
      split
      · next sender frames hsend =>
          rcases sendBytes_ok hsend h.senderFits hleased with ⟨hsender, hframes⟩
          have hfits : Fits communityId sender := by
            intro c' hc'
            rw [hsender] at hc'
            exact (Option.some.inj hc').symm
          refine ⟨by rw [hsender]; exact h.senderFence, h.receiverFence, hfits, h.receiverFits,
            pending ++ Lib.chunks maxReliablePayloadBytes bytes, ?_, ?_⟩
          · rw [List.map_append, ← hflight, hframes, h.senderFence]
          · calc
              link.delivered ++ (pending ++ Lib.chunks maxReliablePayloadBytes bytes).flatten
                  = (link.delivered ++ pending.flatten) ++
                      (Lib.chunks maxReliablePayloadBytes bytes).flatten := by
                    rw [List.flatten_append, List.append_assoc]
              _ = link.sent ++ bytes := by
                    rw [hsent, flatten_chunks (by decide)]
      · exact h
  | recvValidated answers =>
      cases pending with
      | nil =>
          have hempty : link.inFlight = [] := hflight
          unfold Link.step
          rw [hempty]
          exact h
      | cons chunk rest =>
          have hfirst : link.inFlight =
              chunkFrame fenced communityId chunk :: rest.map (chunkFrame fenced communityId) :=
            hflight
          have haccept : answers communityId fenced = .ok () := h.receiverFence ▸ hleased
          unfold Link.step
          rw [hfirst]
          dsimp only
          rw [recvValidated_chunk chunk h.receiverFence h.receiverFits haccept]
          refine ⟨h.senderFence, h.receiverFence, h.senderFits, ?_, rest, rfl, ?_⟩
          · intro c hc
            exact (Option.some.inj hc).symm
          · rw [List.append_assoc]
            exact hsent

theorem length_inFlight_recv (answers : Answers) :
    (link.step (.recvValidated answers)).inFlight.length = link.inFlight.length - 1 := by
  unfold Link.step
  dsimp only
  cases hflight : link.inFlight with
  | nil => simp [hflight]
  | cons frame rest =>
      dsimp only
      split
      · rfl
      · rfl
      · rfl

theorem sent_recv (answers : Answers) :
    (link.step (.recvValidated answers)).sent = link.sent := by
  unfold Link.step
  dsimp only
  cases link.inFlight with
  | nil => rfl
  | cons frame rest =>
      dsimp only
      split
      · rfl
      · rfl
      · rfl

theorem inFlight_drained (answers : Answers) {n : Nat} (h : link.inFlight.length ≤ n) :
    (Run.run Link.step link (List.replicate n (.recvValidated answers))).inFlight = [] := by
  induction n generalizing link with
  | zero => exact List.length_eq_zero_iff.1 (Nat.le_zero.1 h)
  | succ n ih =>
      refine ih ?_
      rw [length_inFlight_recv]
      omega

theorem Inv.drain (h : Inv communityId fenced link) {answers : Answers}
    (haccept : answers communityId fenced = .ok ()) (n : Nat) :
    Inv communityId fenced (Run.run Link.step link (List.replicate n (.recvValidated answers))) ∧
      (Run.run Link.step link (List.replicate n (.recvValidated answers))).sent = link.sent := by
  induction n generalizing link with
  | zero => exact ⟨h, rfl⟩
  | succ n ih =>
      have hleased : Leased communityId link (.recvValidated answers) := by
        rw [Leased, h.receiverFence]
        exact haccept
      have hnext := ih (h.step hleased)
      exact ⟨hnext.1, hnext.2.trans (sent_recv answers)⟩

theorem Inv.delivered (h : Inv communityId fenced link) :
    link.delivered <+: link.sent ∧ (link.inFlight = [] → link.delivered = link.sent) := by
  rcases h.pending with ⟨pending, hflight, hsent⟩
  refine ⟨⟨_, hsent⟩, fun hempty => ?_⟩
  have hnone : pending = [] := List.map_eq_nil_iff.1 (hflight.symm.trans hempty)
  rw [hnone] at hsent
  simpa using hsent

end Link

/-! ## One end -/

/-- One call of `recv_validated`. -/
structure Reception where
  stream : ReliableMeshStream
  answers : Answers
  incoming : Except Directory.MeshError (Option StreamFrame)
  result : Except ReliableStreamError (Option ReliableFrame)
  next : ReliableMeshStream

/-- One end of a stream with the log of its receptions. -/
structure End where
  stream : ReliableMeshStream
  log : List Reception

namespace End

inductive Input where
  | sendBytes (communityId : CommunityId) (bytes : Bytes)
  | recvValidated (answers : Answers)
      (incoming : Except Directory.MeshError (Option StreamFrame))

/-- A call on one end: a send that is refused leaves the stream as it was. -/
def step (s : End) : Input → End
  | .sendBytes communityId bytes =>
      match s.stream.sendBytes communityId bytes with
      | .ok (stream, _) => { s with stream := stream }
      | .error _ => s
  | .recvValidated answers incoming =>
      match ReliableMeshStream.recvValidated answers incoming s.stream with
      | .ok result next => ⟨next, s.log ++ [⟨s.stream, answers, incoming, .ok result, next⟩]⟩
      | .error e next => ⟨next, s.log ++ [⟨s.stream, answers, incoming, .error e, next⟩]⟩

end End

/-- The wire frame that a reception handed out. -/
def Reception.Delivered (r : Reception) (frame : WireFrame) : Prop :=
  r.result = .ok (some frame.deliver) ∧
    ∃ fenced payload, r.incoming = .ok (some (.data fenced payload)) ∧
      WireFrame.decode payload = .ok frame

/-- What holds of a reception on a stream pinned to `fenced`, given the receptions before it.  What
is handed out carried the pinned fence, which the directory accepted for its community, the
community of everything handed out before; a rejection leaves the latch as it was. -/
structure Reception.Fenced (fenced : FencedHeader) (before : List Reception) (r : Reception) :
    Prop where
  delivered : ∀ result, r.result = .ok (some result) →
    ∃ frame payload, result = frame.deliver ∧
      r.incoming = .ok (some (.data fenced payload)) ∧ WireFrame.decode payload = .ok frame ∧
      r.answers frame.communityId fenced = .ok () ∧
      ∀ earlier ∈ before, ∀ frame', earlier.Delivered frame' →
        frame'.communityId = frame.communityId
  rejected : ∀ e, r.result = .error e → r.next.communityId = r.stream.communityId

namespace End

variable {fenced : FencedHeader} {s : End}

/-- The invariant of one end: everything handed out is of the latched community. -/
structure Inv (fenced : FencedHeader) (s : End) : Prop where
  fence : s.stream.fenced = fenced
  latched : ∀ r ∈ s.log, ∀ frame, r.Delivered frame →
    s.stream.communityId = some frame.communityId
  fencedLog : AtEach (Reception.Fenced fenced) s.log

theorem sendBytes_latched {c : CommunityId} {bytes : Bytes} {stream stream' : ReliableMeshStream}
    {frames : List StreamFrame} (h : stream.sendBytes c bytes = .ok (stream', frames)) :
    stream'.fenced = stream.fenced ∧
      ∀ latched, stream.communityId = some latched → stream'.communityId = some latched := by
  rcases stream with ⟨pinned, community⟩
  unfold ReliableMeshStream.sendBytes ReliableMeshStream.ensureOutboundCommunity at h
  cases community with
  | none =>
      cases h
      exact ⟨rfl, fun _ hnone => nomatch hnone⟩
  | some expected =>
      dsimp only at h
      by_cases hc : expected = c
      · rw [if_neg (not_not.2 hc)] at h
        cases h
        exact ⟨rfl, fun _ hlatched => hlatched⟩
      · rw [if_pos hc] at h
        cases h

theorem frame_of_delivered {r : Reception} {frame frame' : WireFrame} {payload : Bytes}
    {pinned : FencedHeader} (h : r.Delivered frame')
    (hincoming : r.incoming = .ok (some (.data pinned payload)))
    (hframe : WireFrame.decode payload = .ok frame) : frame' = frame := by
  rcases h with ⟨_, fence', payload', hincoming', hframe'⟩
  have hsame := hincoming'.symm.trans hincoming
  cases hsame
  exact Except.ok.inj (hframe'.symm.trans hframe)

theorem Inv.receive (h : Inv fenced s) {answers : Answers}
    {incoming : Except Directory.MeshError (Option StreamFrame)} {frame : WireFrame}
    {next : ReliableMeshStream}
    (hpassed : ReliableMeshStream.Passed answers s.stream incoming frame next) :
    Inv fenced ⟨next, s.log ++ [⟨s.stream, answers, incoming, .ok (some frame.deliver), next⟩]⟩ := by
  rcases hpassed.fence with ⟨payload, hincoming, hframe⟩
  have hlatch : next.communityId = some frame.communityId := by rw [hpassed.latched]
  have hearlier : ∀ r ∈ s.log, ∀ frame', r.Delivered frame' →
      frame'.communityId = frame.communityId := fun r hr frame' hdelivered =>
    (hpassed.community _ (h.latched r hr frame' hdelivered)).symm
  refine ⟨by rw [hpassed.latched]; exact h.fence, ?_, h.fencedLog.concat ⟨?_, ?_⟩⟩
  · intro r hr frame' hdelivered
    rcases List.mem_append.1 hr with hold | hnew
    · rw [hlatch, hearlier r hold frame' hdelivered]
    · cases List.mem_singleton.1 hnew
      rw [hlatch, frame_of_delivered hdelivered hincoming hframe]
  · intro result hresult
    cases hresult
    refine ⟨frame, payload, rfl, ?_, hframe, ?_, hearlier⟩
    · rw [← h.fence]
      exact hincoming
    · rw [← h.fence]
      exact hpassed.accepted
  · intro e herror
    cases herror

theorem Inv.receive_nothing (h : Inv fenced s) {answers : Answers}
    {incoming : Except Directory.MeshError (Option StreamFrame)}
    {result : Except ReliableStreamError (Option ReliableFrame)}
    (hnothing : ∀ out, result ≠ .ok (some out)) :
    Inv fenced ⟨s.stream, s.log ++ [⟨s.stream, answers, incoming, result, s.stream⟩]⟩ := by
  refine ⟨h.fence, ?_, h.fencedLog.concat ⟨?_, ?_⟩⟩
  · intro r hr frame hdelivered
    rcases List.mem_append.1 hr with hold | hnew
    · exact h.latched r hold frame hdelivered
    · cases List.mem_singleton.1 hnew
      exact absurd hdelivered.1 (hnothing _)
  · intro out hout
    exact absurd hout (hnothing out)
  · exact fun _ _ => rfl

theorem Inv.step (h : Inv fenced s) (input : Input) : Inv fenced (s.step input) := by
  cases input with
  | sendBytes c bytes =>
      unfold End.step
      dsimp only
      split
      · next stream frames hsend =>
          rcases sendBytes_latched hsend with ⟨hfence, hlatched⟩
          exact ⟨hfence.trans h.fence, fun r hr frame hdelivered =>
            hlatched _ (h.latched r hr frame hdelivered), h.fencedLog⟩
      · exact h
  | recvValidated answers incoming =>
      have houtcome := @ReliableMeshStream.recvValidated_outcome answers s.stream incoming
      unfold End.step
      dsimp only
      split
      · next result next hrun =>
          rcases houtcome.of_ok hrun with ⟨rfl, rfl⟩ | ⟨frame, rfl, hpassed⟩
          · exact h.receive_nothing fun _ hout => nomatch hout
          · exact h.receive hpassed
      · next e next hrun =>
          have hnext : next = s.stream := houtcome.of_error hrun
          rw [hnext]
          exact h.receive_nothing fun _ hout => nomatch hout

end End

/-! ## The reliable stream -/

/-- The wire codec is exact; under a standing lease a link delivers what was sent, in order, and all
of it once the receiver has caught up; and on any stream, whatever arrives and whatever the
directory answers, what is handed out was fenced and a rejection leaves the latch as it was. -/
theorem reliable_stream :
    ((∀ frame, WireFrame.decode frame.encode = .ok frame) ∧
      ∀ bytes frame, WireFrame.decode bytes = .ok frame → frame.encode = bytes) ∧
    (∀ communityId (sender receiver : ReliableMeshStream), sender.fenced = receiver.fenced →
      Link.Fits communityId sender → Link.Fits communityId receiver →
      ∀ inputs, Run.Along (Link.Leased communityId) Link.step (.start sender receiver) inputs →
        (Run.run Link.step (.start sender receiver) inputs).delivered <+:
            (Run.run Link.step (.start sender receiver) inputs).sent ∧
          ∀ answers : Answers, answers communityId receiver.fenced = .ok () →
            ∀ n, (Run.run Link.step (.start sender receiver) inputs).inFlight.length ≤ n →
              (Run.run Link.step (.start sender receiver)
                  (inputs ++ List.replicate n (.recvValidated answers))).delivered =
                (Run.run Link.step (.start sender receiver) inputs).sent) ∧
    (∀ stream inputs,
      AtEach (Reception.Fenced stream.fenced) (Run.run End.step ⟨stream, []⟩ inputs).log) := by
  refine ⟨⟨WireFrame.decode_encode, fun _ _ => WireFrame.encode_of_decode⟩, ?_, ?_⟩
  · intro communityId sender receiver hfence hsender hreceiver inputs hleased
    have hinv : Link.Inv communityId receiver.fenced
        (Run.run Link.step (.start sender receiver) inputs) :=
      Run.invariant (Link.Inv communityId receiver.fenced) (fun _ _ h hinput => h.step hinput)
        (.start hfence rfl hsender hreceiver) hleased
    refine ⟨hinv.delivered.1, fun answers haccept n hn => ?_⟩
    rw [Run.run_append]
    have hdrained := Link.inFlight_drained answers hn
    have hcaught := hinv.drain haccept n
    rw [hcaught.1.delivered.2 hdrained, hcaught.2]
  · intro stream inputs
    have hinv : End.Inv stream.fenced (Run.run End.step ⟨stream, []⟩ inputs) := by
      refine Run.invariant_of_step (End.Inv stream.fenced) (fun _ input h => h.step input) ?_ inputs
      exact ⟨rfl, fun _ hr => (nomatch hr), AtEach.nil⟩
    exact hinv.fencedLog

/-! ## A leased session -/

namespace Leased

def community : CommunityId := ⟨1⟩

def fenced : FencedHeader := ⟨2, 1, 3⟩

/-- The lease of the session, as `acquire` leaves it. -/
def redis : Redis :=
  (SessionKeys.new community fenced.sessionId).store ∅
    { lease := some ⟨leaseValue (toHex 3) ['1'] Profile.reliableStream.asWireStr, some 30000⟩
      generation := some ⟨['1'], none⟩ }

def stream : ReliableMeshStream := ⟨fenced, none⟩

/-- Three bytes are sent and read, then three more in two sends, with one for another community
between them that is refused. -/
def exchange : List Link.Input :=
  [.sendBytes community [1, 2, 3], .recvValidated redis.answers, .sendBytes community [4, 5],
    .sendBytes ⟨9⟩ [9], .sendBytes community [6]]

theorem answers_redis : redis.answers community fenced = .ok () := by
  decide

theorem leased_exchange :
    Run.Along (Link.Leased community) Link.step (.start stream stream) exchange := by
  refine ⟨fun _ => rfl, answers_redis, ?_, ?_, ?_, trivial⟩
  -- from the first send on the sender is latched
  · exact fun hnone => absurd hnone (by decide +kernel)
  · exact fun hnone => absurd hnone (by decide +kernel)
  · exact fun hnone => absurd hnone (by decide +kernel)

end Leased

/-- What was read is the front of what was sent, and two more reads bring the rest. -/
theorem reliable_stream_exchange :
    (Run.run Link.step (.start Leased.stream Leased.stream) Leased.exchange).delivered =
        [1, 2, 3] ∧
      (Run.run Link.step (.start Leased.stream Leased.stream)
        (Leased.exchange ++ List.replicate 2 (.recvValidated Leased.redis.answers))).delivered =
          [1, 2, 3, 4, 5, 6] := by
  have hfits : Link.Fits Leased.community Leased.stream := fun _ hnone => (by cases hnone)
  have hlink := reliable_stream.2.1 Leased.community Leased.stream Leased.stream rfl hfits hfits
    Leased.exchange Leased.leased_exchange
  have hsent : (Run.run Link.step (.start Leased.stream Leased.stream) Leased.exchange).sent =
      [1, 2, 3, 4, 5, 6] := by decide +kernel
  have hflight : (Run.run Link.step (.start Leased.stream Leased.stream)
      Leased.exchange).inFlight.length ≤ 2 := by decide +kernel
  refine ⟨by decide +kernel, ?_⟩
  exact (hlink.2 Leased.redis.answers Leased.answers_redis 2 hflight).trans hsent

end Tunnel
end Relay
end Maju
