import Maju.Relay.Audio.Roster

/-!
# Replication — the client's map is the owner's roster at each revision

* `Recorded` — the deltas of a room lead from each roster it had to the next one;
* `Tracked` — every message on the wire is true of the owner's history, a roster on the wire is at
  least as new as what the reader has reached and as the messages before it, and the client's map
  is the roster of the revision reached;
* `roster_replication` — both hold along every run, so what is forwarded replays the owner's
  rosters without a gap, as long as revisions do not wrap around.
-/

namespace Maju
namespace Relay
namespace Audio

open Lib Core

/-! ## The history of the room -/

/-- A delta leads from one roster to another. -/
inductive Follows (before after : List RosterPeer) (delta : RosterDelta) : Prop where
  | joined (peer : RosterPeer) (hjoined : delta.joined = some peer)
      (hmap : ∀ idx, (rosterMap after).lookup idx =
        if idx = peer.peerIndex then some (peer.pubkey, peer.epoch)
        else (rosterMap before).lookup idx)
  | left (peer : RosterPeer) (hjoined : delta.joined = none) (hleft : delta.left = some peer)
      (hmap : ∀ idx, (rosterMap after).lookup idx =
        if idx = peer.peerIndex then none else (rosterMap before).lookup idx)

structure Recorded (l : Link) : Prop where
  sound : Admitted l.room
  length : l.past.length = l.room.deltas.length + 1
  last : l.past[l.room.deltas.length]? = some l.room.rosterSnapshot.peers
  deltas : ∀ n delta, l.room.deltas[n]? = some delta →
    delta.revision = (n + 1) % 2 ^ 64 ∧ ∃ before after, l.past[n]? = some before ∧
      l.past[n + 1]? = some after ∧ Follows before after delta

variable {l : Link}

theorem recorded_new : Recorded .new := by
  refine ⟨admitted_new, rfl, rfl, ?_⟩
  intro n delta hdelta
  simp [Link.new, Room.new] at hdelta

theorem Recorded.extend (h : Recorded l) {room : Room} {delta : RosterDelta}
    (hsound : Admitted room) (hdeltas : room.deltas = l.room.deltas ++ [delta])
    (hrevision : delta.revision = l.room.guard.nextRevision)
    (hfollows : Follows l.room.rosterSnapshot.peers room.rosterSnapshot.peers delta) :
    Recorded (l.setRoom room) := by
  have hgrown : ¬room.deltas.length = l.room.deltas.length := by simp [hdeltas]
  unfold Link.setRoom
  rw [if_neg hgrown]
  have hlast : (l.past ++ [room.rosterSnapshot.peers])[l.room.deltas.length + 1]? =
      some room.rosterSnapshot.peers := by
    rw [← h.length, List.getElem?_append_right (Nat.le_refl _), Nat.sub_self]
    rfl
  refine ⟨hsound, ?_, ?_, ?_⟩
  · simp [hdeltas, h.length]
  · simpa [hdeltas] using hlast
  · intro n delta' hdelta'
    change room.deltas[n]? = some delta' at hdelta'
    rw [hdeltas] at hdelta'
    by_cases hn : n < l.room.deltas.length
    · rw [List.getElem?_append_left hn] at hdelta'
      rcases h.deltas n delta' hdelta' with ⟨hrev, before, after, hbefore, hafter, hlink⟩
      refine ⟨hrev, before, after, ?_, ?_, hlink⟩
      · exact (List.getElem?_append_left (List.getElem?_eq_some_iff.1 hbefore).1).trans hbefore
      · exact (List.getElem?_append_left (List.getElem?_eq_some_iff.1 hafter).1).trans hafter
    · -- the new delta is the last one
      have hlt := (List.getElem?_eq_some_iff.1 hdelta').1
      rw [List.length_append, List.length_singleton] at hlt
      have heq : n = l.room.deltas.length := by omega
      subst heq
      rw [List.getElem?_append_right (Nat.le_refl _), Nat.sub_self] at hdelta'
      cases hdelta'
      refine ⟨hrevision.trans h.sound.nextRevision, _, _, ?_, hlast, hfollows⟩
      exact (List.getElem?_append_left (by rw [h.length]; exact Nat.lt_succ_self _)).trans h.last

theorem Recorded.same (h : Recorded l) {ended : Bool} :
    Recorded (l.setRoom { l.room with guard := { l.room.guard with ended := ended } }) := by
  unfold Link.setRoom
  rw [if_pos rfl]
  exact ⟨h.sound.setEnded ended, h.length, h.last, h.deltas⟩

theorem Recorded.setRoom (h : Recorded l) {op : RoomOp} (hop : op.Valid l.room) :
    Recorded (l.setRoom (l.room.next op)) := by
  unfold Room.next
  rcases h.sound.step_cases hop with ⟨_, _, ended, heq, _⟩ | ⟨id, peer, next, hid, hadm, heq⟩ |
    ⟨id, peer, ended, hpeer, heq, _⟩
  · rw [heq]
    exact h.same
  · rw [heq]
    have hfree := hop.2 id hid
    refine h.extend (h.sound.admitted hfree hadm) rfl rfl ?_
    exact .joined peer.toRoster rfl (h.sound.rosterMap_admitted hfree hadm)
  · rw [heq]
    refine h.extend (h.sound.removed hpeer ended) rfl rfl ?_
    exact .left peer.toRoster rfl rfl (h.sound.rosterMap_removed hpeer ended)

theorem past_setRoom (l : Link) (room : Room) : l.past <+: (l.setRoom room).past := by
  unfold Link.setRoom
  split_ifs
  · exact List.prefix_refl _
  · exact List.prefix_append _ _

theorem Recorded.revision (h : Recorded l) (hbound : l.room.deltas.length < 2 ^ 64) :
    l.room.rosterSnapshot.revision = l.room.deltas.length := by
  change l.room.guard.rosterRevision = _
  rw [h.sound.revision, Nat.mod_eq_of_lt hbound]

/-! ## Messages that are true of the history -/

namespace OwnerMsg

def revision : OwnerMsg → Nat
  | .peerRegistered _ roster => roster.revision
  | .registerRejected _ => 0
  | .rosterSnapshot snapshot => snapshot.revision
  | .rosterDelta delta => delta.revision

/-- The roster that a message carries. -/
def roster : OwnerMsg → Option RosterSnapshot
  | .peerRegistered _ roster => some roster
  | .rosterSnapshot snapshot => some snapshot
  | _ => none

/-- The message is true of the room's history. -/
def Truthful (l : Link) : OwnerMsg → Prop
  | .peerRegistered _ roster => l.past[roster.revision]? = some roster.peers
  | .rosterSnapshot snapshot => l.past[snapshot.revision]? = some snapshot.peers
  | .rosterDelta delta => delta ∈ l.room.deltas
  | .registerRejected _ => True

end OwnerMsg

/-- What a client has been told fits the history: its map is the roster of the last revision, the
first message is a roster, and the revision never goes back and goes up by one with every peer that
joins or leaves. -/
structure Exact (past : List (List RosterPeer)) (before : List ClientMsg) (msg : ClientMsg) :
    Prop where
  map : ∃ peers, past[msg.revision]? = some peers ∧
    ∀ idx, (replayed (before ++ [msg])).lookup idx = (rosterMap peers).lookup idx
  first : before = [] → msg.isRoster = true
  forward : ∀ last, before.getLast? = some last → last.revision ≤ msg.revision
  gapless : ∀ last, before.getLast? = some last → msg.isRoster = false →
    msg.revision = last.revision + 1

/-- The reader has reached a revision, and nothing on the wire takes it back. -/
structure Reached (l : Link) (revision : Nat) : Prop where
  last : ∃ msg, l.forwarded.getLast? = some msg ∧ msg.revision = revision
  map : ∃ peers, l.past[revision]? = some peers ∧
    ∀ idx, (replayed l.forwarded).lookup idx = (rosterMap peers).lookup idx
  ahead : ∀ msg ∈ l.wire, msg.roster.isSome → revision ≤ msg.revision

structure Tracked (l : Link) : Prop where
  wire : ∀ msg ∈ l.wire, msg.Truthful l
  rising : l.wire.Pairwise fun a b => b.roster.isSome → a.revision ≤ b.revision
  dialing : l.reader = .dialing → l.forwarded = []
  reading : ∀ revision, l.reader = .reading revision → Reached l revision
  forwarded : AtEach (Exact l.past) l.forwarded

theorem tracked_new : Tracked .new := by
  refine ⟨by simp [Link.new], by simp [Link.new], fun _ => rfl, ?_, AtEach.nil⟩
  intro revision hreading
  cases hreading

/-! ## Steps that leave the messages alone -/

theorem getElem?_of_prefix {past past' : List (List RosterPeer)} (h : past <+: past') {n : Nat}
    {peers : List RosterPeer} (hpeers : past[n]? = some peers) : past'[n]? = some peers := by
  rcases h with ⟨rest, rfl⟩
  exact (List.getElem?_append_left (List.getElem?_eq_some_iff.1 hpeers).1).trans hpeers

theorem OwnerMsg.Truthful.mono {l' : Link} (hpast : l.past <+: l'.past)
    (hdeltas : l.room.deltas ⊆ l'.room.deltas) {msg : OwnerMsg} (h : msg.Truthful l) :
    msg.Truthful l' := by
  cases msg with
  | peerRegistered admission roster => exact getElem?_of_prefix hpast h
  | rosterSnapshot snapshot => exact getElem?_of_prefix hpast h
  | rosterDelta delta => exact hdeltas h
  | registerRejected reason => trivial

theorem Exact.mono {past past' : List (List RosterPeer)} (hpast : past <+: past')
    {before : List ClientMsg} {msg : ClientMsg} (h : Exact past before msg) :
    Exact past' before msg := by
  rcases h.map with ⟨peers, hpeers, hmap⟩
  exact ⟨⟨peers, getElem?_of_prefix hpast hpeers, hmap⟩, h.first, h.forward, h.gapless⟩

theorem Tracked.extend (h : Tracked l) {l' : Link} (hpast : l.past <+: l'.past)
    (hdeltas : l.room.deltas ⊆ l'.room.deltas) (hwire : l'.wire = l.wire)
    (hreader : l'.reader = l.reader) (hforwarded : l'.forwarded = l.forwarded) : Tracked l' := by
  refine ⟨?_, ?_, ?_, ?_, ?_⟩
  · intro msg hmsg
    exact (h.wire msg (hwire ▸ hmsg)).mono hpast hdeltas
  · rw [hwire]
    exact h.rising
  · intro hdialing
    rw [hforwarded]
    exact h.dialing (hreader ▸ hdialing)
  · intro revision hreading
    rcases h.reading revision (hreader ▸ hreading) with ⟨hlast, ⟨peers, hpeers, hmap⟩, hahead⟩
    refine ⟨hforwarded.symm ▸ hlast, ⟨peers, getElem?_of_prefix hpast hpeers, ?_⟩, ?_⟩
    · rw [hforwarded]
      exact hmap
    · rw [hwire]
      exact hahead
  · rw [hforwarded]
    intro before msg rest hsplit
    exact (h.forwarded before msg rest hsplit).mono hpast

/-! ## Messages that the owner sends -/

theorem Recorded.revision_le (h : Recorded l) {msg : OwnerMsg} (hmsg : msg.Truthful l) :
    msg.revision ≤ l.room.deltas.length := by
  have hroster : ∀ snapshot : RosterSnapshot, l.past[snapshot.revision]? = some snapshot.peers →
      snapshot.revision ≤ l.room.deltas.length := by
    intro snapshot hsnapshot
    have hlt := (List.getElem?_eq_some_iff.1 hsnapshot).1
    rw [h.length] at hlt
    exact Nat.lt_succ_iff.1 hlt
  cases msg with
  | peerRegistered admission roster => exact hroster roster hmsg
  | rosterSnapshot snapshot => exact hroster snapshot hmsg
  | registerRejected reason => exact Nat.zero_le _
  | rosterDelta delta =>
      rcases List.mem_iff_getElem?.1 hmsg with ⟨n, hn⟩
      change delta.revision ≤ _
      rw [(h.deltas n delta hn).1]
      exact (Nat.mod_le _ _).trans (List.getElem?_eq_some_iff.1 hn).1

theorem Recorded.reached_le (h : Recorded l) {revision : Nat} (hreached : Reached l revision) :
    revision ≤ l.room.deltas.length := by
  rcases hreached.map with ⟨peers, hpeers, _⟩
  have hlt := (List.getElem?_eq_some_iff.1 hpeers).1
  rw [h.length] at hlt
  exact Nat.lt_succ_iff.1 hlt

theorem Tracked.send (h : Tracked l) (hrec : Recorded l) (msg : OwnerMsg) (hmsg : msg.Truthful l)
    (hnew : msg.roster.isSome → msg.revision = l.room.deltas.length) (serve : Serve) :
    Tracked { l with serve := serve, wire := l.wire ++ [msg] } := by
  refine ⟨?_, ?_, h.dialing, ?_, h.forwarded⟩
  · intro msg' hmsg'
    rcases List.mem_append.1 hmsg' with hold | hlast
    · exact (h.wire msg' hold).mono (List.prefix_refl _) (List.Subset.refl _)
    · rw [List.mem_singleton.1 hlast]
      exact hmsg.mono (List.prefix_refl _) (List.Subset.refl _)
  · change (l.wire ++ [msg]).Pairwise _
    rw [List.pairwise_append]
    refine ⟨h.rising, List.pairwise_singleton _ _, ?_⟩
    intro a ha b hb hroster
    rw [List.mem_singleton.1 hb] at hroster ⊢
    rw [hnew hroster]
    exact hrec.revision_le (h.wire a ha)
  · intro revision hreading
    have hreached := h.reading revision hreading
    refine ⟨hreached.last, hreached.map, ?_⟩
    intro msg' hmsg' hroster
    rcases List.mem_append.1 hmsg' with hold | hlast
    · exact hreached.ahead msg' hold hroster
    · rw [List.mem_singleton.1 hlast] at hroster ⊢
      rw [hnew hroster]
      exact hrec.reached_le hreached

theorem Recorded.truthful_snapshot (h : Recorded l) (hbound : l.room.deltas.length < 2 ^ 64) :
    l.past[l.room.rosterSnapshot.revision]? = some l.room.rosterSnapshot.peers := by
  rw [h.revision hbound]
  exact h.last

/-! ## Messages that the reading pod takes off the stream -/

theorem Tracked.tail (h : Tracked l) {msg : OwnerMsg} {rest : List OwnerMsg}
    (hwire : l.wire = msg :: rest) : Tracked { l with wire := rest } := by
  have hsub : ∀ m ∈ rest, m ∈ l.wire := by
    intro m hm
    rw [hwire]
    exact List.mem_cons_of_mem msg hm
  refine ⟨fun m hm => (h.wire m (hsub m hm)).mono (List.prefix_refl _) (List.Subset.refl _), ?_,
    h.dialing, ?_, h.forwarded⟩
  · have hrising := h.rising
    rw [hwire] at hrising
    exact hrising.of_cons
  · intro revision hreading
    have hreached := h.reading revision hreading
    exact ⟨hreached.last, hreached.map, fun m hm => hreached.ahead m (hsub m hm)⟩

theorem Tracked.stopped (h : Tracked l) : Tracked { l with reader := .stopped } :=
  ⟨fun msg hmsg => (h.wire msg hmsg).mono (List.prefix_refl _) (List.Subset.refl _), h.rising,
    fun hdialing => (nomatch hdialing), fun _ hreading => (nomatch hreading), h.forwarded⟩

theorem Tracked.forward (h : Tracked l) {msg : ClientMsg} (hexact : Exact l.past l.forwarded msg)
    (hahead : ∀ m ∈ l.wire, m.roster.isSome → msg.revision ≤ m.revision) :
    Tracked { l with reader := .reading msg.revision, forwarded := l.forwarded ++ [msg] } := by
  refine ⟨fun m hm => (h.wire m hm).mono (List.prefix_refl _) (List.Subset.refl _), h.rising,
    fun hdialing => (nomatch hdialing), ?_, h.forwarded.concat hexact⟩
  intro revision hreading
  cases hreading
  exact ⟨⟨msg, by simp, rfl⟩, hexact.map, hahead⟩

theorem replayed_concat (msgs : List ClientMsg) (msg : ClientMsg) :
    replayed (msgs ++ [msg]) = replay (replayed msgs) msg := by
  simp [replayed]

theorem exact_roster {past : List (List RosterPeer)} {before : List ClientMsg} {revision : Nat}
    {peers : List RosterPeer} (hpast : past[revision]? = some peers)
    (hlast : ∀ last, before.getLast? = some last → last.revision ≤ revision) :
    Exact past before (.roster revision peers) := by
  refine ⟨⟨peers, hpast, fun idx => ?_⟩, fun _ => rfl, hlast, fun _ _ h => (nomatch h)⟩
  rw [replayed_concat]
  rfl

theorem exact_delta (hrec : Recorded l) (hbound : l.room.deltas.length < 2 ^ 64) {revision : Nat}
    (hreached : Reached l revision) {delta : RosterDelta} (hdelta : delta ∈ l.room.deltas)
    (hnext : delta.revision = (revision + 1) % 2 ^ 64) :
    delta.revision = revision + 1 ∧
      ((∃ peer, delta.joined = some peer ∧
          Exact l.past l.forwarded (.joined delta.revision peer)) ∨
        ∃ peer, delta.joined = none ∧ delta.left = some peer ∧
          Exact l.past l.forwarded (.left delta.revision peer)) := by
  rcases List.mem_iff_getElem?.1 hdelta with ⟨n, hn⟩
  have hlt : n < l.room.deltas.length := (List.getElem?_eq_some_iff.1 hn).1
  have hle := hrec.reached_le hreached
  rcases hrec.deltas n delta hn with ⟨hrevision, before, after, hbefore, hafter, hlink⟩
  -- below the bound the revision of the delta is its place, so it is the one that follows
  have hplace : n = revision := by omega
  have hsucc : delta.revision = revision + 1 := by omega
  subst hplace
  rcases hreached.map with ⟨peers, hpeers, hmap⟩
  rcases hreached.last with ⟨last, hlast, hlastRevision⟩
  cases hpeers.symm.trans hbefore
  have hforward : ∀ msg : ClientMsg, msg.revision = delta.revision →
      (∀ last, l.forwarded.getLast? = some last → last.revision ≤ msg.revision) ∧
      ∀ last, l.forwarded.getLast? = some last → msg.isRoster = false →
        msg.revision = last.revision + 1 := by
    intro msg hmsg
    refine ⟨fun last' hlast' => ?_, fun last' hlast' _ => ?_⟩
    · cases hlast.symm.trans hlast'
      omega
    · cases hlast.symm.trans hlast'
      omega
  have hfirst : l.forwarded ≠ [] := by
    intro hempty
    rw [hempty] at hlast
    cases hlast
  refine ⟨hsucc, ?_⟩
  cases hlink with
  | joined peer hjoined hstep =>
      rcases hforward (.joined delta.revision peer) rfl with ⟨hle', hgap⟩
      refine Or.inl ⟨peer, hjoined, ⟨after, ?_, ?_⟩, fun h => absurd h hfirst, hle', hgap⟩
      · change l.past[delta.revision]? = some after
        rw [hsucc]
        exact hafter
      · intro idx
        rw [replayed_concat, hstep]
        simp only [replay, HashMap.lookup_insert_eq, hmap]
  | left peer hjoined hleft hstep =>
      rcases hforward (.left delta.revision peer) rfl with ⟨hle', hgap⟩
      refine Or.inr ⟨peer, hjoined, hleft, ⟨after, ?_, ?_⟩, fun h => absurd h hfirst, hle', hgap⟩
      · change l.past[delta.revision]? = some after
        rw [hsucc]
        exact hafter
      · intro idx
        rw [replayed_concat, hstep]
        simp only [replay, HashMap.lookup_erase_eq, hmap]

/-- `read_owner_control` keeps the client's map true: for a message that is true of the history, not
older than the reader if it is a roster, and not newer than the rosters behind it. -/
theorem Tracked.recvFrame (h : Tracked l) (hrec : Recorded l)
    (hbound : l.room.deltas.length < 2 ^ 64) {msg : OwnerMsg} (htrue : msg.Truthful l)
    (hahead : ∀ revision, l.reader = .reading revision → msg.roster.isSome →
      revision ≤ msg.revision)
    (hbehind : ∀ m ∈ l.wire, m.roster.isSome → msg.revision ≤ m.revision) :
    Tracked (l.recvFrame msg) := by
  unfold Link.recvFrame
  split
  · next hreader =>
      cases msg with
      | peerRegistered admission roster =>
          have hexact : Exact l.past l.forwarded (.roster roster.revision roster.peers) := by
            refine exact_roster htrue ?_
            intro last hlast
            rw [h.dialing hreader] at hlast
            cases hlast
          exact h.forward hexact hbehind
      | _ => exact h.stopped
  · next revision hreader =>
      have hreached := h.reading revision hreader
      cases msg with
      | rosterSnapshot snapshot =>
          have hexact : Exact l.past l.forwarded (.roster snapshot.revision snapshot.peers) := by
            refine exact_roster htrue ?_
            intro last hlast
            rcases hreached.last with ⟨last', hlast', hrevision⟩
            cases hlast.symm.trans hlast'
            rw [hrevision]
            exact hahead revision hreader rfl
          exact h.forward hexact hbehind
      | rosterDelta delta =>
          simp only [Link.readOwnerControl]
          split_ifs with hnext hold
          · rcases exact_delta hrec hbound hreached htrue hnext with ⟨_, hcases⟩
            rcases hcases with ⟨peer, hjoined, hexact⟩ | ⟨peer, hjoined, hleft, hexact⟩
            · rw [hjoined]
              exact h.forward hexact hbehind
            · rw [hjoined, hleft]
              exact h.forward hexact hbehind
          · exact h
          · exact h.extend (List.prefix_refl _) (List.Subset.refl _) rfl rfl rfl
      | _ => exact h
  · exact h

/-! ## Steps and runs -/

theorem Link.deltas_recvFrame (l : Link) (msg : OwnerMsg) :
    (l.recvFrame msg).room = l.room ∧ (l.recvFrame msg).past = l.past := by
  unfold Link.recvFrame
  split
  · split
    · exact ⟨rfl, rfl⟩
    · exact ⟨rfl, rfl⟩
  · unfold Link.readOwnerControl
    repeat' split
    all_goals exact ⟨rfl, rfl⟩
  · exact ⟨rfl, rfl⟩

theorem addPeer_eq_next (room : Room) (id : Uuid) (pubkey : Text) (requested : Nat) :
    (room.addPeer id pubkey requested).1 = room.next (.addPeer id pubkey requested) := rfl

theorem Recorded.congr (h : Recorded l) {l' : Link} (hroom : l'.room = l.room)
    (hpast : l'.past = l.past) : Recorded l' := by
  refine ⟨hroom ▸ h.sound, ?_, ?_, ?_⟩
  · rw [hroom, hpast]
    exact h.length
  · rw [hroom, hpast]
    exact h.last
  · rw [hroom, hpast]
    exact h.deltas

theorem Recorded.step (h : Recorded l) {input : LinkInput} (hinput : input.Valid l) :
    Recorded (l.step input) := by
  cases input with
  | room op => exact h.setRoom hinput
  | register id pubkey requested =>
      simp only [Link.step]
      split
      · have hnext := h.setRoom hinput
        unfold Link.register
        split
        · next room admission heq =>
            rw [← addPeer_eq_next, heq] at hnext
            exact hnext.congr rfl rfl
        · next room reason heq =>
            rw [← addPeer_eq_next, heq] at hnext
            exact hnext.congr rfl rfl
      · exact h
  | recvFrame =>
      simp only [Link.step]
      split
      · next msg rest hwire =>
          rcases Link.deltas_recvFrame { l with wire := rest } msg with ⟨hroom, hpast⟩
          exact h.congr hroom hpast
      · exact h
  | _ =>
      simp only [Link.step, Link.recvDelta]
      repeat' split
      all_goals exact h.congr rfl rfl

theorem deltas_subset_next (room : Room) (op : RoomOp) (h : Admitted room) (hop : op.Valid room) :
    room.deltas <+: (room.next op).deltas := by
  unfold Room.next
  rcases h.step_cases hop with ⟨_, _, ended, heq, _⟩ | ⟨id, peer, next, _, _, heq⟩ |
    ⟨id, peer, ended, _, heq, _⟩
  · rw [heq]
  · rw [heq]
    exact List.prefix_append _ _
  · rw [heq]
    exact List.prefix_append _ _

theorem Recorded.deltas_prefix (h : Recorded l) {input : LinkInput} (hinput : input.Valid l) :
    l.room.deltas <+: (l.step input).room.deltas := by
  cases input with
  | room op => exact deltas_subset_next l.room op h.sound hinput
  | register id pubkey requested =>
      simp only [Link.step]
      split
      · have hnext := deltas_subset_next l.room _ h.sound hinput
        unfold Link.register
        split
        · next room admission heq =>
            rw [← addPeer_eq_next, heq] at hnext
            exact hnext
        · next room reason heq =>
            rw [← addPeer_eq_next, heq] at hnext
            exact hnext
      · exact List.prefix_refl _
  | recvFrame =>
      simp only [Link.step]
      split
      · next msg rest hwire =>
          rw [(Link.deltas_recvFrame { l with wire := rest } msg).1]
      · exact List.prefix_refl _
  | _ =>
      simp only [Link.step, Link.recvDelta]
      repeat' split
      all_goals exact List.prefix_refl _

theorem Tracked.step (h : Tracked l) (hrec : Recorded l) (hbound : l.room.deltas.length < 2 ^ 64)
    {input : LinkInput} (hinput : input.Valid l) : Tracked (l.step input) := by
  -- a step that changes neither the room nor the messages
  have hquiet : ∀ (serve : Serve) (requests : Nat),
      Tracked { l with serve := serve, requests := requests } := fun serve requests =>
    h.extend (List.prefix_refl _) (List.Subset.refl _) rfl rfl rfl
  cases input with
  | room op =>
      exact h.extend (past_setRoom l _)
        (deltas_subset_next l.room op hrec.sound hinput).subset rfl rfl rfl
  | subscribe =>
      simp only [Link.step]
      split
      · exact hquiet _ _
      · exact h
  | register id pubkey requested =>
      simp only [Link.step]
      split
      · have hsub := (deltas_subset_next l.room _ hrec.sound hinput).subset
        unfold Link.register
        split
        · next room admission heq =>
            rw [← addPeer_eq_next, heq] at hsub
            exact h.extend (past_setRoom l room) hsub rfl rfl rfl
        · next room reason heq =>
            have hnext := hrec.setRoom hinput
            rw [← addPeer_eq_next, heq] at hsub hnext
            have hmoved : Tracked (l.setRoom room) :=
              h.extend (past_setRoom l room) hsub rfl rfl rfl
            exact hmoved.send hnext (.registerRejected reason) trivial
              (fun hroster => (nomatch hroster)) .waiting
      · exact h
  | reply =>
      simp only [Link.step]
      split
      · exact h.send hrec (.peerRegistered _ _) (hrec.truthful_snapshot hbound)
          (fun _ => hrec.revision hbound) _
      · exact h
  | recvDelta =>
      simp only [Link.step]
      split
      · simp only [Link.recvDelta]
        split_ifs
        · exact hquiet _ _
        · split
          · next delta hdelta =>
              exact h.send hrec (.rosterDelta delta) (List.mem_of_getElem? hdelta)
                (fun hroster => (nomatch hroster)) _
          · exact h
      · exact h
  | recvResync =>
      simp only [Link.step]
      split
      · exact hquiet _ _
      · exact h
  | sendSnapshot =>
      simp only [Link.step]
      split
      · exact h.send hrec (.rosterSnapshot _) (hrec.truthful_snapshot hbound)
          (fun _ => hrec.revision hbound) _
      · exact h
  | close => exact hquiet _ _
  | recvFrame =>
      simp only [Link.step]
      split
      · next msg rest hwire =>
          have hrising := h.rising
          rw [hwire, List.pairwise_cons] at hrising
          have hmem : msg ∈ l.wire := by simp [hwire]
          refine (h.tail hwire).recvFrame (hrec.congr rfl rfl) hbound ?_ ?_ hrising.1
          · exact (h.wire msg hmem).mono (List.prefix_refl _) (List.Subset.refl _)
          · intro revision hreading
            exact (h.reading revision hreading).ahead msg hmem
      · exact h
  | hangUp => exact h.stopped

def Link.after (inputs : List LinkInput) : Link := Run.run Link.step .new inputs

/-- The operations on the room are valid where a run applies them. -/
def Link.ValidRun (inputs : List LinkInput) : Prop :=
  Run.Along (fun l input => input.Valid l) Link.step .new inputs

theorem link_after {inputs : List LinkInput} (h : Link.ValidRun inputs) :
    Recorded (Link.after inputs) ∧
      ((Link.after inputs).room.deltas.length < 2 ^ 64 → Tracked (Link.after inputs)) := by
  refine Run.invariant
    (fun l => Recorded l ∧ (l.room.deltas.length < 2 ^ 64 → Tracked l)) ?_ ?_ h
  · rintro l input ⟨hrec, htracked⟩ hinput
    refine ⟨hrec.step hinput, fun hbound => ?_⟩
    have hbefore : l.room.deltas.length < 2 ^ 64 :=
      Nat.lt_of_le_of_lt (hrec.deltas_prefix hinput).length_le hbound
    exact (htracked hbefore).step hrec hbefore hinput
  · exact ⟨recorded_new, fun _ => tracked_new⟩

/-! ## The results -/

/-- **Roster replication.**  In every run of the room, the owner's control loop and the reading pod
in which the room sees fewer than `2 ^ 64` admissions and removals, each message that the client is
sent (the roster of its registration first) leaves it with exactly the roster that the owner's room
had at the revision of the message; revisions never go back, and a peer that joins or leaves is
forwarded only at the revision after that of the message before. -/
theorem roster_replication (inputs : List LinkInput) (hinputs : Link.ValidRun inputs)
    (hbound : (Link.after inputs).room.deltas.length < 2 ^ 64) :
    ((Link.after inputs).past.length = (Link.after inputs).room.deltas.length + 1 ∧
      (Link.after inputs).past.getLast? = some (Link.after inputs).room.rosterSnapshot.peers) ∧
    AtEach (Exact (Link.after inputs).past) (Link.after inputs).forwarded := by
  rcases link_after hinputs with ⟨hrec, htracked⟩
  refine ⟨⟨hrec.length, ?_⟩, (htracked hbound).forwarded⟩
  rw [List.getLast?_eq_getElem?, hrec.length, Nat.add_sub_cancel]
  exact hrec.last

/-! ## A client that joins at the last revision -/

namespace Sample

/-- A client registers, and is told of a second one that joins and leaves. -/
def inputs : List LinkInput :=
  [.subscribe, .register 1 [] 3, .reply, .recvFrame, .room (.addPeer 2 [] 3), .recvDelta,
    .recvDelta, .recvFrame, .recvFrame, .room (.removePeer 2), .recvDelta, .recvFrame]

/-- A client registers and reads the answer. -/
def registers (a : Uuid) : List LinkInput := [.subscribe, .register a [] 3, .reply, .recvFrame]

/-- One more joins, and the client is told. -/
def follows (b : Uuid) : List LinkInput :=
  [.room (.addPeer b [] 3), .recvDelta, .recvDelta, .recvFrame, .recvFrame]

/-- A link on which nothing has happened but to the room. -/
def idle (room : Room) (past : List (List RosterPeer)) : Link :=
  ⟨room, past, .waiting, [], 0, .dialing, []⟩

theorem run_room (ops : List RoomOp) (room : Room) (past : List (List RosterPeer)) :
    ∃ past', Run.run Link.step (idle room past) (ops.map .room) =
      idle (Run.run Room.next room ops) past' := by
  induction ops generalizing room past with
  | nil => exact ⟨past, rfl⟩
  | cons op ops ih => exact ih (room.next op) _

theorem along_room {ops : List RoomOp} {room : Room} (h : Room.ValidRun room ops)
    (past : List (List RosterPeer)) :
    Run.Along (fun l input => LinkInput.Valid l input) Link.step (idle room past)
      (ops.map .room) := by
  induction ops generalizing room past with
  | nil => trivial
  | cons op ops ih => exact ⟨h.1, ih h.2 _⟩

/-- A link on which a client has registered. -/
def registered (room : Room) (past : List (List RosterPeer)) (position : Nat) : Link :=
  ⟨room, past, .serving position false, [], 0, .reading room.guard.rosterRevision,
    [.roster room.guard.rosterRevision room.rosterSnapshot.peers]⟩

theorem step_register {l : Link} {a : Uuid} {joined : Room} {own : Admission} {position : Nat}
    (hserve : l.serve = .subscribed position)
    (heq : l.room.addPeer a [] 3 = (joined, .ok own)) :
    l.step (.register a [] 3) =
      { l.setRoom joined with serve := .admitted position own } := by
  simp only [Link.step, hserve, Link.register, heq]

theorem run_registers {a : Uuid} {room joined : Room} (past : List (List RosterPeer))
    {own : Admission} (heq : room.addPeer a [] 3 = (joined, .ok own)) :
    ∃ past', Run.run Link.step (idle room past) (registers a) =
      registered joined past' room.deltas.length := by
  have hstep : ((idle room past).step .subscribe).step (.register a [] 3) =
      { ((idle room past).step .subscribe).setRoom joined with
        serve := .admitted room.deltas.length own } := step_register rfl heq
  refine ⟨(((idle room past).step .subscribe).setRoom joined).past, ?_⟩
  change ((((idle room past).step .subscribe).step (.register a [] 3)).step .reply).step
    .recvFrame = _
  rw [hstep]
  rfl

theorem run_follows {b : Uuid} {joined both : Room} (past : List (List RosterPeer))
    {other : Admission} {peer peer' : RosterPeer} (position : Nat)
    (heq : joined.addPeer b [] 3 = (both, .ok other))
    (hown : both.deltas[position]? = some ⟨joined.guard.rosterRevision, some peer, none⟩)
    (hother : both.deltas[position + 1]? =
      some ⟨(joined.guard.rosterRevision + 1) % 2 ^ 64, some peer', none⟩)
    (hlength : both.deltas.length = position + 2)
    (hwraps : joined.guard.rosterRevision ≠ (joined.guard.rosterRevision + 1) % 2 ^ 64) :
    (Run.run Link.step (registered joined past position) (follows b)).forwarded.map
        ClientMsg.revision =
      [joined.guard.rosterRevision, (joined.guard.rosterRevision + 1) % 2 ^ 64] := by
  have hkept : ¬position + rosterChannelCapacity < both.deltas.length := by
    rw [hlength, rosterChannelCapacity]
    omega
  have hkept' : ¬position + 1 + rosterChannelCapacity < both.deltas.length := by
    rw [hlength, rosterChannelCapacity]
    omega
  have hjoin : joined.next (.addPeer b [] 3) = both := by
    rw [← addPeer_eq_next, heq]
  simp only [Run.run, follows, registered, List.foldl_cons, List.foldl_nil, Link.step,
    Link.setRoom, List.nil_append, Link.recvFrame, hjoin, Link.recvDelta, hkept, hkept', if_false,
    hown, hother, List.cons_append, Link.readOwnerControl, if_neg hwraps, Nat.le_refl, if_true,
    List.map_cons, List.map_nil, ClientMsg.revision]

theorem forwarded_joins {a b : Uuid} (hab : b ≠ a) {room : Room} (h : Churn.Idle room)
    (past : List (List RosterPeer)) (hlength : room.deltas.length + 2 = 2 ^ 64) :
    Run.Along (fun l input => LinkInput.Valid l input) Link.step (idle room past)
        (registers a ++ follows b) ∧
      (Run.run Link.step (idle room past) (registers a ++ follows b)).forwarded.map
        ClientMsg.revision = [2 ^ 64 - 1, 0] := by
  have hseat : room.peers.entries.length < maxPeersPerRoom := by simp [h.empty, maxPeersPerRoom]
  have hfirst : room.peers.lookup a = none := by
    rw [h.empty]
    rfl
  rcases h.sound.addPeer_ok a [] h.open_ hseat h.version with ⟨peer, next, hadm, _, hversion, heq⟩
  have hsound := h.sound.admitted hfirst hadm
  have hseat' : (room.admitted a peer next).peers.entries.length < maxPeersPerRoom := by
    simp [Room.admitted, h.empty, maxPeersPerRoom]
  have hsecond : (room.admitted a peer next).peers.lookup b = none := by
    change (room.peers.insert a peer).lookup b = none
    rw [AList.lookup_insert_ne hab, h.empty]
    rfl
  rcases hsound.addPeer_ok b [] h.open_ hseat' (Churn.versionRefused_admitted a hadm hversion) with
    ⟨peer', next', _, _, _, heq'⟩
  rcases run_registers past heq with ⟨past', hregistered⟩
  constructor
  · refine Run.Along.append ⟨trivial, ⟨trivial, ?_⟩, trivial, trivial, trivial⟩ ?_
    · intro id hid
      cases hid
      exact hfirst
    · rw [hregistered]
      refine ⟨⟨trivial, ?_⟩, trivial, trivial, trivial, trivial, trivial⟩
      intro id hid
      cases hid
      exact hsecond
  · have hrevision : (room.admitted a peer next).guard.rosterRevision = 2 ^ 64 - 1 := by
      change room.guard.nextRevision = 2 ^ 64 - 1
      rw [h.sound.nextRevision]
      omega
    have hdeltas : ((room.admitted a peer next).admitted b peer' next').deltas =
        room.deltas ++ [⟨(room.admitted a peer next).guard.rosterRevision, some peer.toRoster,
          none⟩] ++ [⟨(room.admitted a peer next).guard.nextRevision, some peer'.toRoster, none⟩] :=
      rfl
    have hzero : (2 ^ 64 - 1 + 1) % 2 ^ 64 = 0 := by decide
    have hown : ((room.admitted a peer next).admitted b peer' next').deltas[room.deltas.length]? =
        some ⟨(room.admitted a peer next).guard.rosterRevision, some peer.toRoster, none⟩ := by
      simp [hdeltas]
    have hother :
        ((room.admitted a peer next).admitted b peer' next').deltas[room.deltas.length + 1]? =
          some ⟨((room.admitted a peer next).guard.rosterRevision + 1) % 2 ^ 64,
            some peer'.toRoster, none⟩ := by
      simp [hdeltas, AdmissionGuard.nextRevision]
    have hrun := run_follows past' room.deltas.length heq' hown hother (by simp [hdeltas])
      (by rw [hrevision]; decide)
    rw [hrevision, hzero] at hrun
    rw [Run.run_append, hregistered]
    exact hrun

end Sample

/-- The revisions that a client is told go back where the owner's revision starts again. -/
theorem forwarded_revisions_wrap :
    ¬∀ inputs, Link.ValidRun inputs →
      ((Link.after inputs).forwarded.map ClientMsg.revision).Pairwise (· ≤ ·) := by
  intro hall
  obtain ⟨n, hn⟩ : ∃ n, 2 * n + 2 = 2 ^ 64 := ⟨2 ^ 63 - 1, by decide⟩
  rcases Churn.idle_ops n with ⟨hvalid, hidle, hlength⟩
  rcases Sample.run_room (Churn.ops n) .new [[]] with ⟨past, hrun⟩
  have hdistinct : BitVec.ofNat 128 (n + 1) ≠ BitVec.ofNat 128 n := by
    intro heq
    have hnat := congrArg BitVec.toNat heq
    rw [BitVec.toNat_ofNat, BitVec.toNat_ofNat] at hnat
    omega
  have hlast : (Run.run Room.next .new (Churn.ops n)).deltas.length + 2 = 2 ^ 64 :=
    (congrArg (· + 2) hlength).trans hn
  rcases Sample.forwarded_joins hdistinct hidle past hlast with ⟨hjoins, hforwarded⟩
  have hstart : Run.run Link.step .new ((Churn.ops n).map .room) =
      Sample.idle (Room.after (Churn.ops n)) past := hrun
  have hvalid' := Run.Along.append (Sample.along_room hvalid [[]]) (hstart.symm ▸ hjoins)
  have hsorted := hall _ hvalid'
  rw [Link.after, Run.run_append, hstart, hforwarded] at hsorted
  simp at hsorted

theorem roster_replication_sample :
    Link.ValidRun Sample.inputs ∧ (Link.after Sample.inputs).room.deltas.length < 2 ^ 64 ∧
      AtEach (Exact (Link.after Sample.inputs).past) (Link.after Sample.inputs).forwarded := by
  have hvalid : Link.ValidRun Sample.inputs := by
    unfold Link.ValidRun
    decide
  have hbound : (Link.after Sample.inputs).room.deltas.length < 2 ^ 64 := by decide
  exact ⟨hvalid, hbound, (roster_replication Sample.inputs hvalid hbound).2⟩

end Audio
end Relay
end Maju
