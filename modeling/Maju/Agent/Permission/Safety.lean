import Maju.Agent.Permission.Broker

/-!
# Safety — permits, entries and ids of the permission broker

`Sound` ties the three tables together: every permit is available or with a call, and the entries
under `pending` are exactly the leases whose channel is still empty.  A delivery claims the entry
before the waiter wakes, so between the two a lease holds its permit without an entry.  `Numbered`
is about the ids.  Both hold in every state of every run.
-/

namespace Maju
namespace Agent

open Lib

/-! ## What a phase holds -/

def Phase.permits : Phase → Nat
  | .granted => 1
  | .sending _ => 1
  | .waiting _ => 1
  | _ => 0

/-- The id under which an answer is still awaited. -/
def Phase.openId (phase : Phase) : Option Nat :=
  phase.lease.bind fun lease =>
    match lease.slot with
    | .empty => some lease.id
    | _ => none

def Phase.unanswered (phase : Phase) : Nat := phase.openId.isSome.toNat

theorem Phase.permits_setSlot (slot : Slot) (phase : Phase) :
    (phase.setSlot slot).permits = phase.permits := by
  cases phase <;> rfl

theorem Phase.openId_setSlot {slot : Slot} (h : slot ≠ .empty) (phase : Phase) :
    (phase.setSlot slot).openId = none := by
  cases phase with
  | sending lease => cases slot with
      | empty => exact absurd rfl h
      | _ => rfl
  | waiting lease => cases slot with
      | empty => exact absurd rfl h
      | _ => rfl
  | _ => rfl

namespace PermissionBroker

/-! ## Permits and entries -/

/-- The invariant of the tables. -/
structure Sound (capacity : Nat) (b : PermissionBroker) : Prop where
  permits : b.available + HashMap.total (fun _ => Phase.permits) b.calls = capacity
  entries : ∀ id call, b.pending.lookup id = some call ↔
    (b.calls.lookup call).bind Phase.openId = some id
  count : HashMap.total (fun _ _ => 1) b.pending =
    HashMap.total (fun _ => Phase.unanswered) b.calls

variable {capacity : Nat} {b : PermissionBroker}

theorem sound_new (maxPending : Nat) : Sound (max maxPending 1) (new maxPending) := by
  refine ⟨rfl, ?_, rfl⟩
  intro id call
  constructor
  · intro h
    cases h
  · intro h
    cases h

theorem Sound.move (h : Sound capacity b) {call : Nat} {phase : Phase} {available : Nat}
    (hpermits : available + phase.permits =
      b.available + (b.calls.lookup call).elim 0 Phase.permits)
    (hopen : phase.openId = (b.calls.lookup call).bind Phase.openId) :
    Sound capacity { b.setPhase call phase with available := available } := by
  have hsplit := HashMap.total_eq_lookup_add_erase (fun _ => Phase.permits) call b.calls
  have hsplit' := HashMap.total_eq_lookup_add_erase (fun _ => Phase.unanswered) call b.calls
  have hunanswered : phase.unanswered = (b.calls.lookup call).elim 0 Phase.unanswered := by
    rw [Phase.unanswered, hopen]
    cases b.calls.lookup call <;> rfl
  refine ⟨?_, ?_, ?_⟩
  · have hsum := h.permits
    change available + HashMap.total _ (b.calls.insert call phase) = capacity
    rw [HashMap.total_insert]
    rw [hsplit] at hsum
    omega
  · intro id call'
    change b.pending.lookup id = some call' ↔
      ((b.calls.insert call phase).lookup call').bind Phase.openId = some id
    rw [h.entries, HashMap.lookup_insert_eq]
    split_ifs with heq
    · rw [heq, Option.bind_some, hopen]
    · rfl
  · change HashMap.total _ b.pending = HashMap.total _ (b.calls.insert call phase)
    rw [HashMap.total_insert, h.count, hsplit', hunanswered]

theorem Sound.setPhase (h : Sound capacity b) {call : Nat} {phase : Phase}
    (hpermits : phase.permits = (b.calls.lookup call).elim 0 Phase.permits)
    (hopen : phase.openId = (b.calls.lookup call).bind Phase.openId) :
    Sound capacity (b.setPhase call phase) :=
  h.move (congrArg (b.available + ·) hpermits) hopen

theorem Sound.takeEntry (h : Sound capacity b) (id : Nat) {slot : Slot} (hslot : slot ≠ .empty) :
    Sound capacity (b.takeEntry id slot) := by
  unfold PermissionBroker.takeEntry
  cases howner : b.pending.lookup id with
  | none => exact h
  | some owner =>
      have hopen := (h.entries id owner).1 howner
      rcases Option.bind_eq_some_iff.1 hopen with ⟨phase, hphase, hid⟩
      have hfill : b.fill owner slot = b.setPhase owner (phase.setSlot slot) := by
        simp only [fill, hphase]
      have hnone := Phase.openId_setSlot hslot phase
      dsimp only
      rw [hfill]
      refine ⟨?_, ?_, ?_⟩
      · have hsum := h.permits
        have hsplit := HashMap.total_eq_lookup_add_erase (fun _ => Phase.permits) owner
          b.calls
        rw [hphase, Option.elim_some] at hsplit
        change b.available + HashMap.total _ (b.calls.insert owner (phase.setSlot slot)) = capacity
        rw [HashMap.total_insert, Phase.permits_setSlot, ← hsplit]
        exact hsum
      · intro id' call'
        change (b.pending.erase id).lookup id' = some call' ↔
          ((b.calls.insert owner (phase.setSlot slot)).lookup call').bind Phase.openId = some id'
        rw [HashMap.lookup_erase_eq, HashMap.lookup_insert_eq]
        by_cases hcall : call' = owner
        · -- the owner awaited this id only
          rw [if_pos hcall, Option.bind_some, hnone]
          refine iff_of_false ?_ (by simp)
          split_ifs with hid'
          · simp
          · rw [hcall, h.entries, hopen, Option.some.injEq]
            exact fun heq => hid' heq.symm
        · rw [if_neg hcall]
          by_cases hid' : id' = id
          · rw [if_pos hid', ← h.entries, hid', howner]
            refine iff_of_false (by simp) ?_
            exact fun heq => hcall (Option.some.inj heq).symm
          · rw [if_neg hid', h.entries]
      · have hcount := h.count
        have hsplit := HashMap.total_eq_lookup_add_erase (fun _ => Phase.unanswered)
          owner b.calls
        have hpending := HashMap.total_eq_lookup_add_erase (fun _ _ => 1) id b.pending
        have hone : phase.unanswered = 1 := by rw [Phase.unanswered, hid]; rfl
        have hzero : (phase.setSlot slot).unanswered = 0 := by rw [Phase.unanswered, hnone]; rfl
        rw [hphase, Option.elim_some, hone] at hsplit
        rw [howner, Option.elim_some] at hpending
        change HashMap.total _ (b.pending.erase id) =
          HashMap.total _ (b.calls.insert owner (phase.setSlot slot))
        rw [HashMap.total_insert, hzero]
        omega

theorem lookup_calls_takeEntry (b : PermissionBroker) (id : Nat) (slot : Slot) {call : Nat}
    (hcall : b.pending.lookup id ≠ some call) :
    (b.takeEntry id slot).calls.lookup call = b.calls.lookup call := by
  unfold takeEntry
  cases howner : b.pending.lookup id with
  | none => rfl
  | some owner =>
      have hne : call ≠ owner := by
        rintro rfl
        exact hcall howner
      change (b.fill owner slot).calls.lookup call = b.calls.lookup call
      unfold fill
      cases b.calls.lookup owner with
      | none => rfl
      | some phase =>
          change (b.calls.insert owner (phase.setSlot slot)).lookup call = b.calls.lookup call
          rw [HashMap.lookup_insert_eq, if_neg hne]

theorem lookup_takeEntry (b : PermissionBroker) (id id' : Nat) (slot : Slot) :
    (b.takeEntry id slot).pending.lookup id' =
      if id' = id then none else b.pending.lookup id' := by
  unfold takeEntry
  cases howner : b.pending.lookup id with
  | none =>
      split_ifs with heq
      · rw [heq, howner]
      · rfl
  | some owner => exact HashMap.lookup_erase_eq id id' b.pending

theorem Sound.register (h : Sound capacity b) {call : Nat}
    (hcall : b.calls.lookup call = some .granted) : Sound capacity (b.register call) := by
  have hclosed : Sound capacity (b.takeEntry b.nextId .closed) := h.takeEntry b.nextId (by simp)
  have hfree := lookup_takeEntry b b.nextId b.nextId .closed
  have hcalls : (b.takeEntry b.nextId .closed).calls.lookup call = some .granted := by
    rw [lookup_calls_takeEntry, hcall]
    intro howner
    have hopen := (h.entries _ _).1 howner
    rw [hcall] at hopen
    cases hopen
  rw [if_pos rfl] at hfree
  simp only [PermissionBroker.register, removeEntry]
  generalize b.takeEntry b.nextId .closed = b' at *
  refine ⟨?_, ?_, ?_⟩
  · have hsum := hclosed.permits
    have hsplit := HashMap.total_eq_lookup_add_erase (fun _ => Phase.permits) call b'.calls
    rw [hcalls, Option.elim_some] at hsplit
    change b'.available + HashMap.total _ (b'.calls.insert call _) = capacity
    rw [HashMap.total_insert]
    rw [hsplit] at hsum
    exact hsum
  · intro id call'
    change (b'.pending.insert b.nextId call).lookup id = some call' ↔
      ((b'.calls.insert call (.sending ⟨b.nextId, .empty⟩)).lookup call').bind Phase.openId =
        some id
    rw [HashMap.lookup_insert_eq, HashMap.lookup_insert_eq]
    by_cases hid : id = b.nextId
    · rw [if_pos hid]
      split_ifs with heq
      · simp [heq, hid, Phase.openId, Phase.lease]
      · rw [← hclosed.entries, hid, hfree]
        refine iff_of_false ?_ (by simp)
        exact fun hsome => heq (Option.some.inj hsome).symm
    · rw [if_neg hid]
      split_ifs with heq
      · rw [hclosed.entries, heq, hcalls]
        simp [Phase.openId, Phase.lease, Ne.symm hid]
      · exact hclosed.entries id call'
  · have hcount := hclosed.count
    have hsplit := HashMap.total_eq_lookup_add_erase (fun _ => Phase.unanswered) call b'.calls
    have hpending := HashMap.total_eq_lookup_add_erase (fun _ _ => 1) b.nextId b'.pending
    have hzero : Phase.granted.unanswered = 0 := rfl
    have hone : (Phase.sending ⟨b.nextId, .empty⟩).unanswered = 1 := rfl
    rw [hcalls, Option.elim_some, hzero] at hsplit
    rw [hfree, Option.elim_none] at hpending
    change HashMap.total _ (b'.pending.insert b.nextId call) =
      HashMap.total _ (b'.calls.insert call _)
    rw [HashMap.total_insert, HashMap.total_insert, hone]
    omega

theorem Sound.dropLease (h : Sound capacity b) {call : Nat} {old phase : Phase} {lease : Lease}
    (hold : b.calls.lookup call = some old) (hlease : old.lease = some lease)
    (hpermits : phase.permits = 0) (hopen : phase.openId = none) :
    Sound capacity (b.dropLease call lease phase) := by
  have hclosed : Sound capacity (b.takeEntry lease.id .closed) := h.takeEntry lease.id (by simp)
  have hone : old.permits = 1 := by
    cases old with
    | sending l => rfl
    | waiting l => rfl
    | _ => cases hlease
  -- whether or not the entry was there, the call awaits nothing afterwards
  have hcalls : ∃ phase', (b.takeEntry lease.id .closed).calls.lookup call = some phase' ∧
      phase'.permits = 1 ∧ phase'.openId = none := by
    by_cases howner : b.pending.lookup lease.id = some call
    · refine ⟨old.setSlot .closed, ?_, ?_, Phase.openId_setSlot (by simp) old⟩
      · simp [PermissionBroker.takeEntry, howner, fill, hold, PermissionBroker.setPhase]
      · rw [Phase.permits_setSlot, hone]
    · refine ⟨old, ?_, hone, ?_⟩
      · rw [lookup_calls_takeEntry _ _ _ howner, hold]
      · cases hid : old.openId with
        | none => rfl
        | some id =>
            refine absurd ?_ howner
            have hidlease : id = lease.id := by
              simp only [Phase.openId, hlease, Option.bind_some] at hid
              split at hid
              · exact (Option.some.inj hid).symm
              · cases hid
            rw [← hidlease]
            exact (h.entries id call).2 (by rw [hold]; exact hid)
  rcases hcalls with ⟨phase', hphase', hpermits', hopen'⟩
  refine hclosed.move ?_ ?_
  · rw [hphase', Option.elim_some, hpermits', hpermits]
    rfl
  · rw [hphase', Option.bind_some, hopen, hopen']

theorem Sound.deliver (h : Sound capacity b) (id result : Json) :
    Sound capacity (b.deliver id result) := by
  unfold PermissionBroker.deliver
  split
  · exact h
  · next key hkey =>
      split
      · exact h
      · have htaken : Sound capacity (b.takeEntry key (.value result)) := h.takeEntry key (by simp)
        exact ⟨htaken.permits, htaken.entries, htaken.count⟩

theorem Sound.step (h : Sound capacity b) (input : Input) : Sound capacity (step b input) := by
  cases input with
  | start call cancelSeen =>
      simp only [PermissionBroker.step]
      split
      · exact h
      · next hnone =>
          refine h.setPhase ?_ ?_
          · rw [hnone]
            cases cancelSeen <;> rfl
          · rw [hnone]
            cases cancelSeen <;> rfl
  | grant call =>
      simp only [PermissionBroker.step]
      split
      · next hcall =>
          split_ifs with hroom
          · refine h.move ?_ ?_
            · rw [hcall, Option.elim_some]
              simp only [Phase.permits]
              omega
            · rw [hcall]
              rfl
          · exact h
      · exact h
  | poll call branch =>
      simp only [PermissionBroker.step]
      split
      · next hcall =>
          cases branch with
          | cancelled => exact h.move (by rw [hcall]; rfl) (by rw [hcall]; rfl)
          | deadline => exact h.move (by rw [hcall]; rfl) (by rw [hcall]; rfl)
          | _ => exact h
      · next hcall =>
          cases branch with
          | cancelled => exact h.move (by rw [hcall]; rfl) (by rw [hcall]; rfl)
          | deadline => exact h.move (by rw [hcall]; rfl) (by rw [hcall]; rfl)
          | acquired => exact h.register hcall
          | _ => exact h
      · next lease hcall =>
          cases branch with
          | cancelled => exact h.dropLease hcall rfl rfl rfl
          | deadline => exact h.dropLease hcall rfl rfl rfl
          | wireClosed => exact h.dropLease hcall rfl rfl rfl
          | sent cancelSeen => cases cancelSeen with
              | true => exact h.dropLease hcall rfl rfl rfl
              | false =>
                  exact h.setPhase (by rw [hcall]; rfl) (by rw [hcall]; rfl)
          | _ => exact h
      · next lease hcall =>
          cases branch with
          | cancelled => exact h.dropLease hcall rfl rfl rfl
          | deadline => exact h.dropLease hcall rfl rfl rfl
          | received =>
              simp only [pollWaiting]
              split
              · exact h
              · exact h.dropLease hcall rfl rfl rfl
              · exact h.dropLease hcall rfl rfl rfl
          | _ => exact h
      · exact h
  | abort call =>
      simp only [PermissionBroker.step]
      split
      · next hcall =>
          exact h.setPhase (by rw [hcall]; rfl) (by rw [hcall]; rfl)
      · next hcall => exact h.move (by rw [hcall]; rfl) (by rw [hcall]; rfl)
      · next lease hcall => exact h.dropLease hcall rfl rfl rfl
      · next lease hcall => exact h.dropLease hcall rfl rfl rfl
      · exact h
  | frame msg =>
      simp only [PermissionBroker.step]
      split
      · exact h.deliver _ _
      · exact h

/-! ## Ids -/

/-- The invariant of the ids: they are minted in order, and resolve at most as often as they were
minted. -/
structure Numbered (b : PermissionBroker) : Prop where
  next : b.nextId = b.minted.length % 2 ^ 64
  minted : b.minted = (List.range b.minted.length).map (· % 2 ^ 64)
  resolved : ∀ n, b.resolved.count n + (b.pending.lookup n).isSome.toNat ≤ b.minted.count n

theorem numbered_new (maxPending : Nat) : Numbered (new maxPending) := by
  refine ⟨rfl, rfl, ?_⟩
  intro n
  exact le_refl 0

theorem Numbered.of_fewer (h : Numbered b) {b' : PermissionBroker} (hnext : b'.nextId = b.nextId)
    (hminted : b'.minted = b.minted) (hresolved : b'.resolved = b.resolved)
    (hpending : ∀ n, b'.pending.lookup n = none ∨ b'.pending.lookup n = b.pending.lookup n) :
    Numbered b' := by
  refine ⟨?_, ?_, ?_⟩
  · rw [hnext, hminted]
    exact h.next
  · rw [hminted]
    exact h.minted
  · intro n
    have hn := h.resolved n
    rw [hresolved, hminted]
    rcases hpending n with hnone | hsame
    · rw [hnone]
      simp only [Option.isSome_none, Bool.toNat_false]
      omega
    · rw [hsame]
      exact hn

theorem takeEntry_frame (b : PermissionBroker) (id : Nat) (slot : Slot) :
    (b.takeEntry id slot).nextId = b.nextId ∧ (b.takeEntry id slot).minted = b.minted ∧
      (b.takeEntry id slot).resolved = b.resolved := by
  unfold takeEntry
  cases b.pending.lookup id with
  | none => exact ⟨rfl, rfl, rfl⟩
  | some owner =>
      have hfill : (b.fill owner slot).nextId = b.nextId ∧ (b.fill owner slot).minted = b.minted ∧
          (b.fill owner slot).resolved = b.resolved := by
        unfold fill
        split
        · exact ⟨rfl, rfl, rfl⟩
        · exact ⟨rfl, rfl, rfl⟩
      exact hfill

theorem Numbered.takeEntry (h : Numbered b) (id : Nat) (slot : Slot) :
    Numbered (b.takeEntry id slot) := by
  rcases takeEntry_frame b id slot with ⟨hnext, hminted, hresolved⟩
  refine h.of_fewer hnext hminted hresolved ?_
  intro n
  rw [lookup_takeEntry]
  split_ifs
  · exact Or.inl rfl
  · exact Or.inr rfl

theorem Numbered.setPhase (h : Numbered b) (call : Nat) (phase : Phase) (available : Nat) :
    Numbered { b.setPhase call phase with available := available } :=
  ⟨h.next, h.minted, h.resolved⟩

theorem Numbered.register (h : Numbered b) (call : Nat) : Numbered (b.register call) := by
  have htaken := h.takeEntry b.nextId .closed
  have hfree := lookup_takeEntry b b.nextId b.nextId .closed
  have hnext : (b.takeEntry b.nextId .closed).nextId = b.nextId :=
    (takeEntry_frame b b.nextId .closed).1
  rw [if_pos rfl] at hfree
  simp only [PermissionBroker.register, removeEntry]
  generalize b.takeEntry b.nextId .closed = b' at *
  have hid : b.nextId = b'.minted.length % 2 ^ 64 := by rw [← hnext, htaken.next]
  refine ⟨?_, ?_, ?_⟩
  · dsimp only
    rw [List.length_append, List.length_singleton, hid, Nat.mod_add_mod]
  · dsimp only
    rw [List.length_append, List.length_singleton, List.range_succ, List.map_append,
      ← htaken.minted, hid]
    rfl
  · intro n
    have hn := htaken.resolved n
    change b'.resolved.count n + ((b'.pending.insert b.nextId call).lookup n).isSome.toNat ≤
      (b'.minted ++ [b.nextId]).count n
    rw [HashMap.lookup_insert_eq, List.count_append]
    split_ifs with heq
    · rw [heq, hfree] at hn
      rw [heq, List.count_singleton_self]
      simp only [Option.isSome_none, Option.isSome_some, Bool.toNat_false, Bool.toNat_true] at *
      omega
    · exact le_trans hn (Nat.le_add_right _ _)

theorem Numbered.deliver (h : Numbered b) (id result : Json) : Numbered (b.deliver id result) := by
  unfold PermissionBroker.deliver
  split
  · exact h
  · next key hkey =>
      split
      · exact h
      · next call hcall =>
          have htaken := h.takeEntry key (.value result)
          rcases takeEntry_frame b key (.value result) with ⟨_, hminted, _⟩
          refine ⟨htaken.next, htaken.minted, ?_⟩
          intro n
          have hn := h.resolved n
          change (b.resolved ++ [key]).count n +
            ((b.takeEntry key (.value result)).pending.lookup n).isSome.toNat ≤
              (b.takeEntry key (.value result)).minted.count n
          rw [lookup_takeEntry, hminted, List.count_append]
          split_ifs with heq
          · -- the entry is spent on this resolution
            rw [heq, hcall] at hn
            rw [heq, List.count_singleton_self]
            simp only [Option.isSome_none, Option.isSome_some, Bool.toNat_false,
              Bool.toNat_true] at *
            omega
          · rw [List.count_singleton, if_neg (by simpa using Ne.symm heq)]
            exact hn

theorem Numbered.dropLease (h : Numbered b) (call : Nat) (lease : Lease) (phase : Phase) :
    Numbered (b.dropLease call lease phase) :=
  (h.takeEntry lease.id .closed).setPhase call phase _

theorem Numbered.step (h : Numbered b) (input : Input) : Numbered (step b input) := by
  cases input with
  | start call cancelSeen =>
      simp only [PermissionBroker.step]
      split
      · exact h
      · exact h.setPhase call _ b.available
  | grant call =>
      simp only [PermissionBroker.step]
      split
      · split_ifs
        · exact h.setPhase call _ _
        · exact h
      · exact h
  | poll call branch =>
      simp only [PermissionBroker.step]
      split
      · cases branch with
        | cancelled => exact h.setPhase call _ _
        | deadline => exact h.setPhase call _ _
        | _ => exact h
      · cases branch with
        | cancelled => exact h.setPhase call _ _
        | deadline => exact h.setPhase call _ _
        | acquired => exact h.register call
        | _ => exact h
      · cases branch with
        | sent cancelSeen => cases cancelSeen with
            | true => exact h.dropLease call _ _
            | false => exact h.setPhase call _ b.available
        | cancelled => exact h.dropLease call _ _
        | deadline => exact h.dropLease call _ _
        | wireClosed => exact h.dropLease call _ _
        | _ => exact h
      · cases branch with
        | cancelled => exact h.dropLease call _ _
        | deadline => exact h.dropLease call _ _
        | received =>
            simp only [pollWaiting]
            split
            · exact h
            · exact h.dropLease call _ _
            · exact h.dropLease call _ _
        | _ => exact h
      · exact h
  | abort call =>
      simp only [PermissionBroker.step]
      split
      · exact h.setPhase call _ b.available
      · exact h.setPhase call _ _
      · exact h.dropLease call _ _
      · exact h.dropLease call _ _
      · exact h
  | frame msg =>
      simp only [PermissionBroker.step]
      split
      · exact h.deliver _ _
      · exact h

/-! ## Answers -/

theorem parseId_some {id : Json} {n : Nat} (h : parseId id = some n) : id = .str (permId n) := by
  unfold parseId at h
  cases id with
  | str s =>
      simp only [Json.asStr, Option.bind_eq_bind, Option.bind_some] at h
      rcases Option.bind_eq_some_iff.1 h with ⟨m, _, hm⟩
      split_ifs at hm with heq
      cases hm
      rw [heq]
  | _ => cases h

theorem classify_allowed {msg id result : Json} (h : classify msg = .response id result)
    (hallow : selectsAllow result = true) :
    msg.get "id" = some id ∧ msg.get "method" = none ∧ msg.get "result" = some result ∧
      msg.get "error" = none := by
  have hnull : selectsAllow .null = false := by decide
  unfold classify at h
  split_ifs at h
  dsimp only at h
  split at h
  · cases h
  · cases h
  · next id' hmethod hid =>
      simp only [Inbound.response.injEq] at h
      rcases h with ⟨rfl, hresult⟩
      split_ifs at hresult with hformed
      · simp only [Bool.and_eq_true, Option.isNone_iff_eq_none, Option.isSome_iff_exists] at hformed
        rcases hformed with ⟨⟨hm, ⟨r, hr⟩⟩, he⟩
        rw [hr, Option.getD_some] at hresult
        exact ⟨hid, hm, by rw [hr, hresult], he⟩
      · rw [← hresult, hnull] at hallow
        cases hallow
  · cases h

end PermissionBroker

/-- What lies in the channel of a call, or made it return allowed, satisfies `A`. -/
def Phase.Answered (A : Json → Prop) : Phase → Prop
  | .sending lease => ∀ result, lease.slot = .value result → A result
  | .waiting lease => ∀ result, lease.slot = .value result → A result
  | .returned .allowed => ∃ result, A result ∧ selectsAllow result = true
  | _ => True

theorem Phase.answered_setSlot {A : Json → Prop} {slot : Slot}
    (h : ∀ result, slot = .value result → A result) {phase : Phase} (hphase : phase.Answered A) :
    (phase.setSlot slot).Answered A := by
  cases phase with
  | sending lease => exact h
  | waiting lease => exact h
  | admitting => exact hphase
  | granted => exact hphase
  | returned d => exact hphase
  | aborted => exact hphase

namespace PermissionBroker

variable {A : Nat → Json → Prop}

/-- Every answer that a call has or had satisfies `A`. -/
def AllAnswered (A : Nat → Json → Prop) (b : PermissionBroker) : Prop :=
  ∀ call phase, b.calls.lookup call = some phase → phase.Answered (A call)

theorem AllAnswered.setPhase (h : AllAnswered A b) {call : Nat} {phase : Phase}
    (hphase : phase.Answered (A call)) : AllAnswered A (b.setPhase call phase) := by
  intro call' phase' hlookup
  rw [PermissionBroker.setPhase, HashMap.lookup_insert_eq] at hlookup
  split_ifs at hlookup with heq
  · cases hlookup
    rw [heq]
    exact hphase
  · exact h call' phase' hlookup

theorem AllAnswered.takeEntry (h : AllAnswered A b) {id : Nat} {slot : Slot}
    (hslot : ∀ call result, b.pending.lookup id = some call → slot = .value result → A call result) :
    AllAnswered A (b.takeEntry id slot) := by
  unfold PermissionBroker.takeEntry
  cases howner : b.pending.lookup id with
  | none => exact h
  | some owner =>
      have hfill : AllAnswered A (b.fill owner slot) := by
        unfold fill
        split
        · next phase hphase =>
            refine h.setPhase (Phase.answered_setSlot ?_ (h owner phase hphase))
            exact fun result heq => hslot owner result howner heq
        · exact h
      exact hfill

theorem AllAnswered.removeEntry (h : AllAnswered A b) (id : Nat) :
    AllAnswered A (b.removeEntry id) := by
  refine h.takeEntry ?_
  intro call result _ hslot
  cases hslot

theorem AllAnswered.register (h : AllAnswered A b) (call : Nat) :
    AllAnswered A (b.register call) := by
  refine (h.removeEntry b.nextId).setPhase ?_
  intro result hslot
  cases hslot

theorem AllAnswered.dropLease (h : AllAnswered A b) {call : Nat} {lease : Lease} {phase : Phase}
    (hphase : phase.Answered (A call)) : AllAnswered A (b.dropLease call lease phase) :=
  (h.removeEntry lease.id).setPhase hphase

theorem AllAnswered.step (h : AllAnswered A b) {input : Input}
    (hframe : ∀ msg id call result, input = .frame msg →
      classify msg = .response (.str (permId id)) result → b.pending.lookup id = some call →
        A call result) : AllAnswered A (step b input) := by
  cases input with
  | start call cancelSeen =>
      simp only [PermissionBroker.step]
      split
      · exact h
      · refine h.setPhase ?_
        cases cancelSeen <;> trivial
  | grant call =>
      simp only [PermissionBroker.step]
      split
      · split_ifs
        · exact h.setPhase trivial
        · exact h
      · exact h
  | poll call branch =>
      simp only [PermissionBroker.step]
      split
      · cases branch with
        | cancelled => exact h.setPhase trivial
        | deadline => exact h.setPhase trivial
        | _ => exact h
      · cases branch with
        | cancelled => exact h.setPhase trivial
        | deadline => exact h.setPhase trivial
        | acquired => exact h.register call
        | _ => exact h
      · next lease hcall =>
          have hlease := h call _ hcall
          cases branch with
          | sent cancelSeen => cases cancelSeen with
              | true => exact h.dropLease trivial
              | false => exact h.setPhase hlease
          | cancelled => exact h.dropLease trivial
          | deadline => exact h.dropLease trivial
          | wireClosed => exact h.dropLease trivial
          | _ => exact h
      · next lease hcall =>
          have hlease := h call _ hcall
          cases branch with
          | cancelled => exact h.dropLease trivial
          | deadline => exact h.dropLease trivial
          | received =>
              simp only [pollWaiting]
              split
              · exact h
              · next result hslot =>
                  refine h.dropLease ?_
                  unfold evaluate
                  split_ifs with hallow
                  · exact ⟨result, hlease result hslot, hallow⟩
                  · trivial
              · exact h.dropLease trivial
          | _ => exact h
      · exact h
  | abort call =>
      simp only [PermissionBroker.step]
      split
      · exact h.setPhase trivial
      · exact h.setPhase trivial
      · exact h.dropLease trivial
      · exact h.dropLease trivial
      · exact h
  | frame msg =>
      simp only [PermissionBroker.step]
      split
      · next id result hclass =>
          unfold PermissionBroker.deliver
          split
          · exact h
          · next key hkey =>
              split
              · exact h
              · have htaken : AllAnswered A (b.takeEntry key (.value result)) := by
                  refine h.takeEntry ?_
                  intro call result' hcall hslot
                  cases hslot
                  rw [parseId_some hkey] at hclass
                  exact hframe msg key call result rfl hclass hcall
                exact htaken
      · exact h

/-! ## Runs -/

theorem runFrom_snoc (maxPending : Nat) (inputs : List Input) (input : Input) :
    runFrom maxPending (inputs ++ [input]) = step (runFrom maxPending inputs) input := by
  simp [runFrom, Run.run]

theorem sound_runFrom (maxPending : Nat) (inputs : List Input) :
    Sound (max maxPending 1) (runFrom maxPending inputs) :=
  Run.invariant_of_step (Sound (max maxPending 1)) (fun _ input h => h.step input)
    (sound_new maxPending) inputs

theorem numbered_runFrom (maxPending : Nat) (inputs : List Input) :
    Numbered (runFrom maxPending inputs) :=
  Run.invariant_of_step Numbered (fun _ input h => h.step input) (numbered_new maxPending) inputs

/-- A frame of the run answered this call while its entry was pending. -/
def AnsweredIn (maxPending : Nat) (inputs : List Input) (call : Nat) (result : Json) : Prop :=
  ∃ before msg after id, inputs = before ++ .frame msg :: after ∧
    (runFrom maxPending before).pending.lookup id = some call ∧
    classify msg = .response (.str (permId id)) result

theorem AllAnswered.mono {A' : Nat → Json → Prop} (h : AllAnswered A b)
    (hA : ∀ call result, A call result → A' call result) : AllAnswered A' b := by
  intro call phase hphase
  have hold := h call phase hphase
  cases phase with
  | sending lease => exact fun result hslot => hA call result (hold result hslot)
  | waiting lease => exact fun result hslot => hA call result (hold result hslot)
  | returned d => cases d with
      | allowed =>
          rcases hold with ⟨result, hresult, hallow⟩
          exact ⟨result, hA call result hresult, hallow⟩
      | _ => trivial
  | _ => trivial

theorem allAnswered_runFrom (maxPending : Nat) (inputs : List Input) :
    AllAnswered (AnsweredIn maxPending inputs) (runFrom maxPending inputs) := by
  induction inputs using List.reverseRecOn with
  | nil =>
      intro call phase h
      cases h
  | append_singleton inputs input ih =>
      rw [runFrom_snoc]
      have hmono : AllAnswered (AnsweredIn maxPending (inputs ++ [input]))
          (runFrom maxPending inputs) := by
        refine ih.mono ?_
        rintro call result ⟨before, msg, after, id, rfl, hpending, hclass⟩
        exact ⟨before, msg, after ++ [input], id, by simp, hpending, hclass⟩
      refine hmono.step ?_
      rintro msg id call result rfl hclass hpending
      exact ⟨inputs, msg, [], id, rfl, hpending, hclass⟩

theorem step_frame_of_foreign {msg : Json}
    (h : ∀ id call, b.pending.lookup id = some call → msg.get "id" ≠ some (.str (permId id))) :
    step b (.frame msg) = b := by
  simp only [step]
  split
  · next id result hclass =>
      have hid : msg.get "id" = some id := by
        unfold classify at hclass
        split_ifs at hclass
        dsimp only at hclass
        split at hclass
        · cases hclass
        · cases hclass
        · next hid =>
            simp only [Inbound.response.injEq] at hclass
            rw [hid, hclass.1]
        · cases hclass
      unfold deliver
      split
      · rfl
      · next key hkey =>
          split
          · rfl
          · next call hcall =>
              refine absurd ?_ (h key call hcall)
              rw [hid, parseId_some hkey]
  · rfl

theorem Sound.pending_le (h : Sound capacity b) : b.pending.entries.length ≤ capacity := by
  have hlength : b.pending.entries.length = HashMap.total (fun _ _ => 1) b.pending := by
    simp [HashMap.total]
  have hle : HashMap.total (fun _ => Phase.unanswered) b.calls ≤
      HashMap.total (fun _ => Phase.permits) b.calls := by
    refine HashMap.total_le_total ?_ b.calls
    intro call phase
    cases phase with
    | sending lease => exact Bool.toNat_le _
    | waiting lease => exact Bool.toNat_le _
    | _ => exact Nat.zero_le _
  have hsum := h.permits
  rw [hlength, h.count]
  omega

theorem openId_eq_some_iff {phase : Phase} {id : Nat} :
    phase.openId = some id ↔
      ∃ lease, phase.lease = some lease ∧ lease.id = id ∧ lease.slot = .empty := by
  unfold Phase.openId
  cases phase.lease with
  | none => simp
  | some lease =>
      cases hslot : lease.slot with
      | empty => simp [hslot]
      | value result => simp [hslot]
      | closed => simp [hslot]

theorem nodup_map_mod {n : Nat} (h : n ≤ 2 ^ 64) :
    ((List.range n).map (· % 2 ^ 64)).Nodup := by
  refine List.Nodup.map_on ?_ List.nodup_range
  intro i hi j hj heq
  rw [List.mem_range] at hi hj
  rwa [Nat.mod_eq_of_lt (by omega), Nat.mod_eq_of_lt (by omega)] at heq

/-- In every state of every run: there are never more entries than the cap; every permit is
available or with a call that was granted it or has a lease; the entries are the leases whose answer
is still awaited; the `n`-th id is `n` modulo `2 ^ 64`, and no id resolves more often than it was
minted; a frame with a foreign id changes nothing; and a call is allowed only by a well-formed frame
with its own id that came while its entry was pending and selected the allow option. -/
theorem permission_broker_safety (maxPending : Nat) (inputs : List Input) :
    (runFrom maxPending inputs).pending.entries.length ≤ max maxPending 1 ∧
    (runFrom maxPending inputs).available +
      HashMap.total (fun _ => Phase.permits) (runFrom maxPending inputs).calls =
        max maxPending 1 ∧
    (∀ id call, (runFrom maxPending inputs).pending.lookup id = some call ↔
      ∃ phase lease, (runFrom maxPending inputs).calls.lookup call = some phase ∧
        phase.lease = some lease ∧ lease.id = id ∧ lease.slot = .empty) ∧
    (runFrom maxPending inputs).minted =
      (List.range (runFrom maxPending inputs).minted.length).map (· % 2 ^ 64) ∧
    ((runFrom maxPending inputs).minted.length ≤ 2 ^ 64 →
      (runFrom maxPending inputs).minted.Nodup) ∧
    (∀ n, (runFrom maxPending inputs).resolved.count n ≤
      (runFrom maxPending inputs).minted.count n) ∧
    (∀ msg, (∀ id call, (runFrom maxPending inputs).pending.lookup id = some call →
      msg.get "id" ≠ some (.str (permId id))) →
        step (runFrom maxPending inputs) (.frame msg) = runFrom maxPending inputs) ∧
    ∀ call, (runFrom maxPending inputs).calls.lookup call = some (.returned .allowed) →
      ∃ before msg after id result, inputs = before ++ .frame msg :: after ∧
        (runFrom maxPending before).pending.lookup id = some call ∧
        msg.get "id" = some (.str (permId id)) ∧ msg.get "method" = none ∧
        msg.get "result" = some result ∧ msg.get "error" = none ∧
        selectsAllow result = true := by
  have hsound := sound_runFrom maxPending inputs
  have hnumbered := numbered_runFrom maxPending inputs
  refine ⟨hsound.pending_le, hsound.permits, ?_, hnumbered.minted, ?_, ?_, ?_, ?_⟩
  · intro id call
    rw [hsound.entries, Option.bind_eq_some_iff]
    constructor
    · rintro ⟨phase, hphase, hopen⟩
      rcases openId_eq_some_iff.1 hopen with ⟨lease, hlease⟩
      exact ⟨phase, lease, hphase, hlease⟩
    · rintro ⟨phase, lease, hphase, hlease⟩
      exact ⟨phase, hphase, openId_eq_some_iff.2 ⟨lease, hlease⟩⟩
  · intro hlength
    rw [hnumbered.minted]
    exact nodup_map_mod hlength
  · intro n
    exact le_trans (Nat.le_add_right _ _) (hnumbered.resolved n)
  · intro msg hforeign
    exact step_frame_of_foreign hforeign
  · intro call hcall
    rcases allAnswered_runFrom maxPending inputs call _ hcall with
      ⟨result, ⟨before, msg, after, id, heq, hpending, hclass⟩, hallow⟩
    rcases classify_allowed hclass hallow with ⟨hid, hmethod, hresult, herror⟩
    exact ⟨before, msg, after, id, result, heq, hpending, hid, hmethod, hresult, herror, hallow⟩

/-! ## What the entries and ids do not do -/

/-- A call that is admitted, registered and aborted. -/
def abortedCall (call : Nat) : List Input :=
  [.start call false, .grant call, .poll call .acquired, .abort call]

theorem run_abortedCall {b : PermissionBroker} {call : Nat}
    (hpending : ∀ id, b.pending.lookup id = none) (hcall : b.calls.lookup call = none)
    (havailable : 0 < b.available) :
    (∀ id, (Run.run step b (abortedCall call)).pending.lookup id = none) ∧
      (Run.run step b (abortedCall call)).available = b.available ∧
      (Run.run step b (abortedCall call)).minted.length = b.minted.length + 1 ∧
      ∀ other, other ≠ call →
        (Run.run step b (abortedCall call)).calls.lookup other = b.calls.lookup other := by
  have hlookup : ∀ (m : HashMap Nat Phase) phase, (m.insert call phase).lookup call = some phase :=
    fun m phase => by rw [HashMap.lookup_insert_eq, if_pos rfl]
  have hother : ∀ (m : HashMap Nat Phase) phase other, other ≠ call →
      (m.insert call phase).lookup other = m.lookup other :=
    fun m phase other hne => by rw [HashMap.lookup_insert_eq, if_neg hne]
  have hentry : (b.pending.insert b.nextId call).lookup b.nextId = some call := by
    rw [HashMap.lookup_insert_eq, if_pos rfl]
  have hrun : Run.run step b (abortedCall call) =
      { b with
        available := b.available - 1 + 1
        pending := (b.pending.insert b.nextId call).erase b.nextId
        nextId := (b.nextId + 1) % 2 ^ 64
        calls := (((((b.calls.insert call .admitting).insert call .granted).insert call
          (.sending ⟨b.nextId, .empty⟩)).insert call (.sending ⟨b.nextId, .closed⟩)).insert call
            .aborted)
        minted := b.minted ++ [b.nextId] } := by
    simp only [Run.run, abortedCall, List.foldl_cons, List.foldl_nil, step, hcall, setPhase,
      hlookup, havailable, if_true, pollAdmission, register, removeEntry, takeEntry, hpending,
      dropLease, hentry, fill, Phase.setSlot, Bool.false_eq_true, if_false]
  rw [hrun]
  refine ⟨?_, ?_, ?_, ?_⟩
  · intro id
    dsimp only
    rw [HashMap.lookup_erase_eq, HashMap.lookup_insert_eq]
    split_ifs
    · rfl
    · exact hpending id
  · exact Nat.sub_add_cancel havailable
  · exact List.length_append
  · intro other hne
    dsimp only
    rw [hother _ _ _ hne, hother _ _ _ hne, hother _ _ _ hne, hother _ _ _ hne, hother _ _ _ hne]

/-- So many calls, one after the other. -/
def abortedCalls (n : Nat) : List Input := (List.range n).flatMap abortedCall

theorem run_abortedCalls (n : Nat) :
    (∀ id, (runFrom 1 (abortedCalls n)).pending.lookup id = none) ∧
      (runFrom 1 (abortedCalls n)).available = 1 ∧
      (runFrom 1 (abortedCalls n)).minted.length = n ∧
      ∀ call, n ≤ call → (runFrom 1 (abortedCalls n)).calls.lookup call = none := by
  induction n with
  | zero => exact ⟨fun _ => rfl, rfl, rfl, fun _ _ => rfl⟩
  | succ n ih =>
      rcases ih with ⟨hpending, havailable, hlength, hcalls⟩
      have hsplit : runFrom 1 (abortedCalls (n + 1)) =
          Run.run step (runFrom 1 (abortedCalls n)) (abortedCall n) := by
        simp [runFrom, Run.run, abortedCalls, List.range_succ, List.flatMap_append]
      rcases run_abortedCall hpending (hcalls n (le_refl n)) (by omega) with
        ⟨hpending', havailable', hlength', hcalls'⟩
      rw [hsplit]
      refine ⟨hpending', by rw [havailable', havailable], by rw [hlength', hlength], ?_⟩
      intro call hcall
      rw [hcalls' call (by omega)]
      exact hcalls call (by omega)

theorem minted_again : ¬(runFrom 1 (abortedCalls (2 ^ 64 + 1))).minted.Nodup := by
  have hminted := (numbered_runFrom 1 (abortedCalls (2 ^ 64 + 1))).minted
  rw [(run_abortedCalls (2 ^ 64 + 1)).2.2.1] at hminted
  rw [hminted]
  intro hnodup
  have hsame := List.inj_on_of_nodup_map hnodup (x := 0) (y := 2 ^ 64)
    (List.mem_range.2 (Nat.succ_pos _)) (List.mem_range.2 (Nat.lt_succ_self _))
    ((Nat.zero_mod _).trans (Nat.mod_self _).symm)
  exact absurd hsame (by decide)

namespace Sample

/-- A reply that selects the allow option of the first request. -/
def allowFirst : Json :=
  .obj [("jsonrpc".toList, .str "2.0".toList), ("id".toList, .str "perm-0".toList),
    ("result".toList, .obj [("outcome".toList, .obj [("outcome".toList, .str "selected".toList),
      ("optionId".toList, .str "allow_once".toList)])])]

/-- One call whose answer has arrived, before it is polled again. -/
def answered : List Input :=
  [.start 1 false, .grant 1, .poll 1 .acquired, .poll 1 (.sent false), .frame allowFirst]

end Sample

/-- A lease whose answer has arrived holds a permit without an entry, and ids come back after
`2 ^ 64` requests. -/
theorem lease_without_entry :
    ((runFrom 1 Sample.answered).pending.entries.length = 0 ∧
      HashMap.total (fun _ => Phase.permits) (runFrom 1 Sample.answered).calls = 1 ∧
      ((runFrom 1 Sample.answered).calls.lookup 1).any (fun phase => phase.lease.isSome) = true) ∧
    ¬(runFrom 1 (abortedCalls (2 ^ 64 + 1))).minted.Nodup :=
  ⟨⟨by decide, by decide, by decide⟩, minted_again⟩

end PermissionBroker

end Agent
end Maju
