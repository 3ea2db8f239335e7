import Maju.Core.Nostr
import Maju.Lib.HashMap
import Maju.Lib.Run

/-!
# Owners — the registry of the huddle leases that a pod holds

The registry keeps one entry for a session: the lease that this pod owns, with the tokens that its
renewer and its peers watch.  Its calls are sequences of single operations on a concurrent map and
on a draining flag, which interleave freely:

* `Registry.step` — one map or flag operation of a call of `attach_signals`, `release`, `drain` or
  `drain_all`;
* `Removes` — what the calls that take out an entry do;
* `release_stale` — they do nothing to an entry of another generation.
-/

namespace Maju
namespace Relay
namespace Audio

open Lib Core

/-! ## Leases and tokens -/

/-- A lease of a session; the directory numbers the leases of a session of a community. -/
structure HuddleLease where
  community : Uuid
  session : Uuid
  generation : Nat
  deriving DecidableEq, Repr

/-- A token that a call hands out: of the renewer of a lease, or made for the call alone. -/
inductive Token where
  | lost (lease : HuddleLease)
  | draining (lease : HuddleLease)
  | unused (lease : HuddleLease)
  deriving DecidableEq, Repr

/-- The lease that a token belongs to. -/
def Token.lease : Token → HuddleLease
  | .lost lease => lease
  | .draining lease => lease
  | .unused lease => lease

structure HuddleOwnerSignals where
  lost : Token
  draining : Token
  deriving DecidableEq, Repr

def HuddleOwnerSignals.of (lease : HuddleLease) : HuddleOwnerSignals :=
  ⟨.lost lease, .draining lease⟩

/-! ## Calls in progress -/

/-- Where a call of `attach_signals` is: the draining flag is to be read; the map is to be looked
up; the renewer runs and the entry is to be inserted; the flag is to be read again; the entry is to
be removed; the tokens of the call are to be cancelled. -/
inductive Attach where
  | started (lease : HuddleLease)
  | checked (lease : HuddleLease)
  | vacant (lease : HuddleLease)
  | inserted (lease : HuddleLease)
  | retracting (lease : HuddleLease)
  | retracted (lease : HuddleLease)
  | returned (lease : HuddleLease) (signals : HuddleOwnerSignals)
  deriving DecidableEq, Repr

/-- Where a call of `drain_all` is; the shards before `shard` are visited, and `rooms` are the
entries seen. -/
inductive DrainAll where
  | started
  | visiting (shard : Nat) (rooms : List (Uuid × Nat))
  | draining (rooms : List (Uuid × Nat)) (count : Nat)
  | returned (count : Nat)
  deriving DecidableEq, Repr

/-- The shards of the concurrent map. -/
structure Shards where
  count : Nat
  of : Uuid → Nat
  lt_count : ∀ session, of session < count

/-- The registry and its calls, with the leases whose renewer's caller token or whose drain token
was cancelled. -/
structure Registry where
  entries : HashMap Uuid HuddleLease
  draining : Bool
  attaches : HashMap Nat Attach
  drains : HashMap Nat DrainAll
  cancelled : List HuddleLease
  drained : List HuddleLease

inductive RegistryInput where
  | attach (call : Nat) (lease : HuddleLease)
  | advance (call : Nat)
  | release (session : Uuid) (generation : Nat)
  | drain (session : Uuid) (generation : Nat)
  | drainAll (call : Nat)
  | advanceDrain (call : Nat)
  deriving DecidableEq, Repr

namespace Registry

def new : Registry := ⟨∅, false, ∅, ∅, [], []⟩

def lostFor (r : Registry) (session : Uuid) : Option Token := (r.entries.lookup session).map .lost

def drainFor (r : Registry) (session : Uuid) : Option Token :=
  (r.entries.lookup session).map .draining

/-- `release`: remove the entry of this generation and cancel its renewer. -/
def release (r : Registry) (session : Uuid) (generation : Nat) : Registry :=
  match r.entries.lookup session with
  | some lease =>
      if lease.generation = generation then
        { r with entries := r.entries.erase session, cancelled := lease :: r.cancelled }
      else r
  | none => r

/-- `drain`: as `release`, with the drain token cancelled first; says whether it removed. -/
def drain (r : Registry) (session : Uuid) (generation : Nat) : Registry × Bool :=
  match r.entries.lookup session with
  | some lease =>
      if lease.generation = generation then
        ({ r with
            entries := r.entries.erase session
            cancelled := lease :: r.cancelled
            drained := lease :: r.drained }, true)
      else (r, false)
  | none => (r, false)

def setAttach (r : Registry) (call : Nat) (phase : Attach) : Registry :=
  { r with attaches := r.attaches.insert call phase }

def setDrain (r : Registry) (call : Nat) (phase : DrainAll) : Registry :=
  { r with drains := r.drains.insert call phase }

/-- A throwaway renewer, cancelled before it starts, releases the lease. -/
def throwAway (r : Registry) (lease : HuddleLease) : Registry :=
  { r with cancelled := lease :: r.cancelled }

/-- The next operation of `attach_signals`. -/
def advance (r : Registry) (call : Nat) : Attach → Registry
  | .started lease =>
      if r.draining then
        (r.throwAway lease).setAttach call (.returned lease ⟨.unused lease, .unused lease⟩)
      else r.setAttach call (.checked lease)
  | .checked lease =>
      match r.entries.lookup lease.session with
      | some existing =>
          -- a live entry owns the room: hand out its signals
          (r.throwAway lease).setAttach call (.returned lease (.of existing))
      | none => r.setAttach call (.vacant lease)
  | .vacant lease =>
      ({ r with entries := r.entries.insert lease.session lease } : Registry).setAttach call
        (.inserted lease)
  | .inserted lease =>
      if r.draining then r.setAttach call (.retracting lease)
      else r.setAttach call (.returned lease (.of lease))
  | .retracting lease =>
      ((r.drain lease.session lease.generation).1).setAttach call (.retracted lease)
  | .retracted lease =>
      ({ r with cancelled := lease :: r.cancelled, drained := lease :: r.drained } :
        Registry).setAttach call (.returned lease (.of lease))
  | .returned _ _ => r

/-- The entries of one shard, with their generations. -/
def shardRooms (r : Registry) (shards : Shards) (shard : Nat) : List (Uuid × Nat) :=
  (r.entries.entries.filter fun e => shards.of e.1 = shard).map fun e => (e.1, e.2.generation)

/-- The next operation of `drain_all`. -/
def advanceDrain (r : Registry) (shards : Shards) (call : Nat) : DrainAll → Registry
  | .started => ({ r with draining := true } : Registry).setDrain call (.visiting 0 [])
  | .visiting shard rooms =>
      if shard < shards.count then
        r.setDrain call (.visiting (shard + 1) (rooms ++ r.shardRooms shards shard))
      else r.setDrain call (.draining rooms 0)
  | .draining [] count => r.setDrain call (.returned count)
  | .draining ((session, generation) :: rooms) count =>
      let (r, removed) := r.drain session generation
      r.setDrain call (.draining rooms (if removed then count + 1 else count))
  | .returned _ => r

def step (shards : Shards) (r : Registry) : RegistryInput → Registry
  | .attach call lease =>
      match r.attaches.lookup call with
      | none => r.setAttach call (.started lease)
      | some _ => r
  | .advance call =>
      match r.attaches.lookup call with
      | some phase => r.advance call phase
      | none => r
  | .release session generation => r.release session generation
  | .drain session generation => (r.drain session generation).1
  | .drainAll call =>
      match r.drains.lookup call with
      | none => r.setDrain call .started
      | some _ => r
  | .advanceDrain call =>
      match r.drains.lookup call with
      | some phase => r.advanceDrain shards call phase
      | none => r

end Registry

/-! ## What a removal does -/

variable {r : Registry}

/-- The leases that a removal takes out of the map are cancelled. -/
structure Removes (r r' : Registry) : Prop where
  entries : ∀ session lease, r'.entries.lookup session = some lease →
    r.entries.lookup session = some lease
  removed : ∀ session lease, r.entries.lookup session = some lease →
    r'.entries.lookup session = some lease ∨ lease ∈ r'.cancelled
  cancelled : ∀ lease ∈ r.cancelled, lease ∈ r'.cancelled
  attaches : r'.attaches = r.attaches
  drains : r'.drains = r.drains
  draining : r'.draining = r.draining

theorem Removes.refl (r : Registry) : Removes r r :=
  ⟨fun _ _ h => h, fun _ _ h => Or.inl h, fun _ h => h, rfl, rfl, rfl⟩

theorem removes_erase {session : Uuid} {lease : HuddleLease} {drained : List HuddleLease}
    (hlease : r.entries.lookup session = some lease) :
    Removes r
      { r with
        entries := r.entries.erase session
        cancelled := lease :: r.cancelled
        drained := drained } := by
  refine ⟨?_, ?_, fun l hl => List.mem_cons_of_mem lease hl, rfl, rfl, rfl⟩
  · intro session' lease' hlease'
    rw [HashMap.lookup_erase_eq] at hlease'
    split_ifs at hlease'
    exact hlease'
  · intro session' lease' hlease'
    by_cases hsame : session' = session
    · -- the entry taken out is the one whose token was cancelled
      rw [hsame, hlease] at hlease'
      cases hlease'
      exact Or.inr List.mem_cons_self
    · refine Or.inl ?_
      rw [HashMap.lookup_erase_eq, if_neg hsame]
      exact hlease'

theorem removes_release (r : Registry) (session : Uuid) (generation : Nat) :
    Removes r (r.release session generation) := by
  unfold Registry.release
  split
  · next lease hlease =>
      split_ifs
      · exact removes_erase hlease
      · exact Removes.refl r
  · exact Removes.refl r

theorem removes_drain (r : Registry) (session : Uuid) (generation : Nat) :
    Removes r (r.drain session generation).1 := by
  unfold Registry.drain
  split
  · next lease hlease =>
      split_ifs
      · exact removes_erase hlease
      · exact Removes.refl r
  · exact Removes.refl r

theorem lookup_drain_ne {session : Uuid} {generation : Nat} {lease : HuddleLease}
    (h : (r.drain session generation).1.entries.lookup session = some lease) :
    lease.generation ≠ generation := by
  unfold Registry.drain at h
  split at h
  · next found hfound =>
      split_ifs at h with hgeneration
      · change (r.entries.erase session).lookup session = some lease at h
        rw [HashMap.lookup_erase_eq, if_pos rfl] at h
        cases h
      · change r.entries.lookup session = some lease at h
        rw [hfound] at h
        cases h
        exact hgeneration
  · next hnone =>
      change r.entries.lookup session = some lease at h
      rw [hnone] at h
      cases h

/-- A release or drain of another generation than that of the entry changes nothing. -/
theorem release_stale {session : Uuid} {generation : Nat}
    (h : ∀ lease, r.entries.lookup session = some lease → lease.generation ≠ generation) :
    r.release session generation = r ∧ r.drain session generation = (r, false) := by
  unfold Registry.release Registry.drain
  cases hlease : r.entries.lookup session with
  | none => exact ⟨rfl, rfl⟩
  | some lease => simp [h lease hlease]

end Audio
end Relay
end Maju
