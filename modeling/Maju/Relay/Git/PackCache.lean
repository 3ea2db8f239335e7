import Maju.Lib.SingleFlight

/-!
# PackCache — calls that share a bounded cache of packs

Any number of `materialize_pack` calls run at once.  The index of the cache is guarded by a lock,
the population of a pack by a flight for its digest, and an evicted directory is removed after the
lock of the index is released.

* `State.lookup`, `State.insert`, `State.invalidate`, `State.evict` — what is done under the lock of
  the index;
* `State.stepCall`, `State.cancelCall`, `step` — the next step of one call, or its end when its task
  is dropped; the order of the steps is any;
* `State.toFlights`, `toFlights_step` — the flights are those of `Maju.Lib.SingleFlight`;
* `calls_coordinated` — what holds in any order, whatever fails and whichever calls are dropped.

A directory is there with both of its files or not at all, and is removed in one step.  Every access
to the object store or the file system may fail.
-/

namespace Maju
namespace Relay
namespace Git
namespace PackCache

open Lib

/-! ## The state -/

/-- `u64::saturating_add`. -/
def saturatingAdd (a b : Nat) : Nat := min (a + b) (2 ^ 64 - 1)

/-- The limits of a cache, and the sizes of packs and indexes. -/
structure Params (α : Type) where
  maxBytes : Nat
  maxConcurrentPopulations : Nat
  populations_pos : 0 < maxConcurrentPopulations
  packBytes : α → Nat
  idxBytes : α → Nat

variable {α : Type}

def Params.size (p : Params α) (digest : α) : Nat :=
  saturatingAdd (p.packBytes digest) (p.idxBytes digest)

/-- What a call fails with: the population, the publication of its directory, the check of what was
published, or the copy of an entry. -/
inductive HydrateError where
  | populate
  | publish
  | incomplete
  | copyCached
  deriving DecidableEq, Repr

/-- What a call does next. -/
inductive Stage where
  | lookup
  | linkHit
  | dropHit
  | invalidate
  | invalidateDir
  | join
  | lock
  | recheck
  | acquire
  | fetch
  | check
  | clear
  | rename
  | publish
  | insert
  | link
  | drop
  | unlock
  | leave
  | removeFlight
  | prune
  | sweep
  | returned
  deriving DecidableEq, Repr

/-- An entry of the cache, told from others of its digest by a number, or a staging directory. -/
inductive Entry where
  | cached (serial : Nat)
  | temporary
  deriving DecidableEq, Repr

/-- One call: its flight, the entry and the removed record that it holds, the directories that it
has yet to remove, what has come of it, and whether its task was dropped. -/
structure Call (α : Type) where
  digest : α
  stage : Stage
  flight : Nat
  entry : Option Entry
  removed : Option Nat
  pending : List α
  result : Option (Except HydrateError Nat)
  cancelled : Bool

/-- `CacheRecord`. -/
structure Record (α : Type) where
  digest : α
  serial : Nat
  lastUsed : Nat
  deriving DecidableEq, Repr

/-- The index, which a lock guards. -/
structure CacheState (α : Type) where
  entries : List (Record α)
  totalBytes : Nat
  tick : Nat

structure State (α : Type) where
  cache : CacheState α
  nextSerial : Nat
  dirs : α → Bool
  permits : Nat
  flights : α → Option Nat
  participants : Nat → Nat
  nextFlight : Nat
  calls : List (Call α)

def init (p : Params α) : State α :=
  ⟨⟨[], 0, 0⟩, 0, fun _ => false, p.maxConcurrentPopulations, fun _ => none, fun _ => 0, 0, []⟩

/-! ## The flights -/

/-- `populate` runs. -/
def Stage.populating : Stage → Bool
  | .acquire | .fetch | .check | .clear | .rename | .publish | .insert => true
  | _ => false

/-- The lock of a flight is held from the second lookup to the end of the population. -/
def Stage.holdsLock : Stage → Bool
  | .recheck | .acquire | .fetch | .check | .clear | .rename | .publish | .insert | .link | .drop
  | .unlock => true
  | _ => false

/-- A flight is taken part in from the wait for its lock on. -/
def Stage.participates (stage : Stage) : Bool :=
  stage = .lock || stage.holdsLock || stage = .leave

def State.locked (s : State α) (flight : Nat) : Bool :=
  s.calls.any fun c => c.stage.holdsLock && c.flight = flight

def State.put (s : State α) (i : Nat) (c : Call α) : State α := { s with calls := s.calls.set i c }

/-- Where a call stands with its flight. -/
def Call.phase (c : Call α) : SingleFlight.Phase α :=
  match c.stage with
  | .lock => .waiting c.digest c.flight
  | .leave => .unlocked c.digest c.flight
  | .removeFlight => .last c.digest c.flight
  | stage => if stage.holdsLock then .owner c.digest c.flight else .outside

def State.toFlights (s : State α) : SingleFlight.Flights α :=
  ⟨s.flights, s.participants, s.nextFlight, s.calls.map Call.phase⟩

section Flights

variable {s : State α} {i : Nat} {c : Call α}

theorem toFlights_phases (h : s.calls[i]? = some c) : s.toFlights.phases[i]? = some c.phase := by
  rw [State.toFlights, List.getElem?_map, h]
  rfl

theorem put_self (h : s.calls[i]? = some c) : s.put i c = s := by
  obtain ⟨hlt, hget⟩ := List.getElem?_eq_some_iff.1 h
  have hsame := List.set_getElem_self hlt
  rw [hget] at hsame
  rw [State.put, hsame]

theorem toFlights_put (h : s.calls[i]? = some c) {s' : State α} {c' : Call α}
    (hflights : s'.flights = s.flights) (hparticipants : s'.participants = s.participants)
    (hnext : s'.nextFlight = s.nextFlight) (hcalls : s'.calls = s.calls)
    (hphase : c'.phase = c.phase) : (s'.put i c').toFlights = s.toFlights := by
  have hset : (s.calls.set i c').map Call.phase = s.calls.map Call.phase := by
    have hself := congrArg State.calls (put_self h)
    rw [List.map_set, hphase, ← List.map_set]
    exact congrArg (List.map Call.phase) hself
  simp only [State.toFlights, State.put, hflights, hparticipants, hnext, hcalls, hset]

theorem locked_iff (s : State α) (f : Nat) : s.locked f = true ↔ s.toFlights.Locked f := by
  unfold State.locked SingleFlight.Flights.Locked
  rw [List.any_eq_true]
  constructor
  · rintro ⟨c, hc, hholds⟩
    obtain ⟨hlock, hflight⟩ := Bool.and_eq_true_iff.1 hholds
    refine ⟨c.phase, List.mem_map_of_mem hc, c.digest, ?_⟩
    cases hstage : c.stage <;> rw [hstage] at hlock <;> try cases hlock
    all_goals simp only [Call.phase, hstage, Stage.holdsLock, if_true, of_decide_eq_true hflight]
  · rintro ⟨ph, hph, k, hk⟩
    obtain ⟨c, hc, rfl⟩ := List.mem_map.1 hph
    refine ⟨c, hc, ?_⟩
    cases hstage : c.stage <;> simp_all [Call.phase, Stage.holdsLock]

end Flights

variable [DecidableEq α]

/-! ## Under the lock of the index -/

/-- The references that a call holds to an entry. -/
def Call.refs (digest : α) (serial : Nat) (c : Call α) : Nat :=
  (if c.digest = digest ∧ c.entry = some (.cached serial) then 1 else 0) +
    if c.digest = digest ∧ c.removed = some serial then 1 else 0

/-- The record of a digest is used at this tick. -/
def touch (digest : α) (tick : Nat) (r : Record α) : Record α :=
  if r.digest = digest then { r with lastUsed := tick } else r

/-- `min_by_key`; which of several is first is up to the map. -/
def oldest (tie : List (Record α) → Nat) (candidates : List (Record α)) : Option (Record α) :=
  let least := candidates.filter fun r => ∀ r' ∈ candidates, r.lastUsed ≤ r'.lastUsed
  least[tie least % least.length]?

namespace CacheState

def get? (s : CacheState α) (digest : α) : Option (Record α) :=
  s.entries.find? fun r => r.digest = digest

/-- The tick goes on even where nothing is found. -/
def lookup (s : CacheState α) (dirs : α → Bool) (digest : α) : CacheState α × Option Nat :=
  let tick := saturatingAdd s.tick 1
  match s.get? digest with
  | none => ({ s with tick }, none)
  | some r =>
      if dirs digest then
        ({ s with tick, entries := s.entries.map (touch digest tick) }, some r.serial)
      else ({ s with tick }, none)

/-- The index without a digest, and its bytes. -/
def remove (p : Params α) (s : CacheState α) (digest : α) : CacheState α :=
  match s.get? digest with
  | none => s
  | some r =>
      { s with
        entries := s.entries.filter fun r => r.digest ≠ digest
        totalBytes := s.totalBytes - p.size r.digest }

def insert (p : Params α) (s : CacheState α) (digest : α) (serial : Nat) : CacheState α :=
  let tick := saturatingAdd s.tick 1
  let s := s.remove p digest
  { tick
    entries := ⟨digest, serial, tick⟩ :: s.entries
    totalBytes := saturatingAdd s.totalBytes (p.size digest) }

/-- `Arc::strong_count`. -/
def strongCount (s : CacheState α) (calls : List (Call α)) (digest : α) (serial : Nat) : Nat :=
  s.entries.countP (fun r => r.digest = digest ∧ r.serial = serial) +
    (calls.map (Call.refs digest serial)).sum

/-- The records that nothing but the index refers to. -/
def candidates (s : CacheState α) (calls : List (Call α)) : List (Record α) :=
  s.entries.filter fun r => s.strongCount calls r.digest r.serial = 1

/-- The loop of `prune`, which makes at most as many turns as there are records; the digests that
it removes, in order. -/
def evict (p : Params α) (calls : List (Call α)) (tie : List (Record α) → Nat) :
    Nat → CacheState α → CacheState α × List α
  | 0, s => (s, [])
  | n + 1, s =>
      if s.totalBytes ≤ p.maxBytes then (s, [])
      else
        match oldest tie (s.candidates calls) with
        | none => (s, [])
        | some r =>
            let rest := (s.remove p r.digest).evict p calls tie n
            (rest.1, r.digest :: rest.2)

/-- `prune`, up to the removal of the directories. -/
def prune (p : Params α) (calls : List (Call α)) (tie : List (Record α) → Nat)
    (s : CacheState α) : CacheState α × List α :=
  s.evict p calls tie s.entries.length

end CacheState

/-! ## The records of the index -/

namespace CacheState

variable {p : Params α} {s : CacheState α} {dirs : α → Bool} {digest : α} {r : Record α}
  {calls : List (Call α)} {tie : List (Record α) → Nat}

theorem get?_none (h : s.get? digest = none) : ∀ r ∈ s.entries, r.digest ≠ digest := by
  intro r hr heq
  exact List.find?_eq_none.1 h r hr (decide_eq_true heq)

theorem lookup_entries (s : CacheState α) (dirs : α → Bool) (digest : α) :
    (s.lookup dirs digest).1.totalBytes = s.totalBytes ∧
      ∃ tick, (s.lookup dirs digest).1.entries = s.entries ∨
        (s.lookup dirs digest).1.entries = s.entries.map (touch digest tick) := by
  unfold lookup
  cases s.get? digest with
  | none => exact ⟨rfl, 0, Or.inl rfl⟩
  | some r =>
      dsimp only
      split_ifs
      · exact ⟨rfl, _, Or.inr rfl⟩
      · exact ⟨rfl, 0, Or.inl rfl⟩

theorem length_lookup (s : CacheState α) (dirs : α → Bool) (digest : α) :
    (s.lookup dirs digest).1.entries.length = s.entries.length := by
  obtain ⟨-, tick, heq | heq⟩ := lookup_entries s dirs digest
  · rw [heq]
  · rw [heq, List.length_map]

theorem remove_entries (p : Params α) (s : CacheState α) (digest : α) :
    (s.remove p digest).entries = s.entries.filter fun r => r.digest ≠ digest := by
  unfold remove
  cases hget : s.get? digest with
  | none =>
      refine (List.filter_eq_self.2 ?_).symm
      exact fun r hr => decide_eq_true (get?_none hget r hr)
  | some r => rfl

theorem length_remove_lt (p : Params α) (hr : r ∈ s.entries) :
    (s.remove p r.digest).entries.length < s.entries.length := by
  rw [remove_entries]
  refine Nat.lt_of_le_of_ne (List.length_filter_le ..) ?_
  intro heq
  have hall := List.length_filter_eq_length_iff.1 heq r hr
  exact of_decide_eq_true hall rfl

theorem length_insert_le (p : Params α) (s : CacheState α) (digest : α) (serial : Nat) :
    (s.insert p digest serial).entries.length ≤ s.entries.length + 1 := by
  unfold insert
  simp only [List.length_cons, remove_entries]
  exact Nat.succ_le_succ (List.length_filter_le ..)

theorem oldest_mem (h : oldest tie (s.candidates calls) = some r) :
    r ∈ s.entries ∧ s.strongCount calls r.digest r.serial = 1 := by
  have hmem : r ∈ s.candidates calls :=
    List.mem_of_mem_filter (List.mem_of_getElem? h)
  exact ⟨List.mem_of_mem_filter hmem, of_decide_eq_true (List.mem_filter.1 hmem).2⟩

theorem length_evict_le (p : Params α) (calls : List (Call α)) (tie : List (Record α) → Nat)
    (n : Nat) (s : CacheState α) :
    (s.evict p calls tie n).1.entries.length + (s.evict p calls tie n).2.length ≤
      s.entries.length := by
  induction n generalizing s with
  | zero => exact Nat.le_refl _
  | succ n ih =>
      unfold evict
      split_ifs
      · exact Nat.le_refl _
      · cases hold : oldest tie (s.candidates calls) with
        | none => exact Nat.le_refl _
        | some r =>
            have hrest := ih (s.remove p r.digest)
            have hlt := length_remove_lt p (oldest_mem hold).1
            simp only [List.length_cons]
            omega

end CacheState

/-! ## One call -/

/-- What a step takes from outside: which of several oldest records is first, and whether the store
and the file system do what they are asked. -/
structure Turn (α : Type) where
  tie : List (Record α) → Nat
  ok : Bool

/-- The directory of a digest is seen; a fault hides it. -/
def State.sees (s : State α) (turn : Turn α) (digest : α) : Bool := turn.ok && s.dirs digest

/-- The pack and its index are linked or copied. -/
def State.installs (s : State α) (turn : Turn α) (c : Call α) : Bool :=
  turn.ok && (decide (c.entry = some .temporary) || s.dirs c.digest)

/-- A directory appears or is removed, unless that fails. -/
def State.setDir (s : State α) (turn : Turn α) (digest : α) (there : Bool) : State α :=
  { s with dirs := if turn.ok then Function.update s.dirs digest there else s.dirs }

/-- The permit of a population is released. -/
def State.release (s : State α) : State α := { s with permits := s.permits + 1 }

/-- `populate` fails. -/
def State.failed (s : State α) (c : Call α) (error : HydrateError) : State α × Call α :=
  (s.release, { c with stage := .unlock, result := some (.error error) })

/-- An entry that `CachedPack::from_dir` finds. -/
def State.found (s : State α) (c : Call α) : State α × Call α :=
  ({ s with nextSerial := s.nextSerial + 1 },
    { c with stage := .insert, entry := some (.cached s.nextSerial) })

/-- A flight is joined, or registered. -/
def State.join (s : State α) (c : Call α) : State α × Call α :=
  match s.flights c.digest with
  | some f =>
      ({ s with participants := Function.update s.participants f (s.participants f + 1) },
        { c with stage := .lock, flight := f })
  | none =>
      ({ s with
          flights := Function.update s.flights c.digest (some s.nextFlight)
          participants := Function.update s.participants s.nextFlight 1
          nextFlight := s.nextFlight + 1 },
        { c with stage := .lock, flight := s.nextFlight })

/-- The next step of a call: what is shared by the calls, and the call after it. -/
def State.stepCall (p : Params α) (s : State α) (c : Call α) (turn : Turn α) :
    State α × Call α :=
  match c.stage with
  | .lookup =>
      ({ s with cache := (s.cache.lookup (s.sees turn) c.digest).1 },
        match (s.cache.lookup (s.sees turn) c.digest).2 with
        | some n => { c with stage := .linkHit, entry := some (.cached n) }
        | none => { c with stage := .join })
  | .linkHit =>
      (s,
        if s.installs turn c then
          { c with stage := .dropHit, result := some (.ok (p.packBytes c.digest)) }
        else { c with stage := .invalidate })
  | .dropHit => (s, { c with stage := .prune, entry := none })
  | .invalidate =>
      ({ s with cache := s.cache.remove p c.digest },
        { c with
          stage := .invalidateDir
          removed := (s.cache.get? c.digest).map Record.serial })
  | .invalidateDir =>
      -- the count is taken, and the directory removed, after the lock is released
      (match c.removed with
        | some n =>
            if s.cache.strongCount s.calls c.digest n = 1 then s.setDir turn c.digest false else s
        | none => s,
        { c with stage := .join, entry := none, removed := none })
  | .join => s.join c
  | .lock => (s, if s.locked c.flight then c else { c with stage := .recheck })
  | .recheck =>
      ({ s with cache := (s.cache.lookup (s.sees turn) c.digest).1 },
        match (s.cache.lookup (s.sees turn) c.digest).2 with
        | some n => { c with stage := .link, entry := some (.cached n) }
        | none => { c with stage := .acquire })
  | .acquire =>
      if s.permits = 0 then (s, c)
      else ({ s with permits := s.permits - 1 }, { c with stage := .fetch })
  | .fetch =>
      if !turn.ok then s.failed c .populate
      else if p.maxBytes = 0 ∨ p.maxBytes < p.size c.digest then
        (s.release, { c with stage := .link, entry := some .temporary })
      else (s, { c with stage := .check })
  | .check => if s.sees turn c.digest then s.found c else (s, { c with stage := .clear })
  | .clear => (s.setDir turn c.digest false, { c with stage := .rename })
  | .rename =>
      -- the name is taken: somebody else has published the pack
      if s.dirs c.digest then if turn.ok then s.found c else s.failed c .publish
      else if turn.ok then (s.setDir turn c.digest true, { c with stage := .publish })
      else s.failed c .publish
  | .publish => if s.sees turn c.digest then s.found c else s.failed c .incomplete
  | .insert =>
      match c.entry with
      | some (.cached n) =>
          (({ s with cache := s.cache.insert p c.digest n } : State α).release,
            { c with stage := .link })
      | _ => (s, c)
  | .link =>
      (s,
        if s.installs turn c then
          { c with stage := .drop, result := some (.ok (p.packBytes c.digest)) }
        else { c with stage := .drop, result := some (.error .copyCached) })
  | .drop => (s, { c with stage := .unlock, entry := none })
  | .unlock => (s, { c with stage := .leave })
  | .leave =>
      ({ s with
          participants := Function.update s.participants c.flight (s.participants c.flight - 1) },
        { c with
          stage :=
            if s.participants c.flight = 1 then .removeFlight
            else if c.cancelled then .returned else .prune })
  | .removeFlight =>
      ({ s with
          flights :=
            if s.flights c.digest = some c.flight ∧ s.participants c.flight = 0 then
              Function.update s.flights c.digest none
            else s.flights },
        { c with stage := if c.cancelled then .returned else .prune })
  | .prune =>
      ({ s with cache := (s.cache.prune p s.calls turn.tie).1 },
        { c with stage := .sweep, pending := (s.cache.prune p s.calls turn.tie).2 })
  | .sweep =>
      match c.pending with
      | [] => (s, { c with stage := .returned })
      | digest :: rest => (s.setDir turn digest false, { c with pending := rest })
  | .returned => (s, c)

/-- The task of a call is dropped where it awaits something: what the call holds is dropped, in the
order of its scopes, and no more is done.  A removal or a rename that has begun goes on. -/
def State.cancelCall (s : State α) (c : Call α) (turn : Turn α) : State α × Call α :=
  let ended := { c with entry := none, cancelled := true }
  match c.stage with
  | .linkHit => (s, { ended with stage := .returned })
  | .lock => (s, { ended with stage := .leave })
  | .acquire | .link => (s, { ended with stage := .unlock })
  | .fetch => (s.release, { ended with stage := .unlock })
  | .clear => ((s.setDir turn c.digest false).release, { ended with stage := .unlock })
  | .rename => ((s.setDir turn c.digest true).release, { ended with stage := .unlock })
  | _ => (s, c)

def Call.new (digest : α) : Call α := ⟨digest, .lookup, 0, none, none, [], none, false⟩

inductive Action (α : Type) where
  | call (digest : α)
  | step (i : Nat) (turn : Turn α)
  | cancel (i : Nat) (turn : Turn α)

/-- A new call begins, or a call goes on or is dropped. -/
def step (p : Params α) (s : State α) : Action α → State α
  | .call digest => { s with calls := s.calls ++ [Call.new digest] }
  | .step i turn =>
      match s.calls[i]? with
      | some c => (s.stepCall p c turn).1.put i (s.stepCall p c turn).2
      | none => s
  | .cancel i turn =>
      match s.calls[i]? with
      | some c => (s.cancelCall c turn).1.put i (s.cancelCall c turn).2
      | none => s

/-! ## The steps, seen from the flights -/

section Flights

variable {p : Params α} {s : State α} {i : Nat} {c : Call α}

/-- The stages in which a call moves on with its flight. -/
def Stage.moves : Stage → Bool
  | .join | .lock | .unlock | .leave | .removeFlight => true
  | _ => false

theorem stepCall_calls (p : Params α) (s : State α) (c : Call α) (turn : Turn α) :
    (s.stepCall p c turn).1.calls = s.calls := by
  cases hstage : c.stage <;>
    simp only [State.stepCall, hstage, State.found, State.join, State.failed, State.release,
      State.setDir]
  all_goals (repeat' split) <;> rfl

omit [DecidableEq α] in
theorem moves_cases {stage : Stage} (h : stage.moves = true) :
    stage = .join ∨ stage = .lock ∨ stage = .unlock ∨ stage = .leave ∨ stage = .removeFlight := by
  cases stage <;> first | (simp; done) | exact absurd h (by decide)

/-- What is shared by the flights, and the phase of the call, are as they were. -/
structure Stutters (s : State α) (c : Call α) (next : State α × Call α) : Prop where
  calls : next.1.calls = s.calls
  flights : next.1.flights = s.flights
  participants : next.1.participants = s.participants
  nextFlight : next.1.nextFlight = s.nextFlight
  phase : next.2.phase = c.phase

omit [DecidableEq α] in
theorem Stutters.toFlights_put {next : State α × Call α} (h : Stutters s c next)
    (hi : s.calls[i]? = some c) : (next.1.put i next.2).toFlights = s.toFlights :=
  PackCache.toFlights_put hi h.flights h.participants h.nextFlight h.calls h.phase

theorem stepCall_stutters (p : Params α) (s : State α) (h : c.stage.moves = false)
    (turn : Turn α) : Stutters s c (s.stepCall p c turn) := by
  cases hstage : c.stage
  case join | lock | unlock | leave | removeFlight => exact absurd (hstage ▸ h) (by decide)
  all_goals
    simp only [State.stepCall, hstage, State.found, State.failed, State.release, State.setDir]
    (repeat' split) <;> constructor <;> simp only [Call.phase, hstage, Stage.holdsLock] <;> rfl

theorem toFlights_stepCall (p : Params α) (hi : s.calls[i]? = some c) (turn : Turn α) :
    ∃ moves, ((s.stepCall p c turn).1.put i (s.stepCall p c turn).2).toFlights =
      Run.run SingleFlight.step s.toFlights moves := by
  have hphase := toFlights_phases hi
  have hrun : ∀ m, Run.run SingleFlight.step s.toFlights [m] =
      SingleFlight.step s.toFlights m := fun _ => rfl
  cases hmoves : c.stage.moves with
  | false => exact ⟨[], (stepCall_stutters p s hmoves turn).toFlights_put hi⟩
  | true =>
      rcases moves_cases hmoves with hstage | hstage | hstage | hstage | hstage
      · refine ⟨[.join i c.digest], ?_⟩
        have hout : c.phase = .outside := by simp [Call.phase, hstage, Stage.holdsLock]
        rw [hrun, SingleFlight.step, hphase, hout]
        simp only [State.stepCall, hstage, State.join, SingleFlight.Flights.join]
        cases hf : s.flights c.digest with
        | some f => simp [State.toFlights, State.put, hf, Call.phase]
        | none => simp [State.toFlights, State.put, hf, Call.phase]
      · have hwait : c.phase = .waiting c.digest c.flight := by simp [Call.phase, hstage]
        simp only [State.stepCall, hstage]
        cases hlocked : s.locked c.flight with
        | true => exact ⟨[], toFlights_put hi rfl rfl rfl rfl rfl⟩
        | false =>
            refine ⟨[.lock i], ?_⟩
            have hfree : ¬ s.toFlights.Locked c.flight := by
              rw [← locked_iff, hlocked]
              exact Bool.false_ne_true
            rw [hrun, SingleFlight.step, hphase, hwait]
            simp only [if_neg hfree]
            simp [State.toFlights, State.put, Call.phase, Stage.holdsLock]
      · refine ⟨[.unlock i], ?_⟩
        have howner : c.phase = .owner c.digest c.flight := by
          simp [Call.phase, hstage, Stage.holdsLock]
        rw [hrun, SingleFlight.step, hphase, howner]
        simp [State.stepCall, hstage, State.toFlights, State.put, Call.phase]
      · refine ⟨[.leave i], ?_⟩
        have hunlocked : c.phase = .unlocked c.digest c.flight := by simp [Call.phase, hstage]
        rw [hrun, SingleFlight.step, hphase, hunlocked]
        simp only [State.stepCall, hstage, SingleFlight.Flights.leave]
        by_cases hone : s.participants c.flight = 1
        · simp [State.toFlights, State.put, Call.phase, hone]
        · cases c.cancelled <;>
            simp [State.toFlights, State.put, Call.phase, hone, Stage.holdsLock]
      · refine ⟨[.forget i], ?_⟩
        have hlast : c.phase = .last c.digest c.flight := by simp [Call.phase, hstage]
        rw [hrun, SingleFlight.step, hphase, hlast]
        have hout : ∀ b : Bool, (if b then Stage.returned else .prune).holdsLock = false ∧
            Call.phase { c with stage := if b then .returned else .prune } = .outside := by
          intro b
          cases b <;> exact ⟨rfl, rfl⟩
        simp only [State.stepCall, hstage, SingleFlight.Flights.forget, State.toFlights,
          State.put, List.map_set, (hout _).2]
        congr

theorem toFlights_cancelCall (hi : s.calls[i]? = some c) (turn : Turn α) :
    ∃ moves, ((s.cancelCall c turn).1.put i (s.cancelCall c turn).2).toFlights =
      Run.run SingleFlight.step s.toFlights moves := by
  by_cases hlock : c.stage = .lock
  · refine ⟨[.giveUp i], ?_⟩
    have hwait : c.phase = .waiting c.digest c.flight := by simp [Call.phase, hlock]
    change _ = SingleFlight.step s.toFlights (.giveUp i)
    rw [SingleFlight.step, toFlights_phases hi, hwait]
    simp [State.cancelCall, hlock, State.toFlights, State.put, Call.phase]
  · have hstutters : Stutters s c (s.cancelCall c turn) := by
      constructor
      all_goals
        cases hstage : c.stage <;>
          simp only [State.cancelCall, hstage, State.release, State.setDir, Call.phase,
            Stage.holdsLock, if_true, Bool.false_eq_true, if_false]
      all_goals exact absurd hstage hlock
    exact ⟨[], hstutters.toFlights_put hi⟩

/-- Each step is a move of the flights or leaves them as they are. -/
theorem toFlights_step (p : Params α) (s : State α) (a : Action α) :
    ∃ moves, (step p s a).toFlights = Run.run SingleFlight.step s.toFlights moves := by
  cases a with
  | call digest =>
      refine ⟨[.arrive], ?_⟩
      simp only [step, State.toFlights, List.map_append]
      rfl
  | step i turn =>
      simp only [step]
      cases hi : s.calls[i]? with
      | none => exact ⟨[], rfl⟩
      | some c => exact toFlights_stepCall p hi turn
  | cancel i turn =>
      simp only [step]
      cases hi : s.calls[i]? with
      | none => exact ⟨[], rfl⟩
      | some c => exact toFlights_cancelCall hi turn

end Flights

/-! ## What a call holds -/

/-- A permit is held from its acquisition to the end of the population. -/
def Stage.holdsPermit : Stage → Bool
  | .fetch | .check | .clear | .rename | .publish | .insert => true
  | _ => false

def Call.permit (c : Call α) : Nat := if c.stage.holdsPermit then 1 else 0

/-- It is settled what the call returns. -/
def Stage.settled : Stage → Bool
  | .dropHit | .drop | .unlock | .leave | .removeFlight | .prune | .sweep | .returned => true
  | _ => false

/-- Only a call that removes directories has any to remove; what is inserted is there; a settled
call has a result, unless it was dropped; and no length but that of the pack is returned. -/
def Call.Tidy (p : Params α) (c : Call α) : Prop :=
  (c.pending ≠ [] → c.stage = .sweep) ∧ (c.stage = .insert → ∃ n, c.entry = some (.cached n)) ∧
    (c.stage.settled = true → c.cancelled = false → c.result.isSome = true) ∧
    ∀ n, c.result = some (.ok n) → n = p.packBytes c.digest

section Permits

variable {p : Params α} {s : State α} {i : Nat} {c : Call α}

omit [DecidableEq α] in
theorem Call.Tidy.pending_nil (h : c.Tidy p) (hstage : c.stage ≠ .sweep) : c.pending = [] := by
  by_contra hne
  exact hstage (h.1 hne)

theorem stepCall_tidy (h : c.Tidy p) (turn : Turn α) : (s.stepCall p c turn).2.Tidy p := by
  cases hstage : c.stage
  case sweep =>
    have hresult := h.2.2.1 (hstage ▸ rfl)
    have hlength := h.2.2.2
    simp only [State.stepCall, hstage]
    cases c.pending with
    | nil => simp_all [Call.Tidy, Stage.settled]
    | cons digest rest => simp_all [Call.Tidy, Stage.settled]
  all_goals
    have hpending := h.1
    have hentry := h.2.1
    have hresult := h.2.2.1
    have hlength := h.2.2.2
    simp only [State.stepCall, hstage, State.found, State.join, State.failed, Call.Tidy]
    (repeat' split) <;> simp_all [Stage.settled]

theorem cancelCall_tidy (h : c.Tidy p) (turn : Turn α) : (s.cancelCall c turn).2.Tidy p := by
  have hpending := h.1
  have hlength := h.2.2.2
  cases hstage : c.stage
  case linkHit | lock | acquire | link | fetch | clear | rename =>
    simp_all [State.cancelCall, Call.Tidy]
  all_goals
    simp only [State.cancelCall, hstage]
    exact h

theorem stepCall_permits (h : c.Tidy p) (turn : Turn α) :
    (s.stepCall p c turn).1.permits + (s.stepCall p c turn).2.permit = s.permits + c.permit := by
  cases hstage : c.stage
  case insert =>
    obtain ⟨n, hentry⟩ := h.2.1 hstage
    simp [State.stepCall, hstage, hentry, Call.permit, Stage.holdsPermit, State.release]
  all_goals
    simp only [State.stepCall, hstage, State.found, State.join, State.failed, State.release,
      State.setDir, Call.permit]
  all_goals (repeat' split) <;> simp_all [Stage.holdsPermit]
  omega

theorem cancelCall_permits (turn : Turn α) :
    (s.cancelCall c turn).1.permits + (s.cancelCall c turn).2.permit = s.permits + c.permit := by
  cases hstage : c.stage <;>
    simp [State.cancelCall, hstage, State.release, State.setDir, Call.permit, Stage.holdsPermit]

end Permits

/-! ## Progress -/

def Stage.rank : Stage → Nat
  | .lookup => 25
  | .linkHit => 24
  | .dropHit => 23
  | .invalidate => 23
  | .invalidateDir => 22
  | .join => 21
  | .lock => 20
  | .recheck => 19
  | .acquire => 18
  | .fetch => 17
  | .check => 16
  | .clear => 15
  | .rename => 14
  | .publish => 13
  | .insert => 12
  | .link => 10
  | .drop => 9
  | .unlock => 8
  | .leave => 7
  | .removeFlight => 6
  | .prune => 5
  | .sweep => 1
  | .returned => 0

def Call.left (c : Call α) : Nat := c.stage.rank + c.pending.length

/-- How many steps the calls have left at most. -/
def State.left (s : State α) : Nat := (s.calls.map Call.left).sum + s.cache.entries.length

/-- A call waits for the lock of its flight or for a permit, or has returned. -/
def State.Blocked (s : State α) (c : Call α) : Prop :=
  (c.stage = .lock ∧ s.locked c.flight = true) ∨ (c.stage = .acquire ∧ s.permits = 0) ∨
    c.stage = .returned

section Progress

variable {p : Params α} {s : State α} {i : Nat} {c : Call α}

theorem stepCall_blocked (h : s.Blocked c) (turn : Turn α) : s.stepCall p c turn = (s, c) := by
  rcases h with ⟨hstage, hlocked⟩ | ⟨hstage, hzero⟩ | hstage
  · simp [State.stepCall, hstage, hlocked]
  · simp [State.stepCall, hstage, hzero]
  · simp [State.stepCall, hstage]

theorem stepCall_left (h : c.Tidy p) (hfree : ¬ s.Blocked c) (turn : Turn α) :
    (s.stepCall p c turn).2.left + (s.stepCall p c turn).1.cache.entries.length <
      c.left + s.cache.entries.length := by
  have hlookup := CacheState.length_lookup s.cache (s.sees turn) c.digest
  cases hstage : c.stage
  case invalidate =>
    have hremove : (s.cache.remove p c.digest).entries.length ≤ s.cache.entries.length := by
      rw [CacheState.remove_entries]
      exact List.length_filter_le ..
    simp only [State.stepCall, hstage, Call.left, Stage.rank]
    omega
  case lock =>
    have hlocked : s.locked c.flight = false := by
      by_contra hlocked
      exact hfree (Or.inl ⟨hstage, Bool.eq_true_of_not_eq_false hlocked⟩)
    simp [State.stepCall, hstage, hlocked, Call.left, Stage.rank]
  case acquire =>
    have hpermit : s.permits ≠ 0 := fun hzero => hfree (Or.inr (Or.inl ⟨hstage, hzero⟩))
    simp [State.stepCall, hstage, hpermit, Call.left, Stage.rank]
  case insert =>
    obtain ⟨n, hentry⟩ := h.2.1 hstage
    have hinsert := CacheState.length_insert_le p s.cache c.digest n
    simp only [State.stepCall, hstage, hentry, State.release, Call.left, Stage.rank]
    omega
  case prune =>
    have hnil := h.pending_nil (by rw [hstage]; decide)
    have hprune := CacheState.length_evict_le p s.calls turn.tie s.cache.entries.length s.cache
    simp only [State.stepCall, hstage, Call.left, Stage.rank, CacheState.prune, hnil]
    simp only [List.length_nil]
    omega
  case sweep =>
    simp only [State.stepCall, hstage]
    cases hpending : c.pending with
    | nil => simp [Call.left, hstage, hpending, Stage.rank]
    | cons digest rest => simp [Call.left, hstage, hpending, Stage.rank, State.setDir]
  case returned => exact absurd (Or.inr (Or.inr hstage)) hfree
  all_goals
    simp only [State.stepCall, hstage, State.found, State.join, State.failed, State.release,
      State.setDir, Call.left]
  all_goals (repeat' split) <;> simp_all [Stage.rank]

theorem cancelCall_left (turn : Turn α) :
    (s.cancelCall c turn).2.left + (s.cancelCall c turn).1.cache.entries.length ≤
      c.left + s.cache.entries.length := by
  cases hstage : c.stage <;>
    simp [State.cancelCall, hstage, State.release, State.setDir, Call.left, Stage.rank]

end Progress

/-! ## Runs -/

/-- What every step keeps, whatever the order of the steps. -/
structure Kept (p : Params α) (s : State α) : Prop where
  flights : SingleFlight.Inv s.toFlights
  permits : s.permits + (s.calls.map Call.permit).sum = p.maxConcurrentPopulations
  tidy : ∀ c ∈ s.calls, c.Tidy p

section Runs

variable {p : Params α} {s : State α} {i j : Nat} {c c' : Call α}

omit [DecidableEq α] in
theorem kept_init (p : Params α) : Kept p (init p) where
  flights := SingleFlight.inv_init
  permits := rfl
  tidy _ hc := by cases hc

/-- What a call does in a step, or at its end. -/
structure Advances (p : Params α) (s : State α) (c : Call α) (next : State α × Call α) : Prop where
  calls : next.1.calls = s.calls
  permits : next.1.permits + next.2.permit = s.permits + c.permit
  tidy : next.2.Tidy p
  left : next.2.left + next.1.cache.entries.length ≤ c.left + s.cache.entries.length

theorem stepCall_advances (h : c.Tidy p) (turn : Turn α) :
    Advances p s c (s.stepCall p c turn) where
  calls := stepCall_calls ..
  permits := stepCall_permits h turn
  tidy := stepCall_tidy h turn
  left := by
    by_cases hblocked : s.Blocked c
    · rw [stepCall_blocked hblocked turn]
    · exact Nat.le_of_lt (stepCall_left h hblocked turn)

theorem cancelCall_advances (h : c.Tidy p) (turn : Turn α) :
    Advances p s c (s.cancelCall c turn) where
  calls := by
    cases hstage : c.stage <;> simp only [State.cancelCall, hstage, State.release, State.setDir]
  permits := cancelCall_permits turn
  tidy := cancelCall_tidy h turn
  left := cancelCall_left turn

theorem Kept.step_cases (h : Kept p s) (a : Action α) :
    (∃ digest, a = .call digest) ∨ step p s a = s ∨
      ∃ (i : Nat) (c : Call α) (next : State α × Call α), s.calls[i]? = some c ∧
        step p s a = next.1.put i next.2 ∧ Advances p s c next := by
  cases a with
  | call digest => exact Or.inl ⟨digest, rfl⟩
  | step i turn =>
      right
      simp only [step]
      cases hi : s.calls[i]? with
      | none => exact Or.inl rfl
      | some c =>
          have htidy := h.tidy c (List.mem_of_getElem? hi)
          exact Or.inr ⟨i, c, _, hi, rfl, stepCall_advances htidy turn⟩
  | cancel i turn =>
      right
      simp only [step]
      cases hi : s.calls[i]? with
      | none => exact Or.inl rfl
      | some c =>
          have htidy := h.tidy c (List.mem_of_getElem? hi)
          exact Or.inr ⟨i, c, _, hi, rfl, cancelCall_advances htidy turn⟩

theorem Kept.step (h : Kept p s) (a : Action α) : Kept p (step p s a) := by
  have hflights : SingleFlight.Inv (PackCache.step p s a).toFlights := by
    obtain ⟨moves, heq⟩ := toFlights_step p s a
    rw [heq]
    exact h.flights.run moves
  rcases h.step_cases a with ⟨digest, rfl⟩ | hsame | ⟨i, c, next, hi, heq, hnext⟩
  · refine ⟨hflights, ?_, fun c hc => ?_⟩
    · have hpermits := h.permits
      simpa [PackCache.step, Call.new, Call.permit, Stage.holdsPermit] using hpermits
    · rcases List.mem_append.1 hc with hc | hc
      · exact h.tidy c hc
      · rw [List.mem_singleton.1 hc]
        simp [Call.Tidy, Call.new, Stage.settled]
  · rw [hsame]
    exact h
  · have hcalls : (PackCache.step p s a).calls = s.calls.set i next.2 := by
      rw [heq, State.put, hnext.calls]
    refine ⟨hflights, ?_, fun c' hc' => ?_⟩
    · have hsum := Slots.sum_map_set Call.permit hi next.2
      have hone := hnext.permits
      have hall := h.permits
      rw [hcalls, heq]
      change next.1.permits + _ = _
      omega
    · rw [hcalls] at hc'
      rcases List.mem_or_eq_of_mem_set hc' with hc' | rfl
      · exact h.tidy c' hc'
      · exact hnext.tidy

theorem kept_run (p : Params α) (actions : List (Action α)) :
    Kept p (Run.run (step p) (init p) actions) :=
  Run.invariant_of_step (Kept p) (fun _ a h => h.step a) (kept_init p) actions

omit [DecidableEq α] in
theorem Kept.population_unique (h : Kept p s) (hi : s.calls[i]? = some c)
    (hj : s.calls[j]? = some c') (hholds : c.stage.holdsLock = true)
    (hholds' : c'.stage.holdsLock = true) (hdigest : c.digest = c'.digest) : i = j := by
  have howner : ∀ {c : Call α}, c.stage.holdsLock = true →
      c.phase = .owner c.digest c.flight := by
    intro c hc
    cases hstage : c.stage <;> simp_all [Call.phase, Stage.holdsLock]
  have hphase := toFlights_phases hi
  have hphase' := toFlights_phases hj
  rw [howner hholds] at hphase
  rw [howner hholds', ← hdigest] at hphase'
  exact h.flights.owner_unique hphase hphase'

theorem Kept.left_step (h : Kept p s) (hi : s.calls[i]? = some c) (hfree : ¬ s.Blocked c)
    (turn : Turn α) : (PackCache.step p s (.step i turn)).left < s.left := by
  have hone := stepCall_left (p := p) (h.tidy c (List.mem_of_getElem? hi)) hfree turn
  have hsum := Slots.sum_map_set Call.left hi (s.stepCall p c turn).2
  simp only [PackCache.step, hi, State.left, State.put, stepCall_calls]
  omega

theorem Kept.left_step_le (h : Kept p s) {a : Action α} (ha : ∀ digest, a ≠ .call digest) :
    (PackCache.step p s a).left ≤ s.left := by
  rcases h.step_cases a with ⟨digest, hcall⟩ | hsame | ⟨i, c, next, hi, heq, hnext⟩
  · exact absurd hcall (ha digest)
  · rw [hsame]
  · have hsum := Slots.sum_map_set Call.left hi next.2
    have hone := hnext.left
    rw [heq]
    simp only [State.left, State.put, hnext.calls]
    omega

omit [DecidableEq α] in
theorem Kept.exists_population (h : Kept p s) (hzero : s.permits = 0) :
    ∃ c ∈ s.calls, ¬ s.Blocked c := by
  by_contra hnone
  have hall : (s.calls.map Call.permit).sum = 0 := by
    refine List.sum_eq_zero fun n hn => ?_
    obtain ⟨c, hc, rfl⟩ := List.mem_map.1 hn
    refine if_neg fun hholds => hnone ⟨c, hc, ?_⟩
    rintro (⟨hstage, -⟩ | ⟨hstage, -⟩ | hstage)
    all_goals
      rw [hstage] at hholds
      cases hholds
  have hsum := h.permits
  have hpos := p.populations_pos
  omega

omit [DecidableEq α] in
theorem Kept.exists_of_not_waiting (h : Kept p s) (hc : c ∈ s.calls) (hlock : c.stage ≠ .lock)
    (hreturned : c.stage ≠ .returned) : ∃ c ∈ s.calls, ¬ s.Blocked c := by
  by_cases hzero : s.permits = 0
  · exact h.exists_population hzero
  · refine ⟨c, hc, ?_⟩
    rintro (⟨hstage, -⟩ | ⟨-, hpermits⟩ | hstage)
    · exact hlock hstage
    · exact hzero hpermits
    · exact hreturned hstage

omit [DecidableEq α] in
/-- A call that waits for the lock of its flight waits for the owner of the lock; so as long as a
call has not returned, some call can go on. -/
theorem Kept.exists_unblocked (h : Kept p s) (hrunning : ∃ c ∈ s.calls, c.stage ≠ .returned) :
    ∃ (i : Nat) (c : Call α), s.calls[i]? = some c ∧ ¬ s.Blocked c := by
  suffices hfree : ∃ c ∈ s.calls, ¬ s.Blocked c by
    obtain ⟨c, hc, hfree⟩ := hfree
    obtain ⟨i, hi⟩ := List.mem_iff_getElem?.1 hc
    exact ⟨i, c, hi, hfree⟩
  obtain ⟨c, hc, hreturned⟩ := hrunning
  by_cases hlock : c.stage = .lock
  · cases hlocked : s.locked c.flight with
    | false =>
        refine ⟨c, hc, ?_⟩
        rintro (⟨-, hlocked'⟩ | ⟨hstage, -⟩ | hstage)
        · cases hlocked.symm.trans hlocked'
        · cases hlock.symm.trans hstage
        · exact hreturned hstage
    | true =>
        obtain ⟨owner, howner, hholds⟩ := List.any_eq_true.1 hlocked
        have hholds := (Bool.and_eq_true_iff.1 hholds).1
        refine h.exists_of_not_waiting howner ?_ ?_
        · intro hstage
          rw [hstage] at hholds
          cases hholds
        · intro hstage
          rw [hstage] at hholds
          cases hholds
  · exact h.exists_of_not_waiting hc hlock hreturned

theorem Kept.finish (h : Kept p s) (turns : Nat → Turn α) :
    ∃ steps : List Nat, ∀ c ∈ (Run.run (PackCache.step p) s
      (steps.mapIdx fun n i => .step i (turns n))).calls, c.stage = .returned := by
  induction hn : s.left using Nat.strong_induction_on generalizing s turns with
  | h n ih =>
      subst hn
      by_cases hrunning : ∃ c ∈ s.calls, c.stage ≠ .returned
      · obtain ⟨i, c, hi, hfree⟩ := h.exists_unblocked hrunning
        obtain ⟨steps, hsteps⟩ := ih _ (h.left_step hi hfree (turns 0)) (h.step (.step i (turns 0)))
          (fun n => turns (n + 1)) rfl
        refine ⟨i :: steps, ?_⟩
        rw [List.mapIdx_cons]
        exact hsteps
      · refine ⟨[], fun c hc => ?_⟩
        by_contra hstage
        exact hrunning ⟨c, hc, hstage⟩

/-! ## Calls in any order -/

/-- What holds of the calls in any order of their steps, whatever fails and whoever is dropped: one
population of a digest at a time and no more than there are permits; who takes part in a flight
finds it registered, and a registered flight has a participant or is about to be removed; a call
that was not dropped returns a result, of no other length than the pack's; only a new call leads
away from the end, some step of some call leads closer to it, and all calls can be brought there. -/
structure Coordinated (p : Params α) (s : State α) : Prop where
  population : ∀ (i j : Nat) (c c' : Call α), s.calls[i]? = some c → s.calls[j]? = some c' →
    c.stage.populating = true → c'.stage.populating = true → c.digest = c'.digest → i = j
  permits : s.permits + s.calls.countP (fun c => c.stage.holdsPermit) = p.maxConcurrentPopulations
  registered : ∀ c ∈ s.calls, c.stage.participates = true → s.flights c.digest = some c.flight
  flights : ∀ digest f, s.flights digest = some f → ∃ c ∈ s.calls, c.digest = digest ∧
    c.flight = f ∧ (c.stage.participates = true ∨ c.stage = .removeFlight)
  results : ∀ c ∈ s.calls, c.stage = .returned →
    (c.cancelled = false → c.result.isSome = true) ∧
      ∀ n, c.result = some (.ok n) → n = p.packBytes c.digest
  progress : (∀ a, (∀ digest, a ≠ .call digest) → (PackCache.step p s a).left ≤ s.left) ∧
    ((∃ c ∈ s.calls, c.stage ≠ .returned) → ∃ i, ∀ turn,
      (PackCache.step p s (.step i turn)).left < s.left)
  finish : ∀ turns : Nat → Turn α, ∃ steps : List Nat, ∀ c ∈ (Run.run (PackCache.step p) s
    (steps.mapIdx fun n i => .step i (turns n))).calls, c.stage = .returned

omit [DecidableEq α] in
theorem participates_iff :
    c.stage.participates = true ↔ c.phase.flight = some (c.digest, c.flight) := by
  cases hstage : c.stage <;>
    simp [Stage.participates, Call.phase, hstage, Stage.holdsLock, SingleFlight.Phase.flight]

theorem Kept.coordinated (h : Kept p s) : Coordinated p s where
  population i j c c' hi hj hpopulating hpopulating' hdigest := by
    have hlock : ∀ stage : Stage, stage.populating = true → stage.holdsLock = true := by
      intro stage hstage
      cases stage <;> first | rfl | cases hstage
    exact h.population_unique hi hj (hlock _ hpopulating) (hlock _ hpopulating') hdigest
  permits := by
    have hsum : (s.calls.map Call.permit).sum =
        s.calls.countP (fun c => c.stage.holdsPermit) := by
      induction s.calls with
      | nil => rfl
      | cons c calls ih =>
          rw [List.map_cons, List.sum_cons, ih, List.countP_cons, Nat.add_comm]
          rfl
    rw [← hsum]
    exact h.permits
  registered c hc hparticipates := by
    obtain ⟨i, hi⟩ := List.mem_iff_getElem?.1 hc
    exact h.flights.registered (toFlights_phases hi) (participates_iff.1 hparticipates)
  flights digest f hf := by
    rcases h.flights.present hf with hpos | ⟨i, hi⟩
    · -- the participants are counted among the calls
      rw [h.flights.counted f] at hpos
      obtain ⟨n, hn, hne⟩ := List.exists_mem_ne_zero_of_sum_ne_zero (Nat.ne_of_gt hpos)
      obtain ⟨ph, hph, rfl⟩ := List.mem_map.1 hn
      obtain ⟨i, hi⟩ := List.mem_iff_getElem?.1 hph
      obtain ⟨c, hc, rfl⟩ := List.mem_map.1 hph
      obtain ⟨k, hflight⟩ := SingleFlight.flight_of_weight hne
      obtain rfl := h.flights.inj (h.flights.registered hi hflight) hf
      have hparticipates : c.stage.participates = true := by
        cases hstage : c.stage.participates with
        | true => rfl
        | false =>
            cases hstage' : c.stage <;>
              simp_all [Stage.participates, Call.phase, Stage.holdsLock, SingleFlight.Phase.flight]
      have hsame := (participates_iff.1 hparticipates).symm.trans hflight
      simp only [Option.some.injEq, Prod.mk.injEq] at hsame
      exact ⟨c, hc, hsame.1, hsame.2, Or.inl hparticipates⟩
    · obtain ⟨c, hc, hlast⟩ := List.mem_map.1 (List.mem_of_getElem? hi)
      have hstage : c.stage = .removeFlight ∧ c.digest = digest ∧ c.flight = f := by
        cases hstage : c.stage <;> simp_all [Call.phase, Stage.holdsLock]
      exact ⟨c, hc, hstage.2.1, hstage.2.2, Or.inr hstage.1⟩
  results c hc hreturned := by
    obtain ⟨-, -, hresult, hlength⟩ := h.tidy c hc
    exact ⟨hresult (hreturned ▸ rfl), hlength⟩
  progress := by
    refine ⟨fun a => h.left_step_le, fun hrunning => ?_⟩
    obtain ⟨i, c, hi, hfree⟩ := h.exists_unblocked hrunning
    exact ⟨i, h.left_step hi hfree⟩
  finish := h.finish

/-- Calls for any packs, in any order of their steps, with any faults and ends. -/
theorem calls_coordinated (p : Params α) (actions : List (Action α)) :
    Coordinated p (Run.run (PackCache.step p) (init p) actions) :=
  (kept_run p actions).coordinated

end Runs

end PackCache
end Git
end Relay
end Maju
