import Maju.Acp.Usage.Counts

/-!
# Connection — the agent and the tracker at the two ends of a pipe

The agent folds each response into the counters of its session and puts a notification with the
cumulative counters into the pipe; the tracker takes the notifications out in order, whatever
session they belong to.

- `Timely`: the notifications of a session arrive between a `begin_turn` and its `take`.
- `Sequenced`: whatever the tracker is told, it numbers the records of each session from one.
-/

namespace Maju
namespace Acp

open Lib Agent

/-! ## The connection -/

/-- A session on the agent's side: its counters, and the turn that is running. -/
structure AgentSession where
  usage : SessionUsage
  turn : Option (Endpoint × TurnCounters)

/-- The agent, the notifications that the tracker has not read, oldest first, the tracker, and what
has happened. -/
structure Connection where
  agent : HashMap Text AgentSession
  pipe : List (Text × UsageUpdatePayload)
  tracker : UsageTracker
  log : List UsageEvent

/-- What the agent, its provider and the harness do: `spawn` is `session/new` and the seed behind
it, `summarize` the answer to a request for a context summary, and `deliver` reads the oldest
notification. -/
inductive UsageStep where
  | spawn (sessionId : Text)
  | beginTurn (sessionId : Text)
  | prompt (sessionId : Text) (endpoint : Endpoint)
  | respond (sessionId : Text) (usage : RoundUsage)
  | summarize (sessionId : Text) (usage : RoundUsage)
  | finish (sessionId : Text)
  | deliver
  | take

namespace Connection

def start : Connection := ⟨∅, [], .init, []⟩

def track (c : Connection) (op : UsageOp) : Connection :=
  { c with tracker := (c.tracker.apply op).1, log := c.log ++ (c.tracker.apply op).2 }

/-- `goose_session_update`. -/
def send (c : Connection) (sessionId : Text) (update : Option UsageUpdate) : Connection :=
  { c with pipe := c.pipe ++ (update.map fun u => (sessionId, .ofUpdate u)).toList }

def setSession (c : Connection) (sessionId : Text) (session : AgentSession) : Connection :=
  { c with agent := c.agent.insert sessionId session }

def write (c : Connection) (e : UsageEvent) : Connection := { c with log := c.log ++ [e] }

def step (c : Connection) : UsageStep → Connection
  | .spawn id =>
      match c.agent.lookup id with
      | some _ => c
      | none => (c.setSession id ⟨.fresh, none⟩).track (.seed id)
  | .beginTurn id => c.track (.beginTurn id)
  | .prompt id endpoint =>
      match c.agent.lookup id with
      | some ⟨usage, none⟩ => c.setSession id ⟨usage, some (endpoint, .start usage)⟩
      | _ => c
  | .respond id usage =>
      match c.agent.lookup id with
      | some ⟨session, some (endpoint, turn)⟩ =>
          let (turn, update) := turn.respond endpoint usage
          ((c.setSession id ⟨session, some (endpoint, turn)⟩).write (.responded id usage)).send
            id update
      | _ => c
  | .summarize id usage =>
      match c.agent.lookup id with
      -- `summarize` returns the text of the response and nothing else.
      | some ⟨_, some _⟩ => c.write (.summarized id usage)
      | _ => c
  | .finish id =>
      match c.agent.lookup id with
      | some ⟨session, some (endpoint, turn)⟩ =>
          let (session, update) := session.endTurn endpoint turn
          (c.setSession id ⟨session, none⟩).send id update
      | _ => c
  | .deliver =>
      match c.pipe with
      | [] => c
      | (id, payload) :: rest => ({ c with pipe := rest }).track (.record id payload)
  | .take => c.track .take

/-- The notifications of a session arrive between a `begin_turn` and its `take`. -/
def Timely (c : Connection) : UsageStep → Prop
  | .deliver => ∀ n ∈ c.pipe.head?, c.tracker.inFlightSession = some n.1
  | .take => ∀ n ∈ c.pipe, c.tracker.inFlightSession ≠ some n.1
  | _ => True

/-- The unread notifications of a session. -/
def queue (c : Connection) (sessionId : Text) : List UsageUpdatePayload :=
  c.pipe.filterMap fun n => if n.1 = sessionId then some n.2 else none

/-! ## Published numbers -/

/-- The number of the last published record of a session. -/
def seqOf (t : UsageTracker) (sessionId : Text) : Nat :=
  ((t.sessions.lookup sessionId).map (·.publishedSeq)).getD 0

theorem seqOf_insert {t : UsageTracker} (sessionId key : Text) (state : SessionState)
    (h : state.publishedSeq = seqOf t key) :
    (((t.sessions.insert key state).lookup sessionId).map (·.publishedSeq)).getD 0 =
      seqOf t sessionId := by
  rw [HashMap.lookup_insert_eq]
  split
  · next heq =>
      subst heq
      exact h
  · rfl

theorem publishedSeq_getD (t : UsageTracker) (key : Text) :
    ((t.sessions.lookup key).getD .unknown).publishedSeq = seqOf t key := by
  unfold seqOf
  cases t.sessions.lookup key <;> rfl

/-- The tracker numbers its records, modulo the 64-bit range. -/
structure Sequenced (t : UsageTracker) (log : List UsageEvent) : Prop where
  entries : ∀ id, seqOf t id = (records id log).length % 2 ^ 64
  pending : ∀ record, t.pending = some record →
    record.turnSeq = ((records record.sessionId log).length + 1) % 2 ^ 64
  numbered : (∀ id, (records id log).length < 2 ^ 64) → Numbered log

theorem turnSeq_turnUsage (t : UsageTracker) (sessionId : Text) (payload : UsageUpdatePayload) :
    (t.turnUsage sessionId payload).turnSeq = (seqOf t sessionId + 1) % 2 ^ 64 := by
  simp only [UsageTracker.turnUsage, seqOf]
  cases t.sessions.lookup sessionId <;> rfl

theorem Sequenced.quiet {t t' : UsageTracker} {log more : List UsageEvent} (h : Sequenced t log)
    (hmore : ∀ e ∈ more, ∀ record, e ≠ .published record)
    (hseq : ∀ id, seqOf t' id = seqOf t id)
    (hpending : ∀ record, t'.pending = some record →
      record.turnSeq = (seqOf t record.sessionId + 1) % 2 ^ 64 ∨ t.pending = some record) :
    Sequenced t' (log ++ more) := by
  have hrecords : ∀ id, records id (log ++ more) = records id log := by
    intro id
    have hnone : records id more = [] := by
      refine List.filterMap_eq_nil_iff.2 fun e he => ?_
      cases e with
      | published record => exact absurd rfl (hmore _ he record)
      | _ => rfl
    rw [records_append, hnone, List.append_nil]
  refine ⟨fun id => ?_, fun record hrecord => ?_, fun hrange => ?_⟩
  · rw [hseq, hrecords]
    exact h.entries id
  · rw [hrecords]
    rcases hpending record hrecord with hnew | hold
    · rw [hnew, h.entries, Nat.mod_add_mod]
    · exact h.pending record hold
  · refine (h.numbered fun id => hrecords id ▸ hrange id).append_of_forall ?_
    rintro e he before record rfl
    exact absurd rfl (hmore _ he record)

theorem seqOf_latch (t : UsageTracker) (key sessionId : Text) (input output : Bool) :
    (((t.latch key input output).lookup sessionId).map (·.publishedSeq)).getD 0 =
      seqOf t sessionId :=
  seqOf_insert sessionId key _ (publishedSeq_getD t key)

theorem sequenced_seed {t : UsageTracker} {log : List UsageEvent} (h : Sequenced t log)
    (sessionId : Text) : Sequenced (t.seedZeroBaseline sessionId) (log ++ []) := by
  refine h.quiet (by simp) (fun id => ?_) fun record hrecord => ?_
  · unfold UsageTracker.seedZeroBaseline
    split
    · rfl
    · next hnone =>
        refine seqOf_insert id sessionId .zero ?_
        rw [seqOf, hnone]
        rfl
  · right
    revert hrecord
    unfold UsageTracker.seedZeroBaseline
    split <;> exact id

theorem sequenced_beginTurn {t : UsageTracker} {log : List UsageEvent} (h : Sequenced t log)
    (sessionId : Text) : Sequenced (t.beginTurn sessionId) (log ++ [.began sessionId]) := by
  refine h.quiet (by simp) (fun id => ?_) (by simp [UsageTracker.beginTurn])
  simp only [seqOf, UsageTracker.beginTurn]
  split
  · next previous _ =>
      split
      · exact seqOf_latch t previous id _ _
      · rfl
  · rfl

theorem sequenced_record {t : UsageTracker} {log : List UsageEvent} (h : Sequenced t log)
    (sessionId : Text) (payload : UsageUpdatePayload) :
    Sequenced (t.record sessionId payload) (log ++ [.recorded sessionId payload]) := by
  cases hflight : t.inFlightSession with
  | none =>
      rw [UsageTracker.record_outside hflight]
      exact h.quiet (by simp) (fun id => seqOf_insert id sessionId _ rfl) fun _ hr => .inr hr
  | some inFlight =>
      by_cases hsame : inFlight = sessionId
      · subst hsame
        rw [UsageTracker.record_inFlight hflight]
        refine h.quiet (by simp) (fun _ => rfl) fun record hrecord => .inl ?_
        cases hrecord
        exact turnSeq_turnUsage _ _ _
      · rw [UsageTracker.record_other hflight hsame]
        split
        · exact h.quiet (by simp) (fun id => seqOf_latch t sessionId id _ _) fun _ hr => .inr hr
        · exact h.quiet (by simp) (fun _ => rfl) fun _ hr => .inr hr

theorem sequenced_take {t : UsageTracker} {log : List UsageEvent} (h : Sequenced t log) :
    Sequenced t.take.1 (log ++ (t.take.2.toList.map UsageEvent.published ++ [.taken])) := by
  cases hpending : t.pending with
  | none =>
      have htake : t.take = (⟨t.sessions, none, none, none, false, false⟩, none) := by
        simp [UsageTracker.take, hpending]
      rw [htake]
      exact h.quiet (by simp) (fun _ => rfl) (by simp)
  | some record =>
      let published : TurnUsage := { record with pricingIdentity := t.pendingIdentity.join }
      have htake : t.take = (⟨t.commit published, none, none, none, false, false⟩,
          some published) := by
        simp [UsageTracker.take, hpending, published]
      have hseq : published.turnSeq = ((records record.sessionId log).length + 1) % 2 ^ 64 :=
        h.pending record hpending
      have hrecords : ∀ id, (records id (log ++ [.published published])).length =
          (records id log).length + if record.sessionId = id then 1 else 0 := by
        intro id
        rw [records_append, List.length_append]
        congr 1
        by_cases hid : record.sessionId = id <;> simp [records, published, hid]
      have hpublished : Sequenced t.take.1 (log ++ [.published published]) := by
        rw [htake]
        refine ⟨fun id => ?_, by simp, fun hrange => ?_⟩
        · rw [hrecords]
          show (((t.sessions.insert record.sessionId _).lookup id).map _).getD 0 = _
          rw [HashMap.lookup_insert_eq]
          by_cases hid : id = record.sessionId
          · subst hid
            rw [if_pos rfl, if_pos rfl]
            exact hseq
          · rw [if_neg hid, if_neg (Ne.symm hid)]
            exact h.entries id
        · have hlog : ∀ id, (records id log).length < 2 ^ 64 := fun id =>
            lt_of_le_of_lt (hrecords id ▸ Nat.le_add_right _ _) (hrange id)
          refine (h.numbered hlog).concat fun r hr => ?_
          cases hr
          have hlast := hrange record.sessionId
          rw [hrecords, if_pos rfl] at hlast
          exact hseq.trans (Nat.mod_eq_of_lt hlast)
      rw [show t.take.2 = some published by rw [htake], ← List.append_assoc]
      exact hpublished.quiet (by simp) (fun _ => rfl) fun _ hr => .inr hr

theorem sequenced_apply {t : UsageTracker} {log : List UsageEvent} (h : Sequenced t log)
    (op : UsageOp) : Sequenced (t.apply op).1 (log ++ (t.apply op).2) := by
  cases op with
  | seed sessionId => exact sequenced_seed h sessionId
  | beginTurn sessionId => exact sequenced_beginTurn h sessionId
  | record sessionId payload => exact sequenced_record h sessionId payload
  | take => exact sequenced_take h

end Connection

end Acp
end Maju
