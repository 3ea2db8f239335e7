import Maju.Acp.Usage.Connection

/-!
# Session — one session on the way from the provider to the records

`SessionInv` says for one session that what the tracker has published of it, what it has read last
and what is still in the pipe ascend to what the agent has counted.  Steps of other sessions leave
all of that alone (`Alike`).  Each step of the session itself has its lemma: a response or the end
of a turn puts the total at the end of the ascent, a delivery moves the reading mark up, and `take`
moves the published mark up to it.
-/

namespace Maju
namespace Acp

open Lib Agent

namespace Connection

/-! ## One session

What the tracker has published of a session, what it has read last and what is still in the pipe
ascend to what the session's responses have reported.
-/

/-- The counts ascend from `n` to the total. -/
def Ascends (total : Nat) : Nat → List (Option Nat) → Prop
  | n, [] => n = total
  | n, some m :: counts => n ≤ m ∧ Ascends total m counts
  | _, none :: _ => False

theorem Ascends.concat {total total' : Nat} (hle : total ≤ total') :
    {n : Nat} → {counts : List (Option Nat)} → Ascends total n counts →
      Ascends total' n (counts ++ [some total'])
  | n, [], h => by
      have hn : n = total := h
      exact ⟨hn ▸ hle, rfl⟩
  | _, some _ :: _, h => ⟨h.1, concat hle h.2⟩
  | _, none :: _, h => h.elim

/-- The agent's counters hold what the responses of the session have reported. -/
structure Counted (tokens : Side → List Nat) (session : AgentSession) : Prop where
  baseline : ∀ endpoint turn, session.turn = some (endpoint, turn) → turn.baseline = session.usage
  split : ∀ side, ∃ before during, tokens side = before ++ during ∧
    side.counter session.usage = counterOf before ∧
    match session.turn with
    | some (_, turn) => side.counter turn.usage = counterOf during
    | none => during = []

/-- The session has not been opened. -/
structure Quiet (c : Connection) (sessionId : Text) : Prop where
  entry : c.tracker.sessions.lookup sessionId = none
  absent : c.tracker.inFlightSession = some sessionId → ∀ side : Side, side.absence c.tracker = false
  pending : ∀ record, c.tracker.pending = some record → record.sessionId ≠ sessionId
  queue : c.queue sessionId = []
  tokens : ∀ side, tokensOf side sessionId c.log = []
  records : records sessionId c.log = []

/-- The tracker has published up to `base` and read up to `read`. -/
structure Followed (c : Connection) (sessionId : Text) (base read : Side → Nat) : Prop where
  entry : ∃ state, c.tracker.sessions.lookup sessionId = some state ∧
    ∀ side : Side, side.last state = some (base side) ∧ side.poisoned state = false
  published : ∀ side, totalOf side (records sessionId c.log) = some (base side)
  absent : c.tracker.inFlightSession = some sessionId → ∀ side : Side, side.absence c.tracker = false
  pending : ∀ record, c.tracker.pending = some record → record.sessionId = sessionId →
    record.deltaReliable = true ∧ ∀ side : Side,
      side.cumulative record = some (read side) ∧ side.turn record = some (read side - base side)
  le : ∀ side, base side ≤ read side
  ascends : ∀ side : Side, Ascends (tokensOf side sessionId c.log).sum (read side)
    ((c.queue sessionId).map side.accumulated)
  noCost : ∀ payload ∈ c.queue sessionId, payload.accumulatedCost = none

structure SessionInv (c : Connection) (sessionId : Text) : Prop where
  quiet : c.agent.lookup sessionId = none → Quiet c sessionId
  follows : ∀ session, c.agent.lookup sessionId = some session →
    Counted (fun side => tokensOf side sessionId c.log) session ∧
      ∃ base read, Followed c sessionId base read

section Session

variable {c c' : Connection} {id : Text}

theorem SessionInv.absent (h : SessionInv c id) (hflight : c.tracker.inFlightSession = some id)
    (side : Side) : side.absence c.tracker = false := by
  cases hagent : c.agent.lookup id with
  | none => exact (h.quiet hagent).absent hflight side
  | some session =>
      rcases (h.follows session hagent).2 with ⟨base, read, hfollowed⟩
      exact hfollowed.absent hflight side

/-- What concerns a session is the same in another state. -/
structure Alike (c c' : Connection) (id : Text) : Prop where
  entry : c'.tracker.sessions.lookup id = c.tracker.sessions.lookup id
  absent : c'.tracker.inFlightSession = some id → ∀ side : Side, side.absence c'.tracker = false
  pending : ∀ record, c'.tracker.pending = some record → record.sessionId = id →
    c.tracker.pending = some record
  queue : c'.queue id = c.queue id
  tokens : ∀ side, tokensOf side id c'.log = tokensOf side id c.log
  records : records id c'.log = records id c.log

theorem Quiet.congr (h : Quiet c id) (halike : Alike c c' id) : Quiet c' id where
  entry := halike.entry.trans h.entry
  absent := halike.absent
  pending := fun record hrecord hid => h.pending record (halike.pending record hrecord hid) hid
  queue := halike.queue.trans h.queue
  tokens := fun side => (halike.tokens side).trans (h.tokens side)
  records := halike.records.trans h.records

theorem Followed.congr {base read : Side → Nat} (h : Followed c id base read)
    (halike : Alike c c' id) : Followed c' id base read where
  entry := halike.entry ▸ h.entry
  published := fun side => halike.records ▸ h.published side
  absent := halike.absent
  pending := fun record hrecord hid => h.pending record (halike.pending record hrecord hid) hid
  le := h.le
  ascends := by
    intro side
    rw [halike.tokens, halike.queue]
    exact h.ascends side
  noCost := halike.queue ▸ h.noCost

theorem SessionInv.congr (h : SessionInv c id) (halike : Alike c c' id)
    (hagent : c'.agent.lookup id = c.agent.lookup id) : SessionInv c' id where
  quiet := fun hnone => (h.quiet (hagent.symm.trans hnone)).congr halike
  follows := by
    intro session hsession
    rcases h.follows session (hagent.symm.trans hsession) with ⟨hcounted, base, read, hfollowed⟩
    refine ⟨?_, base, read, hfollowed.congr halike⟩
    rwa [funext halike.tokens]

theorem SessionInv.alike (h : SessionInv c id) (htracker : c'.tracker = c.tracker)
    (hqueue : c'.queue id = c.queue id)
    (htokens : ∀ side, tokensOf side id c'.log = tokensOf side id c.log)
    (hrecords : records id c'.log = records id c.log) : Alike c c' id where
  entry := by rw [htracker]
  absent := by
    rw [htracker]
    exact h.absent
  pending := fun record hrecord _ => htracker ▸ hrecord
  queue := hqueue
  tokens := htokens
  records := hrecords

/-! ### The agent -/

theorem queue_send (c : Connection) (id id' : Text) (update : Option UsageUpdate) :
    (c.send id' update).queue id = c.queue id ++
      if id' = id then (update.map UsageUpdatePayload.ofUpdate).toList else [] := by
  unfold queue send
  rw [List.filterMap_append]
  congr 1
  cases update with
  | none => simp
  | some update => by_cases hid : id' = id <;> simp [hid]

theorem lookup_setSession (c : Connection) (id id' : Text) (session : AgentSession) :
    (c.setSession id' session).agent.lookup id =
      if id = id' then some session else c.agent.lookup id :=
  HashMap.lookup_insert_eq id' id session c.agent

theorem Counted.merged {tokens : Side → List Nat} {session : SessionUsage} {endpoint : Endpoint}
    {turn : TurnCounters} (h : Counted tokens ⟨session, some (endpoint, turn)⟩)
    (hrange : ∀ side, (tokens side).sum < 2 ^ 64) (side : Side) :
    side.counter (session.merge turn.usage) = counterOf (tokens side) := by
  rcases h.split side with ⟨before, during, hsplit, hbefore, hduring⟩
  have hsum := hrange side
  rw [hsplit] at hsum ⊢
  rw [counter_merge]
  calc
    (side.counter session).mergeSession (side.counter turn.usage)
        = (counterOf before).mergeSession (counterOf during) := congrArg₂ _ hbefore hduring
    _ = counterOf (before ++ during) := mergeSession_counterOf hsum

theorem Counted.fold {tokens : Side → List Nat} {session : SessionUsage} {endpoint : Endpoint}
    {turn : TurnCounters} (h : Counted tokens ⟨session, some (endpoint, turn)⟩)
    {usage : RoundUsage} (hinput : usage.inputTokensOverflowed = false)
    (hrange : ∀ side, (tokens side ++ (side.reported usage).toList).sum < 2 ^ 64) :
    Counted (fun side => tokens side ++ (side.reported usage).toList)
      ⟨session, some (endpoint, turn.fold endpoint usage)⟩ where
  baseline := by
    rintro _ _ ⟨⟩
    have hbaseline : (turn.fold endpoint usage).baseline = turn.baseline := by
      unfold TurnCounters.fold
      dsimp only
      split <;> rfl
    exact hbaseline.trans (h.baseline endpoint turn rfl)
  split := by
    intro side
    rcases h.split side with ⟨before, during, hsplit, hbefore, hduring⟩
    refine ⟨before, during ++ (side.reported usage).toList, ?_, hbefore, ?_⟩
    · rw [hsplit, List.append_assoc]
    · have hsum := hrange side
      rw [hsplit, List.append_assoc, List.sum_append] at hsum
      show side.counter (turn.fold endpoint usage).usage = _
      rw [counter_fold endpoint turn hinput side, show side.counter turn.usage = _ from hduring]
      cases hreported : side.reported usage with
      | none => rw [Option.toList_none, List.append_nil]
      | some n =>
          rw [hreported] at hsum
          exact foldRound_counterOf (lt_of_le_of_lt (Nat.le_add_left _ _) hsum)

theorem Counted.endTurn {tokens : Side → List Nat} {session : SessionUsage} {endpoint : Endpoint}
    {turn : TurnCounters} (h : Counted tokens ⟨session, some (endpoint, turn)⟩)
    (hrange : ∀ side, (tokens side).sum < 2 ^ 64) :
    Counted tokens ⟨(session.endTurn endpoint turn).1, none⟩ where
  baseline := fun _ _ hnone => by cases hnone
  split := by
    intro side
    refine ⟨tokens side, [], (List.append_nil _).symm, ?_, rfl⟩
    unfold SessionUsage.endTurn
    split
    · next hunseen =>
        rcases h.split side with ⟨before, during, hsplit, hbefore, hduring⟩
        have hnone : side.counter turn.usage = .unseen := by
          cases side with
          | input => exact hunseen.1
          | output => exact hunseen.2
        have hempty : during = [] := counterOf_eq_unseen.1 (hduring.symm.trans hnone)
        rw [hsplit, hempty, List.append_nil]
        exact hbefore
    · exact h.merged hrange side

theorem Counted.exists_tokens {tokens : Side → List Nat} {session : SessionUsage}
    {endpoint : Endpoint} {turn : TurnCounters}
    (h : Counted tokens ⟨session, some (endpoint, turn)⟩)
    (hseen : ¬(turn.usage.inputTokens = .unseen ∧ turn.usage.outputTokens = .unseen)) :
    ∃ side, tokens side ≠ [] := by
  by_contra hnone
  simp only [not_exists, not_not] at hnone
  refine hseen ?_
  have hunseen : ∀ side : Side, side.counter turn.usage = .unseen := by
    intro side
    rcases h.split side with ⟨before, during, hsplit, -, hduring⟩
    have hempty := (List.append_eq_nil_iff.1 (hsplit.symm.trans (hnone side))).2
    exact hduring.trans (counterOf_eq_unseen.2 hempty)
  exact ⟨hunseen .input, hunseen .output⟩

theorem Followed.push {base read : Side → Nat} (h : Followed c id base read)
    (htracker : c'.tracker = c.tracker) (hrecords : records id c'.log = records id c.log)
    {p : UsageUpdatePayload} (hqueue : c'.queue id = c.queue id ++ [p])
    (hle : ∀ side, (tokensOf side id c.log).sum ≤ (tokensOf side id c'.log).sum)
    (hwhole : ∀ side : Side, side.accumulated p = some (tokensOf side id c'.log).sum)
    (hcost : p.accumulatedCost = none) : Followed c' id base read where
  entry := htracker ▸ h.entry
  published := fun side => hrecords ▸ h.published side
  absent := htracker ▸ h.absent
  pending := htracker ▸ h.pending
  le := h.le
  ascends := by
    intro side
    rw [hqueue, List.map_append, List.map_cons, List.map_nil, hwhole side]
    exact (h.ascends side).concat (hle side)
  noCost := by
    intro q hq
    rw [hqueue] at hq
    rcases List.mem_append.1 hq with hq | hq
    · exact h.noCost q hq
    · exact List.mem_singleton.1 hq ▸ hcost

theorem tokensOf_responded_other {id' : Text} (hid : id' ≠ id) (usage : RoundUsage) (side : Side) :
    tokensOf side id (c.log ++ [.responded id' usage]) = tokensOf side id c.log := by
  rw [tokensOf_append]
  simp [tokensOf, hid]

theorem records_responded (log : List UsageEvent) (id id' : Text) (usage : RoundUsage) :
    records id (log ++ [.responded id' usage]) = records id log := by
  rw [records_append]
  simp [records]

theorem reported_of_not_bearing {usage : RoundUsage} (h : ¬ usage.isUsageBearing = true)
    (side : Side) : side.reported usage = none := by
  simp only [RoundUsage.isUsageBearing, Bool.or_eq_true, not_or, Option.not_isSome_iff_eq_none]
    at h
  cases side with
  | input => exact h.1.1
  | output => exact h.2

theorem SessionInv.respond (h : SessionInv c id) {id' : Text} {session : SessionUsage}
    {endpoint : Endpoint} {turn : TurnCounters} {usage : RoundUsage}
    (hsession : c.agent.lookup id' = some ⟨session, some (endpoint, turn)⟩)
    (hrange : InRange (c.log ++ [.responded id' usage]))
    (hwhole : Whole id (c.log ++ [.responded id' usage])) :
    SessionInv (((c.setSession id' ⟨session, some (endpoint, turn.fold endpoint usage)⟩).write
      (.responded id' usage)).send id'
        (if usage.isUsageBearing then some ((turn.fold endpoint usage).update endpoint) else none))
      id := by
  by_cases hid : id' = id
  · subst hid
    refine ⟨fun hnone => ?_, fun session' hsession' => ?_⟩
    · have hlookup := (lookup_setSession c id' id' _).symm.trans hnone
      rw [if_pos rfl] at hlookup
      cases hlookup
    rcases h.follows _ hsession with ⟨hcounted, base, read, hfollowed⟩
    have hlookup := (lookup_setSession c id' id' _).symm.trans hsession'
    rw [if_pos rfl] at hlookup
    cases hlookup
    have htokens : ∀ side, tokensOf side id' (c.log ++ [.responded id' usage]) =
        tokensOf side id' c.log ++ (side.reported usage).toList := fun side => by
      rw [tokensOf_append, tokensOf_responded]
    have hcounted' : Counted (fun side => tokensOf side id' (c.log ++ [.responded id' usage]))
        ⟨session, some (endpoint, turn.fold endpoint usage)⟩ := by
      rw [funext htokens]
      exact hcounted.fold (hrange.input id' usage (by simp)) fun side => by
        rw [← htokens]
        exact hrange.tokens side id'
    refine ⟨hcounted', base, read, ?_⟩
    have hrecords := records_responded c.log id' id' usage
    have hsend := fun update => queue_send ((c.setSession id'
      ⟨session, some (endpoint, turn.fold endpoint usage)⟩).write (.responded id' usage)) id' id'
      update
    by_cases hbearing : usage.isUsageBearing = true
    · refine hfollowed.push rfl hrecords (p := .ofUpdate
        ((turn.fold endpoint usage).update endpoint)) ?_ (fun side => ?_) (fun side => ?_) rfl
      · rw [if_pos hbearing, hsend, if_pos rfl]
        rfl
      · show _ ≤ (tokensOf side id' (c.log ++ [.responded id' usage])).sum
        rw [htokens, List.sum_append]
        exact Nat.le_add_right _ _
      · have hmerged := hcounted'.merged (fun side => hrange.tokens side id') side
        rw [accumulated_update, hcounted'.baseline endpoint _ rfl, hmerged]
        exact exactValue_counterOf
          (hwhole.reported ⟨usage, List.mem_append_right _ (by simp), hbearing⟩ side)
    · refine hfollowed.congr (h.alike rfl ?_ (fun side => ?_) hrecords)
      · rw [if_neg hbearing, hsend, if_pos rfl]
        exact List.append_nil _
      · show tokensOf side id' (c.log ++ [.responded id' usage]) = _
        rw [htokens, reported_of_not_bearing hbearing, Option.toList_none, List.append_nil]
  · refine h.congr (h.alike rfl ?_ (tokensOf_responded_other hid usage) (records_responded c.log id id' _))
      ?_
    · rw [queue_send, if_neg hid, List.append_nil]
      rfl
    · exact (lookup_setSession c id id' _).trans (if_neg (Ne.symm hid))

theorem SessionInv.finish (h : SessionInv c id) {id' : Text} {session : SessionUsage}
    {endpoint : Endpoint} {turn : TurnCounters}
    (hsession : c.agent.lookup id' = some ⟨session, some (endpoint, turn)⟩)
    (hrange : InRange c.log) (hwhole : Whole id c.log) :
    SessionInv ((c.setSession id' ⟨(session.endTurn endpoint turn).1, none⟩).send id'
      (session.endTurn endpoint turn).2) id := by
  by_cases hid : id' = id
  · subst hid
    refine ⟨fun hnone => ?_, fun session' hsession' => ?_⟩
    · have hlookup := (lookup_setSession c id' id' _).symm.trans hnone
      rw [if_pos rfl] at hlookup
      cases hlookup
    rcases h.follows _ hsession with ⟨hcounted, base, read, hfollowed⟩
    have hlookup := (lookup_setSession c id' id' _).symm.trans hsession'
    rw [if_pos rfl] at hlookup
    cases hlookup
    have hsums := fun side => hrange.tokens side id'
    refine ⟨hcounted.endTurn hsums, base, read, ?_⟩
    have hsend := fun update => queue_send (c.setSession id'
      ⟨(session.endTurn endpoint turn).1, none⟩) id' id' update
    by_cases hseen : turn.usage.inputTokens = .unseen ∧ turn.usage.outputTokens = .unseen
    · refine hfollowed.congr (h.alike rfl ?_ (fun _ => rfl) rfl)
      rw [hsend, if_pos rfl, SessionUsage.endTurn, if_pos hseen]
      exact List.append_nil _
    · refine hfollowed.push rfl rfl (p := .ofUpdate (usageUpdatePayload
        (session.merge turn.usage) endpoint.model turn.pricingIdentity)) ?_ (fun _ => le_rfl)
        (fun side => ?_) rfl
      · rw [hsend, if_pos rfl, SessionUsage.endTurn, if_neg hseen]
        rfl
      · rcases hcounted.exists_tokens hseen with ⟨other, hother⟩
        have hvalue := exactValue_counterOf (hwhole.reported (exists_bearing hother) side)
        rw [← hcounted.merged hsums side] at hvalue
        cases side <;> exact hvalue
  · refine h.congr (h.alike rfl ?_ (fun _ => rfl) rfl) ?_
    · rw [queue_send, if_neg hid, List.append_nil]
      rfl
    · exact (lookup_setSession c id id' _).trans (if_neg (Ne.symm hid))

theorem SessionInv.prompt (h : SessionInv c id) {id' : Text} {usage : SessionUsage}
    {endpoint : Endpoint} (hsession : c.agent.lookup id' = some ⟨usage, none⟩) :
    SessionInv (c.setSession id' ⟨usage, some (endpoint, .start usage)⟩) id := by
  have halike : Alike c (c.setSession id' ⟨usage, some (endpoint, .start usage)⟩) id :=
    h.alike rfl rfl (fun _ => rfl) rfl
  by_cases hid : id' = id
  · subst hid
    refine ⟨fun hnone => ?_, fun session' hsession' => ?_⟩
    · have hlookup := (lookup_setSession c id' id' _).symm.trans hnone
      rw [if_pos rfl] at hlookup
      cases hlookup
    rcases h.follows _ hsession with ⟨hcounted, base, read, hfollowed⟩
    have hlookup := (lookup_setSession c id' id' _).symm.trans hsession'
    rw [if_pos rfl] at hlookup
    cases hlookup
    refine ⟨⟨fun _ _ hturn => by cases hturn; rfl, fun side => ?_⟩, base, read,
      hfollowed.congr halike⟩
    rcases hcounted.split side with ⟨before, during, hsplit, hbefore, rfl⟩
    exact ⟨before, [], hsplit, hbefore, by cases side <;> rfl⟩
  · exact h.congr halike ((lookup_setSession c id id' _).trans (if_neg (Ne.symm hid)))

/-! ### The tracker -/

theorem seedZeroBaseline_eq (t : UsageTracker) (id' : Text) :
    t.seedZeroBaseline id' = { t with sessions := (t.seedZeroBaseline id').sessions } := by
  unfold UsageTracker.seedZeroBaseline
  split <;> rfl

theorem lookup_seedZeroBaseline (t : UsageTracker) {id' : Text} (hid : id' ≠ id) :
    (t.seedZeroBaseline id').sessions.lookup id = t.sessions.lookup id := by
  unfold UsageTracker.seedZeroBaseline
  split
  · rfl
  · exact AList.lookup_insert_ne (Ne.symm hid)

theorem Quiet.seeded (h : Quiet c id) (agent : HashMap Text AgentSession) :
    Followed ⟨agent, c.pipe, c.tracker.seedZeroBaseline id, c.log⟩ id (fun _ => 0)
      fun _ => 0 := by
  have hseed : c.tracker.seedZeroBaseline id =
      { c.tracker with sessions := c.tracker.sessions.insert id .zero } := by
    simp only [UsageTracker.seedZeroBaseline, h.entry]
  rw [hseed]
  refine ⟨⟨.zero, AList.lookup_insert _, fun side => by cases side <;> exact ⟨rfl, rfl⟩⟩,
    fun side => ?_, fun hflight side => ?_, fun record hrecord hid => ?_, fun _ => le_rfl,
    fun side => ?_, fun payload hpayload => ?_⟩
  · rw [h.records]
    rfl
  · have habsent := h.absent hflight side
    cases side <;> exact habsent
  · exact absurd hid (h.pending record hrecord)
  · rw [h.tokens]
    show Ascends 0 0 ((c.queue id).map _)
    rw [h.queue]
    rfl
  · have hqueue : payload ∈ c.queue id := hpayload
    rw [h.queue] at hqueue
    cases hqueue

theorem SessionInv.spawn (h : SessionInv c id) {id' : Text} (hnone : c.agent.lookup id' = none) :
    SessionInv ((c.setSession id' ⟨.fresh, none⟩).track (.seed id')) id := by
  have hstate : (c.setSession id' ⟨.fresh, none⟩).track (.seed id') =
      ⟨c.agent.insert id' ⟨.fresh, none⟩, c.pipe, c.tracker.seedZeroBaseline id', c.log⟩ := by
    simp [track, setSession, UsageTracker.apply]
  have hagent := lookup_setSession c id id' ⟨.fresh, none⟩
  rw [hstate]
  by_cases hid : id' = id
  · subst hid
    rw [if_pos rfl] at hagent
    have hquiet := h.quiet hnone
    refine ⟨fun habsent => ?_, fun session hsession => ?_⟩
    · cases hagent.symm.trans habsent
    · cases hagent.symm.trans hsession
      refine ⟨⟨fun _ _ hturn => (by cases hturn), fun side => ?_⟩, _, _, hquiet.seeded _⟩
      exact ⟨[], [], hquiet.tokens side, by cases side <;> rfl, rfl⟩
  · refine h.congr ⟨lookup_seedZeroBaseline c.tracker hid, fun hflight side => ?_,
      fun record hrecord _ => ?_, rfl, fun _ => rfl, rfl⟩ (hagent.trans (if_neg (Ne.symm hid)))
    · rw [seedZeroBaseline_eq] at hflight
      have habsent := h.absent hflight side
      rw [seedZeroBaseline_eq]
      cases side <;> exact habsent
    · rw [seedZeroBaseline_eq] at hrecord
      exact hrecord

theorem SessionInv.beginTurn (h : SessionInv c id) (id' : Text) :
    SessionInv (c.track (.beginTurn id')) id := by
  have hlog := log_unrelated c.log id [.began id'] (by simp)
  refine h.congr ⟨?_, fun _ side => by cases side <;> rfl, by simp [track, UsageTracker.apply,
    UsageTracker.beginTurn], rfl, hlog.1, hlog.2⟩ rfl
  show (c.tracker.beginTurn id').sessions.lookup id = _
  simp only [UsageTracker.beginTurn]
  split
  · next previous hflight =>
      split
      · next hobserved =>
          have hother : id ≠ previous := by
            rintro rfl
            have hinput : c.tracker.inputAbsenceObserved = false := h.absent hflight .input
            have houtput : c.tracker.outputAbsenceObserved = false := h.absent hflight .output
            simp [hinput, houtput] at hobserved
          exact AList.lookup_insert_ne hother
      · rfl
  · rfl

theorem turnUsage_reliable {t : UsageTracker} {state : SessionState} {payload : UsageUpdatePayload}
    {base read : Side → Nat} (hentry : t.sessions.lookup id = some state)
    (hstate : ∀ side : Side, side.last state = some (base side) ∧ side.poisoned state = false)
    (habsent : ∀ side : Side, side.absence t = false)
    (hread : ∀ side : Side, side.accumulated payload = some (read side))
    (hle : ∀ side, base side ≤ read side) (hcost : payload.accumulatedCost = none) :
    (t.turnUsage id payload).deltaReliable = true ∧ ∀ side : Side,
      side.cumulative (t.turnUsage id payload) = some (read side) ∧
        side.turn (t.turnUsage id payload) = some (read side - base side) := by
  have hdelta : t.delta state payload = ⟨true, some (read .input - base .input),
      some (read .output - base .output), none⟩ := by
    have hlastIn : state.lastInput = some (base .input) := (hstate .input).1
    have hlastOut : state.lastOutput = some (base .output) := (hstate .output).1
    have hpoisonIn : state.inputEverPoisoned = false := (hstate .input).2
    have hpoisonOut : state.outputEverPoisoned = false := (hstate .output).2
    have habsentIn : t.inputAbsenceObserved = false := habsent .input
    have habsentOut : t.outputAbsenceObserved = false := habsent .output
    have hreadIn : payload.accumulatedInputTokens = some (read .input) := hread .input
    have hreadOut : payload.accumulatedOutputTokens = some (read .output) := hread .output
    simp [UsageTracker.delta, hlastIn, hlastOut, hpoisonIn, hpoisonOut, habsentIn, habsentOut,
      hreadIn, hreadOut, hcost, UsageTracker.costDelta, not_lt.2 (hle .input),
      not_lt.2 (hle .output)]
  refine ⟨?_, fun side => ?_⟩
  · simp [UsageTracker.turnUsage, hentry, hdelta]
  · cases side with
    | input => exact ⟨hread .input, by simp [Side.turn, UsageTracker.turnUsage, hentry, hdelta]⟩
    | output => exact ⟨hread .output, by simp [Side.turn, UsageTracker.turnUsage, hentry, hdelta]⟩

theorem absence_observe {t : UsageTracker} {payload : UsageUpdatePayload} {side : Side} {n : Nat}
    (habsent : side.absence t = false) (hread : side.accumulated payload = some n) :
    side.absence (t.observe payload) = false := by
  cases side with
  | input =>
      simp [Side.absence, UsageTracker.observe, show t.inputAbsenceObserved = false from habsent,
        show payload.accumulatedInputTokens = some n from hread]
  | output =>
      simp [Side.absence, UsageTracker.observe, show t.outputAbsenceObserved = false from habsent,
        show payload.accumulatedOutputTokens = some n from hread]

theorem Ascends.head {total n : Nat} {value : Option Nat} {counts : List (Option Nat)}
    (h : Ascends total n (value :: counts)) : ∃ m, value = some m ∧ n ≤ m ∧
      Ascends total m counts := by
  cases value with
  | none => exact h.elim
  | some m => exact ⟨m, rfl, h⟩

theorem queue_cons {id' : Text} {payload : UsageUpdatePayload}
    {rest : List (Text × UsageUpdatePayload)} (hpipe : c.pipe = (id', payload) :: rest) :
    c.queue id = if id' = id then payload :: queue { c with pipe := rest } id
      else queue { c with pipe := rest } id := by
  by_cases hid : id' = id <;> simp [queue, hpipe, hid]

theorem Followed.deliver {base read : Side → Nat} (h : Followed c id base read)
    (hflight : c.tracker.inFlightSession = some id) {payload : UsageUpdatePayload}
    {rest : List (Text × UsageUpdatePayload)} (hpipe : c.pipe = (id, payload) :: rest) :
    ∃ next, Followed ({ c with pipe := rest }.track (.record id payload)) id base next := by
  have hqueue : c.queue id = payload :: queue { c with pipe := rest } id :=
    (queue_cons hpipe).trans (if_pos rfl)
  have hascends : ∀ side : Side, ∃ m, side.accumulated payload = some m ∧ read side ≤ m ∧
      Ascends (tokensOf side id c.log).sum m
        ((queue { c with pipe := rest } id).map side.accumulated) := by
    intro side
    have hall := h.ascends side
    rw [hqueue, List.map_cons] at hall
    exact hall.head
  choose next hnext hle htail using hascends
  have hlog := log_unrelated c.log id [.recorded id payload] (by simp)
  have hbase : ∀ side, base side ≤ next side := fun side => (h.le side).trans (hle side)
  have habsent : ∀ side : Side, side.absence (c.tracker.observe payload) = false :=
    fun side => absence_observe (h.absent hflight side) (hnext side)
  rcases h.entry with ⟨state, hentry, hstate⟩
  refine ⟨next, ?_⟩
  rw [track, UsageTracker.apply, UsageTracker.record_inFlight hflight]
  refine ⟨⟨state, hentry, hstate⟩, fun side => hlog.2 ▸ h.published side, fun _ side => ?_,
    fun record hrecord _ => ?_, hbase, fun side => ?_, fun p hp => ?_⟩
  · have hside := habsent side
    cases side <;> exact hside
  · cases hrecord
    exact turnUsage_reliable hentry hstate habsent hnext hbase
      (h.noCost payload (by rw [hqueue]; exact List.mem_cons_self))
  · rw [show tokensOf side id (c.log ++ [.recorded id payload]) = _ from hlog.1 side]
    exact htail side
  · exact h.noCost p (by rw [hqueue]; exact List.mem_cons_of_mem _ hp)

theorem SessionInv.deliver (h : SessionInv c id) {id' : Text} {payload : UsageUpdatePayload}
    {rest : List (Text × UsageUpdatePayload)} (hpipe : c.pipe = (id', payload) :: rest)
    (hflight : c.tracker.inFlightSession = some id') :
    SessionInv ({ c with pipe := rest }.track (.record id' payload)) id := by
  have hlog := log_unrelated c.log id [.recorded id' payload] (by simp)
  by_cases hid : id' = id
  · subst hid
    refine ⟨fun hnone => ?_, fun session hsession => ?_⟩
    · have hqueue := (h.quiet hnone).queue
      rw [queue_cons hpipe, if_pos rfl] at hqueue
      cases hqueue
    · rcases h.follows session hsession with ⟨hcounted, base, read, hfollowed⟩
      rcases hfollowed.deliver hflight hpipe with ⟨next, hnext⟩
      refine ⟨?_, base, next, hnext⟩
      show Counted (fun side => tokensOf side id' (c.log ++ [.recorded id' payload])) session
      rwa [funext hlog.1]
  · rw [track, UsageTracker.apply, UsageTracker.record_inFlight hflight]
    refine h.congr ⟨rfl, fun hsame => ?_, fun record hrecord hsame => ?_, ?_, hlog.1, hlog.2⟩ rfl
    · exact absurd (Option.some.inj (hflight.symm.trans hsame)) hid
    · cases hrecord
      exact absurd hsame hid
    · exact ((queue_cons hpipe).trans (if_neg hid)).symm

theorem Followed.take {base read : Side → Nat} (h : Followed c id base read)
    (hflight : c.tracker.inFlightSession = some id) {record : TurnUsage}
    (hrecord : c.tracker.pending = some record) (hid : record.sessionId = id)
    (hqueue : c.queue id = []) :
    (record.deltaReliable = true ∧
      ∀ side, totalOf side (records id c.log ++ [record]) = some (tokensOf side id c.log).sum) ∧
      Followed (c.track .take) id read read := by
  subst hid
  have hpending := h.pending record hrecord rfl
  have hread : ∀ side, read side = (tokensOf side record.sessionId c.log).sum := by
    intro side
    have hascends := h.ascends side
    rwa [hqueue] at hascends
  let published : TurnUsage := { record with pricingIdentity := c.tracker.pendingIdentity.join }
  have hturn : ∀ side : Side, side.turn published = side.turn record := by
    intro side
    cases side <;> rfl
  have htotal : ∀ more : TurnUsage, (∀ side : Side, side.turn more = side.turn record) →
      ∀ side, totalOf side (records record.sessionId c.log ++ [more]) = some (read side) := by
    intro more hmore side
    rw [totalOf_concat, h.published side, hmore side, (hpending.2 side).2]
    exact congrArg some (Nat.add_sub_cancel' (h.le side))
  have htake : c.tracker.take = (⟨c.tracker.commit published, none, none, none, false, false⟩,
      some published) := by
    simp [UsageTracker.take, hrecord, published]
  have hlog : records record.sessionId (c.log ++ [.published published, .taken]) =
        records record.sessionId c.log ++ [published] ∧
      ∀ side, tokensOf side record.sessionId (c.log ++ [.published published, .taken]) =
        tokensOf side record.sessionId c.log := by
    constructor
    · rw [records_append]
      simp [records, published]
    · intro side
      rw [tokensOf_append]
      simp [tokensOf]
  refine ⟨⟨hpending.1, fun side => (htotal record (fun _ => rfl) side).trans (by rw [hread])⟩, ?_⟩
  rcases h.entry with ⟨state, hentry, hstate⟩
  rw [track, UsageTracker.apply, htake]
  refine ⟨⟨_, AList.lookup_insert _, fun side => ?_⟩, fun side => ?_,
    fun hnone => (by cases hnone), by simp,
    fun _ => le_rfl, fun side => ?_, ?_⟩
  · have hcumulative := (hpending.2 side).1
    have habsent := h.absent hflight side
    have hpoisoned := (hstate side).2
    cases side with
    | input =>
        refine ⟨hcumulative, ?_⟩
        have hvalue : record.cumulativeInputTokens = some (read .input) := hcumulative
        have hnone : c.tracker.inputAbsenceObserved = false := habsent
        have hflag : state.inputEverPoisoned = false := hpoisoned
        simp [Side.poisoned, UsageTracker.inputPoisoned, published, hentry, hvalue, hnone,
          hflag]
    | output =>
        refine ⟨hcumulative, ?_⟩
        have hvalue : record.cumulativeOutputTokens = some (read .output) := hcumulative
        have hnone : c.tracker.outputAbsenceObserved = false := habsent
        have hflag : state.outputEverPoisoned = false := hpoisoned
        simp [Side.poisoned, UsageTracker.outputPoisoned, published, hentry, hvalue, hnone,
          hflag]
  · exact (congrArg (totalOf side) hlog.1).trans (htotal published hturn side)
  · show Ascends (tokensOf side record.sessionId (c.log ++ [.published published, .taken])).sum _
      ((c.queue record.sessionId).map _)
    rw [hlog.2, hqueue]
    exact hread side
  · intro payload hpayload
    have hmem : payload ∈ c.queue record.sessionId := hpayload
    rw [hqueue] at hmem
    cases hmem

end Session

end Connection

end Acp
end Maju
