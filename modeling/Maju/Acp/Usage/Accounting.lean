import Maju.Acp.Usage.Session
import Mathlib.Algebra.Order.BigOperators.Group.List
import Mathlib.Algebra.Order.Group.Nat

/-!
# Accounting — the tokens of a session from the provider to the published records

- `token_accounting`: a session whose first response with any usage reports both counters has
  reliable records only, and they add up to what its responses have reported.
- `half_reported`: a first response without one of the counters leaves that counter out of the
  notification, and the record is not reliable.  The response to a request for a summary of the
  history is counted by no one.
-/

namespace Maju
namespace Acp

open Lib Agent

namespace Connection


/-! ## Runs -/

/-- What holds of the tracker in every run. -/
structure Tracked (c : Connection) : Prop where
  sticky : UsageTracker.Sticky c.tracker c.log
  sequenced : Sequenced c.tracker c.log

/-- What holds of a session as long as no sum has overflowed. -/
def Kept (c : Connection) (id : Text) : Prop :=
  InRange c.log → Whole id c.log → SessionInv c id ∧ Exact id c.log

section Runs

variable {c c' : Connection} {id : Text}

theorem Tracked.track (h : Tracked c) (op : UsageOp) : Tracked (c.track op) where
  sticky := UsageTracker.sticky_apply h.sticky op
  sequenced := sequenced_apply h.sequenced op

theorem Tracked.write (h : Tracked c) (hlog : c'.log = c.log ++ more)
    (htracker : c'.tracker = c.tracker)
    (hmore : ∀ e ∈ more, (∀ s payload, e ≠ .recorded s payload) ∧ ∀ r, e ≠ .published r) :
    Tracked c' := by
  refine ⟨?_, ?_⟩
  · rw [hlog, htracker]
    exact h.sticky.append hmore
  · rw [hlog, htracker]
    exact h.sequenced.quiet (fun e he => (hmore e he).2) (fun _ => rfl) fun _ hr => .inr hr

theorem Tracked.step (h : Tracked c) (i : UsageStep) : Tracked (c.step i) := by
  cases i with
  | spawn id =>
      unfold Connection.step
      dsimp only
      split
      · exact h
      · exact Tracked.track (c := c.setSession id _) ⟨h.sticky, h.sequenced⟩ (.seed id)
  | beginTurn id => exact h.track (.beginTurn id)
  | prompt id endpoint =>
      unfold Connection.step
      dsimp only
      split
      · exact ⟨h.sticky, h.sequenced⟩
      · exact h
  | respond id usage =>
      unfold Connection.step
      dsimp only
      split
      · exact h.write rfl rfl (by simp)
      · exact h
  | summarize id usage =>
      unfold Connection.step
      dsimp only
      split
      · exact h.write rfl rfl (by simp)
      · exact h
  | finish id =>
      unfold Connection.step
      dsimp only
      split
      · exact ⟨h.sticky, h.sequenced⟩
      · exact h
  | deliver =>
      unfold Connection.step
      dsimp only
      split
      · exact h
      · next id payload rest _ =>
          exact Tracked.track (c := { c with pipe := rest }) ⟨h.sticky, h.sequenced⟩
            (.record id payload)
  | take => exact h.track .take

theorem Kept.extend (h : Kept c id) {more : List UsageEvent} (hlog : c'.log = c.log ++ more)
    (hmore : ∀ e ∈ more, ∀ r, e ≠ .published r)
    (hinv : InRange c'.log → Whole id c'.log → SessionInv c id → SessionInv c' id) :
    Kept c' id := by
  intro hrange hwhole
  have hearlier := h (InRange.of_append (hlog ▸ hrange)) (AtEach.of_append (hlog ▸ hwhole))
  refine ⟨hinv hrange hwhole hearlier.1, ?_⟩
  rw [hlog]
  refine hearlier.2.append_of_forall ?_
  rintro e he before record rfl
  exact absurd rfl (hmore _ he record)

theorem Kept.take (h : Kept c id) (htracked : Tracked c) (htimely : Timely c .take) :
    Kept (c.track .take) id := by
  intro hrange hwhole
  have hearlier := h hrange.of_append hwhole.of_append
  have hinv := hearlier.1
  cases hpending : c.tracker.pending with
  | none =>
      have htake : c.tracker.take =
          (⟨c.tracker.sessions, none, none, none, false, false⟩, none) := by
        simp [UsageTracker.take, hpending]
      have hlog := log_unrelated c.log id [.taken] (by simp)
      rw [track, UsageTracker.apply, htake]
      exact ⟨hinv.congr ⟨rfl, by simp, by simp, rfl, hlog.1, hlog.2⟩ rfl,
        hearlier.2.append_of_forall (by simp)⟩
  | some record =>
      let published : TurnUsage :=
        { record with pricingIdentity := c.tracker.pendingIdentity.join }
      have htake : c.tracker.take = (⟨c.tracker.commit published, none, none, none, false, false⟩,
          some published) := by
        simp [UsageTracker.take, hpending, published]
      have hflight := htracked.sticky.pending record hpending
      by_cases hid : record.sessionId = id
      · -- everything that the session sent has been read
        have hqueue : c.queue id = [] := by
          refine List.filterMap_eq_nil_iff.2 fun n hn => if_neg fun hsame => ?_
          exact htimely n hn (hflight.trans (by rw [hid, hsame]))
        cases hagent : c.agent.lookup id with
        | none => exact absurd hid ((hinv.quiet hagent).pending record hpending)
        | some session =>
            rcases hinv.follows session hagent with ⟨hcounted, base, read, hfollowed⟩
            have htaken := hfollowed.take (hid ▸ hflight) hpending hid hqueue
            have htokens : ∀ side, tokensOf side id (c.track .take).log =
                tokensOf side id c.log := by
              intro side
              rw [track, UsageTracker.apply, htake, tokensOf_append]
              simp [tokensOf]
            refine ⟨⟨fun hnone => ?_, fun session' hsession' => ?_⟩, ?_⟩
            · cases hagent.symm.trans hnone
            · cases hagent.symm.trans hsession'
              exact ⟨(funext htokens) ▸ hcounted, read, read, htaken.2⟩
            · rw [track, UsageTracker.apply, htake]
              show Exact id (c.log ++ ([.published published] ++ [.taken]))
              rw [← List.append_assoc]
              refine AtEach.append_of_forall (AtEach.concat hearlier.2 ?_) (by simp)
              rintro _ ⟨⟩ _
              refine ⟨htaken.1.1, fun side => ?_⟩
              rw [records_append]
              have hlast : records id [.published published] = [published] := by
                simp [records, published, hid]
              rw [hlast, totalOf_concat]
              have htotal := htaken.1.2 side
              rw [totalOf_concat] at htotal
              cases side <;> exact htotal
      · -- a record of another session
        have hlog := log_unrelated c.log id [.published published, .taken]
          fun e he => by
            rcases List.mem_cons.1 he with rfl | he
            · refine ⟨fun _ heq => (by cases heq), fun r hr heq => hid ?_⟩
              cases heq
              exact hr
            · rw [List.mem_singleton.1 he]
              exact ⟨fun _ heq => (by cases heq), fun _ _ heq => (by cases heq)⟩
        rw [track, UsageTracker.apply, htake]
        refine ⟨hinv.congr ⟨?_, by simp, by simp, rfl, hlog.1, hlog.2⟩ rfl, ?_⟩
        · exact AList.lookup_insert_ne (Ne.symm hid)
        · show Exact id (c.log ++ ([.published published] ++ [.taken]))
          rw [← List.append_assoc]
          refine AtEach.append_of_forall (AtEach.concat hearlier.2 ?_) (by simp)
          rintro _ ⟨⟩ hsame
          exact absurd hsame hid

theorem Kept.step (h : Kept c id) (htracked : Tracked c) {i : UsageStep} (htimely : Timely c i) :
    Kept (c.step i) id := by
  cases i with
  | spawn id' =>
      unfold Connection.step
      dsimp only
      split
      · exact h
      · next hnone =>
          exact h.extend rfl (by simp [UsageTracker.apply]) fun _ _ hinv => hinv.spawn hnone
  | beginTurn id' =>
      exact h.extend rfl (by simp [UsageTracker.apply]) fun _ _ hinv => hinv.beginTurn id'
  | prompt id' endpoint =>
      unfold Connection.step
      dsimp only
      split
      · next usage hsession =>
          exact h.extend (List.append_nil _).symm (by simp) fun _ _ hinv => hinv.prompt hsession
      · exact h
  | respond id' usage =>
      unfold Connection.step
      dsimp only
      split
      · next session endpoint turn hsession =>
          exact h.extend rfl (by simp) fun hrange hwhole hinv =>
            hinv.respond hsession hrange hwhole
      · exact h
  | summarize id' usage =>
      unfold Connection.step
      dsimp only
      split
      · refine h.extend rfl (by simp) fun _ _ hinv => ?_
        have hlog := log_unrelated c.log id [.summarized id' usage] (by simp)
        exact hinv.congr (hinv.alike rfl rfl hlog.1 hlog.2) rfl
      · exact h
  | finish id' =>
      unfold Connection.step
      dsimp only
      split
      · next session endpoint turn hsession =>
          exact h.extend (List.append_nil _).symm (by simp) fun hrange hwhole hinv =>
            hinv.finish hsession hrange hwhole
      · exact h
  | deliver =>
      unfold Connection.step
      dsimp only
      split
      · exact h
      · next id' payload rest hpipe =>
          have hflight : c.tracker.inFlightSession = some id' :=
            htimely (id', payload) (by rw [hpipe]; rfl)
          exact h.extend rfl (by simp [UsageTracker.apply]) fun _ _ hinv =>
            hinv.deliver hpipe hflight
  | take => exact h.take htracked htimely

end Runs

theorem tracked_start : Tracked start where
  sticky := UsageTracker.sticky_init
  sequenced := ⟨fun _ => rfl, by simp [start, UsageTracker.init], fun _ => .nil⟩

theorem kept_start (id : Text) : Kept start id := by
  intro _ _
  refine ⟨⟨fun _ => ⟨rfl, by simp [start, UsageTracker.init], by simp [start, UsageTracker.init],
    rfl, fun _ => rfl, rfl⟩, fun session hsession => ?_⟩, .nil⟩
  cases hsession

/-- While the notifications of each session arrive within its turns and no sum overflows, records
are numbered from one, and a session whose first response with usage reports both counters has
reliable records only, which add up to what the responses of its rounds have reported.  In every
run, no record is reliable after a notification that lacks a counter. -/
theorem token_accounting (steps : List UsageStep) :
    (Run.Along Timely step start steps → InRange (Run.run step start steps).log →
      Numbered (Run.run step start steps).log ∧
        ∀ id, Whole id (Run.run step start steps).log →
          Exact id (Run.run step start steps).log) ∧
      AbsenceSticks (Run.run step start steps).log ∧
      ∀ ops, AbsenceSticks (UsageTracker.after ops).2 := by
  have htracked : Tracked (Run.run step start steps) :=
    Run.invariant_of_step Tracked (fun _ i h => h.step i) tracked_start steps
  refine ⟨fun htimely hrange => ⟨htracked.sequenced.numbered hrange.published, fun id hwhole => ?_⟩,
    htracked.sticky.published, UsageTracker.absence_sticks⟩
  have hkept : Tracked (Run.run step start steps) ∧ Kept (Run.run step start steps) id :=
    Run.invariant (fun c => Tracked c ∧ Kept c id)
      (fun _ i h hi => ⟨h.1.step i, h.2.step h.1 hi⟩) ⟨tracked_start, kept_start id⟩ htimely
  exact (hkept.2 hrange hwhole).2

/-! ## Samples -/

/-- What all responses together have reported. -/
def allTokens (side : Side) (log : List UsageEvent) : List Nat :=
  log.filterMap fun
    | .responded _ usage => side.reported usage
    | _ => none

theorem tokensOf_sublist (side : Side) (id : Text) (log : List UsageEvent) :
    (tokensOf side id log).Sublist (allTokens side log) := by
  induction log with
  | nil => exact .slnil
  | cons e log ih =>
      rw [tokensOf, allTokens, List.filterMap_cons, List.filterMap_cons]
      cases e with
      | responded id' usage =>
          by_cases hid : id' = id
          · simp only [if_pos hid]
            cases side.reported usage with
            | none => exact ih
            | some n => exact ih.cons_cons n
          · simp only [if_neg hid]
            cases side.reported usage with
            | none => exact ih
            | some n => exact ih.cons n
      | _ => exact ih

theorem inRange_of_totals {log : List UsageEvent}
    (hinput : log.all fun
      | .responded _ usage => !usage.inputTokensOverflowed
      | _ => true)
    (htokens : ∀ side, (allTokens side log).sum < 2 ^ 64) (hlength : log.length < 2 ^ 64) :
    InRange log where
  input := fun id usage hmem => by simpa using List.all_eq_true.1 hinput _ hmem
  tokens := fun side id =>
    lt_of_le_of_lt ((tokensOf_sublist side id log).sum_le_sum fun _ _ => Nat.zero_le _) (htokens side)
  published := fun id => lt_of_le_of_lt (List.length_filterMap_le _ _) hlength

/-- What the provider has reported for a session, in the rounds and for its summaries. -/
def providerTokens (side : Side) (sessionId : Text) (log : List UsageEvent) : List Nat :=
  log.filterMap fun
    | .responded id usage => if id = sessionId then side.reported usage else none
    | .summarized id usage => if id = sessionId then side.reported usage else none
    | _ => none

instance (c : Connection) : (i : UsageStep) → Decidable (Timely c i)
  | .deliver => inferInstanceAs (Decidable (∀ n ∈ c.pipe.head?, _))
  | .take => inferInstanceAs (Decidable (∀ n ∈ c.pipe, _))
  | .spawn _ | .beginTurn _ | .prompt _ _ | .respond _ _ | .summarize _ _ | .finish _ =>
      inferInstanceAs (Decidable True)

namespace Sample

def session : Text := ['s']

def tokens (input output : Option Nat) : RoundUsage := ⟨input, false, output, none, none, none, none⟩

/-- One turn of the session: what the agent does between the prompt and its end. -/
def turnOf (round : List UsageStep) : List UsageStep :=
  [.spawn session, .beginTurn session, .prompt session ⟨none, []⟩] ++ round ++
    [.finish session, .deliver, .take]

/-- The first response reports its input only. -/
def halfReported : List UsageStep :=
  turnOf [.respond session (tokens (some 5) none), .deliver]

/-- The history is summarized within the turn. -/
def summarized : List UsageStep :=
  turnOf [.summarize session (tokens (some 3) (some 1)),
    .respond session (tokens (some 10) (some 2)), .deliver]

/-- Two turns, the second with two rounds. -/
def twoTurns : List UsageStep :=
  turnOf [.respond session (tokens (some 10) (some 2)), .deliver] ++
    [.beginTurn session, .prompt session ⟨none, []⟩,
      .respond session (tokens (some 20) (some 0)), .respond session (tokens (some 5) (some 1)),
      .deliver, .deliver, .finish session, .deliver, .take]

end Sample

/-- A first response without its output count makes the record unreliable, and what a summary
costs is in no record. -/
theorem half_reported :
    (Run.Along Timely step start Sample.halfReported ∧
      InRange (Run.run step start Sample.halfReported).log ∧
      (records Sample.session (Run.run step start Sample.halfReported).log).map
        (·.deltaReliable) = [false]) ∧
    Run.Along Timely step start Sample.summarized ∧
      InRange (Run.run step start Sample.summarized).log ∧
      totalOf .input (records Sample.session (Run.run step start Sample.summarized).log) =
        some 10 ∧
      (providerTokens .input Sample.session (Run.run step start Sample.summarized).log).sum = 13 := by
  refine ⟨⟨by decide, inRange_of_totals rfl (fun side => ?_) (by decide), rfl⟩,
    by decide, inRange_of_totals rfl (fun side => ?_) (by decide), rfl, rfl⟩
  · cases side <;> decide
  · cases side <;> decide

theorem token_accounting_two_turns :
    Numbered (Run.run step start Sample.twoTurns).log ∧
      Exact Sample.session (Run.run step start Sample.twoTurns).log := by
  have hwhole : Whole Sample.session (Run.run step start Sample.twoTurns).log := by
    rintro before e after hlog usage rfl _ _ side
    have hmem : UsageEvent.responded Sample.session usage ∈
        (Run.run step start Sample.twoTurns).log := by
      rw [hlog]
      exact List.mem_append_right _ List.mem_cons_self
    have hall : (Run.run step start Sample.twoTurns).log.all fun
        | .responded _ usage => usage.inputTokens.isSome && usage.outputTokens.isSome
        | _ => true := rfl
    have hboth := List.all_eq_true.1 hall _ hmem
    rw [Bool.and_eq_true] at hboth
    cases side with
    | input => exact hboth.1
    | output => exact hboth.2
  have hrange : InRange (Run.run step start Sample.twoTurns).log :=
    inRange_of_totals rfl (fun side => by cases side <;> decide) (by decide)
  have hcase := (token_accounting Sample.twoTurns).1 (by decide) hrange
  exact ⟨hcase.1, hcase.2 Sample.session hwhole⟩

end Connection

end Acp
end Maju
