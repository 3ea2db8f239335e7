import Mathlib.Logic.Function.Basic
import Maju.Core.Nostr
import Maju.Lib.HashMap
import Maju.Lib.Run
import Maju.Workflow.Schedule

/-!
# Engine — the scheduler loop of the workflow engine

Every pod runs the loop: on a tick it goes through the enabled workflows, resolves the instant that
each is due for, and claims that instant in `scheduled_workflow_fires`.  The claim is the fire; it
succeeds once for a workflow and an instant, whichever pod makes it.  Between the two the check of
the owner is awaited, and other pods may claim.

* `resolve`, `claim` — the two halves of the loop body for one workflow;
* `Engine.step` — a pod wakes for a tick, takes the next step of its tick, or is restarted;
* `Advances` — what the next step of a tick is for one workflow.

What fails outside of the scheduler (a read of the anchor, the check of the owner, the claim, the
creation of the run) is an outcome that comes with the row.
-/

namespace Maju
namespace Workflow

open Lib Core

/-- A workflow and the community that owns it. -/
abbrev WorkflowKey := CommunityId × Uuid

/-- `TriggerDef`, as far as the loop tells them apart.  A workflow without a channel, or whose
definition does not parse or is switched off, is passed over like one with another trigger. -/
inductive Trigger where
  | cron (expr : Text)
  | interval (dur : Text)
  | other
  deriving DecidableEq, Repr

/-- An enabled workflow at a tick, with what the calls of the tick for it come to: whether
`latest_scheduled_workflow_fire` can be read, whether its owner has authority in its channel,
whether the claim can be made or lost, and whether the run can be created. -/
structure Row where
  trigger : Trigger
  anchorRead : Bool
  authorized : Bool
  claimable : Bool
  runCreated : Bool
  deriving DecidableEq, Repr

/-- A row of `scheduled_workflow_fires`, with the time of the tick that claimed it. -/
structure Fire where
  workflow : WorkflowKey
  scheduledFor : Int
  tick : Int
  deriving DecidableEq, Repr

/-! ## One workflow -/

section Body

variable (parse : CronParser)

/-- `latest_scheduled_workflow_fire`. -/
def latestScheduledFire (fires : List Fire) : Option Int := (fires.map Fire.scheduledFor).max?

/-- The anchor of an interval: the entry of `last_fired`, else the latest claim. -/
def intervalAnchor (row : Row) (anchor : Option Int) (fires : List Fire) : Option Int :=
  match anchor with
  | some t => some t
  | none => if row.anchorRead then latestScheduledFire fires else none

/-- What the first half makes of a workflow: its entry of `last_fired`, and the instant to claim
with the anchor that an interval was measured from. -/
structure Resolved where
  anchor : Option Int
  due : Option (Int × Option Int)
  deriving DecidableEq, Repr

/-- The loop body up to the check of the owner, for a workflow with its entry of `last_fired` and
its fires. -/
def resolve (now : Int) (row : Row) (anchor : Option Int) (fires : List Fire) : Resolved :=
  match row.trigger with
  | .cron expr => ⟨anchor, (cronFireInstant parse expr now 60).map fun instant => (instant, none)⟩
  | .interval dur =>
      let last := intervalAnchor row anchor fires
      if intervalShouldFire dur last now then
        ⟨anchor, (intervalFireInstant dur now).map fun instant => (instant, last)⟩
      -- the first tick without any anchor seeds one
      else ⟨if last = none then some now else anchor, none⟩
  | .other => ⟨anchor, none⟩

/-- What the second half makes of a workflow: its entry of `last_fired` and the instant it fires
for. -/
structure Claimed where
  anchor : Option Int
  fired : Option Int
  deriving DecidableEq, Repr

/-- The entry of `last_fired` after a claim that is made or lost. -/
def onClaim (now : Int) (trigger : Trigger) (anchor : Option Int) : Option Int :=
  match trigger with
  | .interval _ => some now
  | _ => anchor

/-- The rest of the loop body: the owner is checked and the instant claimed. -/
def claim (now : Int) (row : Row) (instant : Int) (anchor : Option Int) (fires : List Fire) :
    Claimed :=
  if row.authorized = false then ⟨anchor, none⟩
  else if row.claimable = false then ⟨anchor, none⟩
  else if instant ∈ fires.map Fire.scheduledFor then ⟨onClaim now row.trigger anchor, none⟩
  -- the claim stays where the run cannot be created
  else if row.runCreated = false then ⟨anchor, some instant⟩
  else ⟨onClaim now row.trigger anchor, some instant⟩

end Body

/-! ## The loop -/

abbrev PodId := Nat

/-- A claim that a tick is about to make, with the anchor that its interval was measured from. -/
structure Due where
  workflow : WorkflowKey
  row : Row
  scheduledFor : Int
  last : Option Int
  deriving DecidableEq

/-- A tick under way: its time, the workflows it has loaded, those it has not come to, and the claim
it is about to make. -/
structure Tick where
  now : Int
  rows : HashMap WorkflowKey Row
  rest : List (Sigma fun _ : WorkflowKey => Row)
  due : Option Due

/-- The memory of a pod: `last_fired` and the tick that it is in. -/
structure Pod where
  lastFired : HashMap WorkflowKey Int
  tick : Option Tick

structure Engine where
  pods : PodId → Pod
  fires : List Fire
  clock : Int

/-- A pod wakes from its sleep and loads the workflows, takes the next step of its tick, or is
restarted. -/
inductive Input where
  | wake (pod : PodId) (now : Int) (rows : HashMap WorkflowKey Row)
  | next (pod : PodId)
  | restart (pod : PodId)

def Input.pod : Input → PodId
  | .wake pod _ _ => pod
  | .next pod => pod
  | .restart pod => pod

def firesOf (key : WorkflowKey) (fires : List Fire) : List Fire :=
  fires.filter fun f => f.workflow = key

/-- `last_fired` with the entry of a workflow. -/
def enter (lastFired : HashMap WorkflowKey Int) (key : WorkflowKey) (anchor : Option Int) :
    HashMap WorkflowKey Int :=
  match anchor with
  | some t => lastFired.insert key t
  | none => lastFired

namespace Engine

variable (parse : CronParser)

/-- No claim was made and no pod has an anchor. -/
def start : Engine := ⟨fun _ => ⟨∅, none⟩, [], 0⟩

/-- The entry of `last_fired` of a workflow on a pod. -/
def anchor (e : Engine) (pod : PodId) (key : WorkflowKey) : Option Int :=
  (e.pods pod).lastFired.lookup key

def setPod (e : Engine) (pod : PodId) (p : Pod) : Engine :=
  { e with pods := Function.update e.pods pod p }

/-- The tick comes to the next workflow. -/
def resolveNext (e : Engine) (pod : PodId) (tick : Tick) (key : WorkflowKey) (row : Row)
    (rest : List (Sigma fun _ : WorkflowKey => Row)) : Engine :=
  let r := resolve parse tick.now row (e.anchor pod key) (firesOf key e.fires)
  e.setPod pod
    { lastFired := enter (e.pods pod).lastFired key r.anchor
      tick := some { tick with
        rest := rest
        due := r.due.map fun due => ⟨key, row, due.1, due.2⟩ } }

/-- The tick makes the claim that it is about to make. -/
def claimDue (e : Engine) (pod : PodId) (tick : Tick) (due : Due) : Engine :=
  let c := claim tick.now due.row due.scheduledFor (e.anchor pod due.workflow)
    (firesOf due.workflow e.fires)
  { e.setPod pod ⟨enter (e.pods pod).lastFired due.workflow c.anchor,
      some { tick with due := none }⟩ with
    fires := e.fires ++ (c.fired.map fun instant => ⟨due.workflow, instant, tick.now⟩).toList }

/-- The tick ends; entries of workflows that are not enabled any more are pruned. -/
def finish (e : Engine) (pod : PodId) (tick : Tick) : Engine :=
  e.setPod pod
    ⟨(e.pods pod).lastFired.retain fun key _ => (tick.rows.lookup key).isSome, none⟩

def next (e : Engine) (pod : PodId) : Engine :=
  match (e.pods pod).tick with
  | none => e
  | some tick =>
      match tick.due, tick.rest with
      | some due, _ => e.claimDue pod tick due
      | none, entry :: rest => e.resolveNext parse pod tick entry.1 entry.2 rest
      | none, [] => e.finish pod tick

def step (e : Engine) : Input → Engine
  | .wake pod now rows =>
      { e.setPod pod ⟨(e.pods pod).lastFired, some ⟨now, rows, rows.entries, none⟩⟩ with
        clock := now }
  | .next pod => e.next parse pod
  | .restart pod => e.setPod pod ⟨∅, none⟩

def reached (inputs : List Input) : Engine := Run.run (step parse) start inputs

end Engine

/-! ## What a step changes -/

theorem resolve_anchor (parse : CronParser) (now : Int) (row : Row) (anchor : Option Int)
    (fires : List Fire) :
    (resolve parse now row anchor fires).anchor = anchor ∨
      (resolve parse now row anchor fires).anchor = some now := by
  unfold resolve
  split
  · exact Or.inl rfl
  · dsimp only
    split_ifs
    · exact Or.inl rfl
    · exact Or.inr rfl
    · exact Or.inl rfl
  · exact Or.inl rfl

theorem claim_cases (now : Int) (row : Row) (instant : Int) (anchor : Option Int)
    (fires : List Fire) :
    ((claim now row instant anchor fires).anchor = anchor ∨
      (claim now row instant anchor fires).anchor = some now) ∧
    ((claim now row instant anchor fires).fired = none ∨
      (claim now row instant anchor fires).fired = some instant) := by
  have hentry : onClaim now row.trigger anchor = anchor ∨
      onClaim now row.trigger anchor = some now := by
    unfold onClaim
    split
    · exact Or.inr rfl
    · exact Or.inl rfl
  unfold claim
  split_ifs
  · exact ⟨Or.inl rfl, Or.inl rfl⟩
  · exact ⟨Or.inl rfl, Or.inl rfl⟩
  · exact ⟨hentry, Or.inl rfl⟩
  · exact ⟨Or.inl rfl, Or.inr rfl⟩
  · exact ⟨hentry, Or.inr rfl⟩

theorem enter_lookup {lastFired : HashMap WorkflowKey Int} {key : WorkflowKey}
    {anchor : Option Int} {now : Int}
    (h : anchor = lastFired.lookup key ∨ anchor = some now) :
    (enter lastFired key anchor).lookup key = anchor := by
  cases anchor with
  | some t => exact AList.lookup_insert _
  | none =>
      rcases h with hsame | hset
      · exact hsame.symm
      · cases hset

theorem enter_lookup_ne (lastFired : HashMap WorkflowKey Int) {key other : WorkflowKey}
    (anchor : Option Int) (hne : other ≠ key) :
    (enter lastFired other anchor).lookup key = lastFired.lookup key := by
  cases anchor with
  | none => rfl
  | some t => exact AList.lookup_insert_ne hne.symm

theorem firesOf_append_ne (fires : List Fire) {key other : WorkflowKey} (hne : other ≠ key)
    (fired : Option Int) (now : Int) :
    firesOf key (fires ++ (fired.map fun instant => ⟨other, instant, now⟩).toList) =
      firesOf key fires := by
  cases fired <;> simp [firesOf, hne]

theorem firesOf_append_same (fires : List Fire) (key : WorkflowKey) (fired : Option Int)
    (now : Int) :
    firesOf key (fires ++ (fired.map fun instant => ⟨key, instant, now⟩).toList) =
      firesOf key fires ++ (fired.map fun instant => ⟨key, instant, now⟩).toList := by
  cases fired <;> simp [firesOf]

/-- From a tick with an entry and fires of a workflow to those after its next step: the workflow is
claimed or resolved, another one is, or the tick ends. -/
inductive Advances (parse : CronParser) (key : WorkflowKey) (tick : Tick) (anchor : Option Int)
    (fires : List Fire) (tick' : Option Tick) (anchor' : Option Int) (fires' : List Fire) :
    Prop where
  | claims (due : Due) (hdue : tick.due = some due) (hkey : due.workflow = key)
      (htick : tick' = some { tick with due := none })
      (hanchor : anchor' = (claim tick.now due.row due.scheduledFor anchor fires).anchor)
      (hfires : fires' = fires ++ ((claim tick.now due.row due.scheduledFor anchor fires).fired.map
        fun instant => ⟨key, instant, tick.now⟩).toList)
  | claimsOther (due : Due) (hdue : tick.due = some due) (hkey : due.workflow ≠ key)
      (htick : tick' = some { tick with due := none }) (hanchor : anchor' = anchor)
      (hfires : fires' = fires)
  | resolves (row : Row) (rest : List (Sigma fun _ : WorkflowKey => Row)) (hdue : tick.due = none)
      (hrest : tick.rest = ⟨key, row⟩ :: rest)
      (htick : tick' = some { tick with
        rest := rest
        due := (resolve parse tick.now row anchor fires).due.map fun due =>
          ⟨key, row, due.1, due.2⟩ })
      (hanchor : anchor' = (resolve parse tick.now row anchor fires).anchor)
      (hfires : fires' = fires)
  | resolvesOther (entry : Sigma fun _ : WorkflowKey => Row)
      (rest : List (Sigma fun _ : WorkflowKey => Row)) (due' : Option Due) (hdue : tick.due = none)
      (hrest : tick.rest = entry :: rest) (hkey : entry.1 ≠ key)
      (hother : ∀ due ∈ due', due.workflow ≠ key)
      (htick : tick' = some { tick with rest := rest, due := due' }) (hanchor : anchor' = anchor)
      (hfires : fires' = fires)
  | finishes (hdue : tick.due = none) (hrest : tick.rest = []) (htick : tick' = none)
      (hanchor : anchor' = if (tick.rows.lookup key).isSome then anchor else none)
      (hfires : fires' = fires)

section Steps

theorem Advances.anchor_of {parse : CronParser} {key : WorkflowKey} {tick : Tick}
    {anchor anchor' : Option Int} {fires fires' : List Fire} {tick' : Option Tick}
    (h : Advances parse key tick anchor fires tick' anchor' fires') {a : Int}
    (ha : anchor' = some a) : anchor = some a ∨ a = tick.now := by
  cases h with
  | claims due _ _ _ hanchor _ =>
      rw [hanchor] at ha
      rcases (claim_cases tick.now due.row due.scheduledFor anchor fires).1 with hsame | hset
      · exact Or.inl (hsame.symm.trans ha)
      · exact Or.inr (Option.some.inj (ha.symm.trans hset))
  | claimsOther _ _ _ _ hanchor _ => exact Or.inl (hanchor.symm.trans ha)
  | resolves row rest _ _ _ hanchor _ =>
      rw [hanchor] at ha
      rcases resolve_anchor parse tick.now row anchor fires with hsame | hset
      · exact Or.inl (hsame.symm.trans ha)
      · exact Or.inr (Option.some.inj (ha.symm.trans hset))
  | resolvesOther _ _ _ _ _ _ _ _ hanchor _ => exact Or.inl (hanchor.symm.trans ha)
  | finishes _ _ _ hanchor _ =>
      rw [hanchor] at ha
      split_ifs at ha
      exact Or.inl ha

variable (parse : CronParser)

theorem Engine.setPod_self (e : Engine) (pod : PodId) (p : Pod) : (e.setPod pod p).pods pod = p :=
  Function.update_self ..

theorem Engine.setPod_other (e : Engine) {pod other : PodId} (p : Pod) (hne : other ≠ pod) :
    (e.setPod pod p).pods other = e.pods other :=
  Function.update_of_ne hne ..

theorem Engine.step_other (e : Engine) {input : Input} {other : PodId} (hne : other ≠ input.pod) :
    (e.step parse input).pods other = e.pods other := by
  cases input with
  | wake pod now rows => exact e.setPod_other _ hne
  | restart pod => exact e.setPod_other _ hne
  | next pod =>
      change (e.next parse pod).pods other = _
      unfold Engine.next
      split
      · rfl
      · split
        · exact e.setPod_other _ hne
        · exact e.setPod_other _ hne
        · exact e.setPod_other _ hne

theorem Engine.next_idle (e : Engine) {pod : PodId} (hidle : (e.pods pod).tick = none) :
    e.next parse pod = e := by
  unfold Engine.next
  rw [hidle]

theorem Engine.next_clock (e : Engine) (pod : PodId) : (e.next parse pod).clock = e.clock := by
  unfold Engine.next
  split
  · rfl
  · split <;> rfl

theorem Engine.next_advances (e : Engine) (pod : PodId) (key : WorkflowKey) {tick : Tick}
    (htick : (e.pods pod).tick = some tick) :
    Advances parse key tick (e.anchor pod key) (firesOf key e.fires)
      ((e.next parse pod).pods pod).tick ((e.next parse pod).anchor pod key)
      (firesOf key (e.next parse pod).fires) := by
  unfold Engine.next Engine.anchor
  rw [htick]
  dsimp only
  split
  · next due hdue =>
      unfold Engine.claimDue
      dsimp only
      rw [e.setPod_self]
      by_cases hkey : due.workflow = key
      · subst hkey
        exact .claims due hdue rfl rfl (enter_lookup (claim_cases ..).1) (firesOf_append_same ..)
      · exact .claimsOther due hdue hkey rfl (enter_lookup_ne _ _ hkey)
          (firesOf_append_ne _ hkey _ _)
  · next entry rest hdue hrest =>
      unfold Engine.resolveNext
      dsimp only
      rw [e.setPod_self]
      obtain ⟨other, row⟩ := entry
      by_cases hkey : other = key
      · subst hkey
        exact .resolves row rest hdue hrest rfl (enter_lookup (resolve_anchor ..)) rfl
      · refine .resolvesOther _ rest _ hdue hrest hkey ?_ rfl (enter_lookup_ne _ _ hkey) rfl
        intro due hmem
        obtain ⟨_, _, rfl⟩ := Option.map_eq_some_iff.1 hmem
        exact hkey
  · next hdue hrest =>
      unfold Engine.finish
      rw [e.setPod_self]
      refine .finishes hdue hrest rfl ?_ rfl
      rw [HashMap.lookup_retain]
      cases (e.pods pod).lastFired.lookup key <;> simp [Option.filter]

/-! ## Claims -/

variable {parse} {key : WorkflowKey}

theorem fires_step (parse : CronParser) (e : Engine) (key : WorkflowKey) (input : Input) :
    firesOf key (e.step parse input).fires = firesOf key e.fires ∨
      ∃ pod tick due, input = .next pod ∧ (e.pods pod).tick = some tick ∧ tick.due = some due ∧
        due.workflow = key ∧ due.row.authorized = true ∧ due.row.claimable = true ∧
        due.scheduledFor ∉ (firesOf key e.fires).map Fire.scheduledFor ∧
        firesOf key (e.step parse input).fires =
          firesOf key e.fires ++ [⟨key, due.scheduledFor, tick.now⟩] := by
  cases input with
  | wake pod now rows => exact Or.inl rfl
  | restart pod => exact Or.inl rfl
  | next pod =>
      change firesOf key (e.next parse pod).fires = _ ∨ ∃ pod' tick due, _ ∧ _ ∧ _ ∧ _ ∧ _ ∧ _ ∧ _ ∧
        firesOf key (e.next parse pod).fires = _
      cases htick : (e.pods pod).tick with
      | none =>
          rw [e.next_idle parse htick]
          exact Or.inl rfl
      | some tick =>
          cases e.next_advances parse pod key htick with
          | claims due hdue hkey _ _ hfires =>
              rw [hfires]
              unfold claim
              split_ifs with hauthorized hclaimable hclaimed
              · exact Or.inl (List.append_nil _)
              · exact Or.inl (List.append_nil _)
              · exact Or.inl (List.append_nil _)
              · exact Or.inr ⟨pod, tick, due, rfl, htick, hdue, hkey, by simpa using hauthorized,
                  by simpa using hclaimable, hclaimed, rfl⟩
              · exact Or.inr ⟨pod, tick, due, rfl, htick, hdue, hkey, by simpa using hauthorized,
                  by simpa using hclaimable, hclaimed, rfl⟩
          | claimsOther due _ _ _ _ hfires => exact Or.inl hfires
          | resolves row rest _ _ _ _ hfires => exact Or.inl hfires
          | resolvesOther entry rest due' _ _ _ _ _ _ hfires => exact Or.inl hfires
          | finishes _ _ _ _ hfires => exact Or.inl hfires

theorem claims_nodup (parse : CronParser) (key : WorkflowKey) {e : Engine} (inputs : List Input)
    (he : ((firesOf key e.fires).map Fire.scheduledFor).Nodup) :
    ((firesOf key (Run.run (Engine.step parse) e inputs).fires).map Fire.scheduledFor).Nodup := by
  refine Run.invariant_of_step
    (fun e : Engine => ((firesOf key e.fires).map Fire.scheduledFor).Nodup) ?_ he inputs
  intro e input hnodup
  rcases fires_step parse e key input with hsame | ⟨_, _, _, _, _, _, _, _, _, hnew, hadd⟩
  · rw [hsame]
    exact hnodup
  · rw [hadd, List.map_append]
    refine List.nodup_append.2 ⟨hnodup, List.nodup_singleton _, ?_⟩
    intro i hi j hj hij
    rw [hij, List.mem_singleton.1 hj] at hi
    exact hnew hi

theorem fires_mono (parse : CronParser) (key : WorkflowKey) (e : Engine) (inputs : List Input) :
    ∃ added, firesOf key (Run.run (Engine.step parse) e inputs).fires =
      firesOf key e.fires ++ added := by
  induction inputs generalizing e with
  | nil => exact ⟨[], (List.append_nil _).symm⟩
  | cons input inputs ih =>
      obtain ⟨added, hadded⟩ := ih (e.step parse input)
      change ∃ added,
        firesOf key (Run.run (Engine.step parse) (e.step parse input) inputs).fires = _
      rw [hadded]
      rcases fires_step parse e key input with hsame | ⟨_, tick, due, _, _, _, _, _, _, _, hadd⟩
      · exact ⟨added, by rw [hsame]⟩
      · exact ⟨_ :: added, by rw [hadd, List.append_assoc, List.singleton_append]⟩

theorem claimed_of_claim (now : Int) {row : Row} (hauthorized : row.authorized = true)
    (hclaimable : row.claimable = true) (instant : Int) (anchor : Option Int) (fires : List Fire) :
    (claim now row instant anchor fires).fired = some instant ∨
      (instant ∈ fires.map Fire.scheduledFor ∧ (claim now row instant anchor fires).fired = none ∧
        ∀ dur, row.trigger = .interval dur →
          (claim now row instant anchor fires).anchor = some now) := by
  unfold claim
  rw [hauthorized, hclaimable]
  simp only [Bool.true_eq_false, if_false]
  split_ifs with hclaimed
  · refine Or.inr ⟨hclaimed, rfl, fun dur hdur => ?_⟩
    rw [hdur]
    rfl
  · exact Or.inl rfl
  · exact Or.inl rfl

end Steps

/-! ## The ticks of one pod -/

def ticksOf (pod : PodId) (inputs : List Input) : List Int :=
  inputs.filterMap fun input =>
    match input with
    | .wake p now _ => if p = pod then some now else none
    | _ => none

/-- On the ticks of the pod the workflow is enabled with the trigger, and its calls succeed. -/
def Enabled (pod : PodId) (key : WorkflowKey) (trigger : Trigger) (input : Input) : Prop :=
  ∀ now rows, input = .wake pod now rows → ∃ row, rows.lookup key = some row ∧
    row.trigger = trigger ∧ row.authorized = true ∧ row.claimable = true

theorem ticksOf_wake (pod : PodId) (now : Int) (rows : HashMap WorkflowKey Row)
    (inputs : List Input) :
    ticksOf pod (.wake pod now rows :: inputs) = now :: ticksOf pod inputs :=
  List.filterMap_cons_some (if_pos rfl)

theorem ticksOf_other {pod : PodId} {input : Input} (hne : pod ≠ input.pod) (inputs : List Input) :
    ticksOf pod (input :: inputs) = ticksOf pod inputs := by
  cases input with
  | restart p => rfl
  | next p => rfl
  | wake p now rows => exact List.filterMap_cons_none (if_neg (Ne.symm hne))

theorem mem_ticksOf {pod : PodId} {inputs : List Input} {now : Int} :
    now ∈ ticksOf pod inputs ↔ ∃ rows, .wake pod now rows ∈ inputs := by
  unfold ticksOf
  rw [List.mem_filterMap]
  constructor
  · rintro ⟨input, hmem, hsome⟩
    cases input with
    | restart p => cases hsome
    | next p => cases hsome
    | wake p t rows =>
        dsimp only at hsome
        split_ifs at hsome with hp
        cases hsome
        exact ⟨rows, hp ▸ hmem⟩
  · rintro ⟨rows, hmem⟩
    exact ⟨_, hmem, if_pos rfl⟩

end Workflow
end Maju
