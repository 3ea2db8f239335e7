import Mathlib.Data.List.Chain
import Maju.Workflow.Engine

/-!
# Interval — how far apart an interval workflow fires

The anchor that a tick measures the interval from is the time of an earlier tick of the same pod, or
the start of the bucket that was claimed last.  Neither is the time of the last fire: the first is
not told of other pods, and the second lies before it.

* `Recorded` — anchors and claims lie in the past;
* `Anchored` — a claim is made only where the anchor or the bucket keeps it away from the fires;
* `Phase` — how far the tick of a pod is in a window without a fire;
* `interval_schedule` — along `Anchored` steps two fires are an interval apart, and in every run an
  enabled workflow fires within two intervals and two ticks.
-/

namespace Maju
namespace Workflow

open Lib Core

/-! ## Steps -/

/-- A pod wakes when its tick has ended; the clock does not go back, and its times are those of a
`DateTime`. -/
def Timely (e : Engine) : Input → Prop
  | .wake pod now _ =>
      (e.pods pod).tick.isNone = true ∧ e.clock ≤ now ∧ timestamp now ≤ Db.maxTimestamp
  | .next _ => True
  | .restart _ => True

instance Timely.decidable (e : Engine) : (input : Input) → Decidable (Timely e input)
  | .wake _ _ _ => inferInstanceAs (Decidable (_ ∧ _))
  | .next _ => isTrue trivial
  | .restart _ => isTrue trivial

/-- The workflow has the interval, wherever it is not passed over. -/
def HasInterval (key : WorkflowKey) (dur : Text) : Input → Prop
  | .wake _ _ rows => ∀ row ∈ rows.lookup key, row.trigger = .interval dur ∨ row.trigger = .other
  | .next _ => True
  | .restart _ => True

instance HasInterval.decidable (key : WorkflowKey) (dur : Text) :
    (input : Input) → Decidable (HasInterval key dur input)
  | .wake _ _ rows => inferInstanceAs (Decidable (∀ row ∈ rows.lookup key, _))
  | .next _ => isTrue trivial
  | .restart _ => isTrue trivial

/-- The anchor of a claim lies between an earlier fire and the tick, or a whole interval lies
between the one's tick and the other's bucket. -/
def Due.Clear (due : Due) (d : Nat) (now : Int) (f : Fire) : Prop :=
  (∃ last ∈ due.last, (f.tick ≤ last ∧ last ≤ now) ∨ (now ≤ last ∧ last ≤ f.tick)) ∨
    f.tick + seconds d ≤ due.scheduledFor ∨ now + seconds d ≤ f.scheduledFor

instance Due.Clear.decidable (due : Due) (d : Nat) (now : Int) (f : Fire) :
    Decidable (due.Clear d now f) :=
  inferInstanceAs (Decidable (_ ∨ _))

/-- A claim of an instant that is not claimed yet is clear of all earlier fires, by whichever
pod. -/
def Anchored (key : WorkflowKey) (d : Nat) (e : Engine) : Input → Prop
  | .next pod => ∀ tick ∈ (e.pods pod).tick, ∀ due ∈ tick.due, due.workflow = key →
      due.row.authorized = true → due.row.claimable = true →
      due.scheduledFor ∉ (firesOf key e.fires).map Fire.scheduledFor →
      ∀ f ∈ firesOf key e.fires, due.Clear d tick.now f
  | .wake _ _ _ => True
  | .restart _ => True

instance Anchored.decidable (key : WorkflowKey) (d : Nat) (e : Engine) :
    (input : Input) → Decidable (Anchored key d e input)
  | .next pod => inferInstanceAs (Decidable (∀ tick ∈ (e.pods pod).tick, _))
  | .wake _ _ _ => isTrue trivial
  | .restart _ => isTrue trivial

/-! ## The pre-filter -/

/-- What the pre-filter makes of an interval: it waits, it seeds the anchor, or the bucket that the
tick lies in is due. -/
inductive Prefilters (d : Nat) (now : Int) (last anchor : Option Int) : Resolved → Prop
  | waits (t : Int) (hlast : last = some t) (hlate : now < t + seconds d)
      (hearly : t < now + seconds d) : Prefilters d now last anchor ⟨anchor, none⟩
  | seeds (hlast : last = none) : Prefilters d now last anchor ⟨some now, none⟩
  | due (t bucket : Int) (hlast : last = some t)
      (helapsed : t + seconds d ≤ now ∨ now + seconds d ≤ t) (hzero : 0 ≤ bucket)
      (hstart : bucket ≤ now) (hend : now < bucket + seconds d) :
      Prefilters d now last anchor ⟨anchor, some (bucket, some t)⟩

theorem latestScheduledFire_mem {fires : List Fire} {t : Int}
    (h : latestScheduledFire fires = some t) : ∃ f ∈ fires, f.scheduledFor = t := by
  have hmem := List.max?_mem h
  exact List.mem_map.1 hmem

theorem intervalAnchor_of {row : Row} {anchor : Option Int} {fires : List Fire} {last : Int}
    (h : intervalAnchor row anchor fires = some last) :
    anchor = some last ∨ (anchor = none ∧ ∃ f ∈ fires, f.scheduledFor = last) := by
  unfold intervalAnchor at h
  cases anchor with
  | some a => exact Or.inl h
  | none =>
      dsimp only at h
      split_ifs at h
      exact Or.inr ⟨rfl, latestScheduledFire_mem h⟩

theorem resolve_interval (parse : CronParser) {dur : Text} {d : Nat} {now : Int} {row : Row}
    {anchor : Option Int} {fires : List Fire} (hparse : parseDurationSecs dur = some d)
    (hd : 0 < d) (htrigger : row.trigger = .interval dur) (hnow : 0 ≤ now)
    (hmax : timestamp now ≤ Db.maxTimestamp)
    (hlast : ∀ last, intervalAnchor row anchor fires = some last →
      0 ≤ last ∧ timestamp last ≤ Db.maxTimestamp) :
    Prefilters d now (intervalAnchor row anchor fires) anchor
      (resolve parse now row anchor fires) := by
  unfold resolve
  rw [htrigger]
  dsimp only
  cases hanchor : intervalAnchor row anchor fires with
  | none =>
      rw [intervalShouldFire_none hparse hd]
      exact .seeds rfl
  | some last =>
      obtain ⟨hzero, hlate⟩ := hlast last hanchor
      by_cases helapsed : last + seconds d ≤ now ∨ now + seconds d ≤ last
      · -- an interval that can elapse between two times is no longer than time
        have hfits : d < 2 ^ 63 := by
          unfold timestamp Db.maxTimestamp at hmax hlate
          unfold seconds at helapsed
          omega
        obtain ⟨bucket, hbucket, hbzero, hstart, hend⟩ :=
          intervalFireInstant_some hparse hd hfits hnow hmax
        rw [if_pos ((intervalShouldFire_some hparse).2 helapsed), hbucket]
        exact .due last bucket rfl helapsed hbzero hstart hend
      · rw [if_neg fun h => helapsed ((intervalShouldFire_some hparse).1 h)]
        exact .waits last rfl (by omega) (by omega)

/-! ## What lies in the past -/

/-- What a claim of the interval keeps from its pre-filter. -/
structure Due.Recorded (due : Due) (d : Nat) (now : Int) : Prop where
  zero : 0 ≤ due.scheduledFor
  started : due.scheduledFor ≤ now
  within : now < due.scheduledFor + seconds d
  elapsed : ∃ last ∈ due.last, last + seconds d ≤ now ∨ now + seconds d ≤ last

/-- What a tick under way knows of the workflow. -/
structure Tick.Recorded (tick : Tick) (key : WorkflowKey) (dur : Text) (d : Nat) : Prop where
  time : 0 ≤ tick.now
  rows : ∀ row, ⟨key, row⟩ ∈ tick.rest → row.trigger = .interval dur ∨ row.trigger = .other
  due : ∀ due, tick.due = some due → due.workflow = key → due.Recorded d tick.now

/-- The tick of a pod, its anchor and the claims lie in the past. -/
structure Past (key : WorkflowKey) (dur : Text) (d : Nat) (clock : Int) (tick : Option Tick)
    (anchor : Option Int) (fires : List Fire) : Prop where
  tick : ∀ t, tick = some t → t.now ≤ clock ∧ t.Recorded key dur d
  anchor : ∀ a, anchor = some a → 0 ≤ a ∧ a ≤ clock
  fires : ∀ f ∈ fires, 0 ≤ f.scheduledFor ∧ f.scheduledFor ≤ f.tick ∧ f.tick ≤ clock

structure Recorded (key : WorkflowKey) (dur : Text) (d : Nat) (e : Engine) : Prop where
  clock : 0 ≤ e.clock
  max : timestamp e.clock ≤ Db.maxTimestamp
  past : ∀ pod, Past key dur d e.clock (e.pods pod).tick (e.anchor pod key) (firesOf key e.fires)

section Recorded

variable {parse : CronParser} {key : WorkflowKey} {dur : Text} {d : Nat} {e : Engine}

theorem timestamp_mono {a b : Int} (h : a ≤ b) : timestamp a ≤ timestamp b :=
  Int.ediv_le_ediv (by decide) h

theorem Past.last {clock : Int} {tick : Option Tick} {anchor : Option Int} {fires : List Fire}
    (h : Past key dur d clock tick anchor fires) {row : Row} {last : Int}
    (hlast : intervalAnchor row anchor fires = some last) : 0 ≤ last ∧ last ≤ clock := by
  rcases intervalAnchor_of hlast with hentry | ⟨_, f, hf, rfl⟩
  · exact h.anchor last hentry
  · obtain ⟨hzero, hle, htick⟩ := h.fires f hf
    exact ⟨hzero, Int.le_trans hle htick⟩

theorem Past.prefilters (parse : CronParser) {clock : Int} {tick : Tick} {anchor : Option Int}
    {fires : List Fire} (h : Past key dur d clock (some tick) anchor fires)
    (hparse : parseDurationSecs dur = some d) (hd : 0 < d)
    (hmax : timestamp clock ≤ Db.maxTimestamp) {row : Row} (htrigger : row.trigger = .interval dur) :
    Prefilters d tick.now (intervalAnchor row anchor fires) anchor
      (resolve parse tick.now row anchor fires) := by
  obtain ⟨hnow, htick⟩ := h.tick tick rfl
  refine resolve_interval parse hparse hd htrigger htick.time
    (Int.le_trans (timestamp_mono hnow) hmax) fun last hlast => ?_
  obtain ⟨hzero, hle⟩ := h.last hlast
  exact ⟨hzero, Int.le_trans (timestamp_mono hle) hmax⟩

theorem Past.advances {clock : Int} {tick : Tick} {anchor anchor' : Option Int}
    {fires fires' : List Fire} {tick' : Option Tick}
    (h : Past key dur d clock (some tick) anchor fires)
    (hadvances : Advances parse key tick anchor fires tick' anchor' fires')
    (hparse : parseDurationSecs dur = some d) (hd : 0 < d)
    (hmax : timestamp clock ≤ Db.maxTimestamp) : Past key dur d clock tick' anchor' fires' := by
  obtain ⟨hnow, htick⟩ := h.tick tick rfl
  have hanchor : ∀ a, anchor' = some a → 0 ≤ a ∧ a ≤ clock := by
    intro a ha
    rcases hadvances.anchor_of ha with hold | rfl
    · exact h.anchor a hold
    · exact ⟨htick.time, hnow⟩
  cases hadvances with
  | claims due hdue hkey htick' _ hfires =>
      refine ⟨?_, hanchor, ?_⟩
      · rw [htick']
        intro t ht
        cases ht
        exact ⟨hnow, htick.time, htick.rows, fun _ hnone => by cases hnone⟩
      · -- the claim is for the bucket that the tick lies in
        have hbucket := htick.due due hdue hkey
        rw [hfires]
        intro f hf
        rcases List.mem_append.1 hf with hf | hf
        · exact h.fires f hf
        · rw [Option.mem_toList, Option.map_eq_some_iff] at hf
          obtain ⟨instant, hinstant, rfl⟩ := hf
          rcases (claim_cases tick.now due.row due.scheduledFor anchor fires).2 with hnone | hsome
          · rw [hnone] at hinstant
            cases hinstant
          · rw [hsome] at hinstant
            cases hinstant
            exact ⟨hbucket.zero, hbucket.started, hnow⟩
  | claimsOther due _ _ htick' _ hfires =>
      refine ⟨?_, hanchor, hfires ▸ h.fires⟩
      rw [htick']
      intro t ht
      cases ht
      exact ⟨hnow, htick.time, htick.rows, fun _ hnone => by cases hnone⟩
  | resolves row rest _ hrest htick' _ hfires =>
      have hmem : ⟨key, row⟩ ∈ tick.rest := hrest ▸ List.mem_cons_self
      refine ⟨?_, hanchor, hfires ▸ h.fires⟩
      rw [htick']
      intro t ht
      cases ht
      refine ⟨hnow, htick.time, fun other hother =>
        htick.rows other (hrest ▸ List.mem_cons_of_mem _ hother), fun due hdue _ => ?_⟩
      dsimp only at hdue ⊢
      generalize hresolved : resolve parse tick.now row anchor fires = r at hdue
      rcases htick.rows row hmem with htrigger | hother
      · have hfilter := h.prefilters parse hparse hd hmax htrigger
        rw [hresolved] at hfilter
        cases hfilter with
        | waits _ _ _ _ => cases hdue
        | seeds _ => cases hdue
        | due last bucket _ helapsed hzero hstart hend =>
            cases hdue
            exact ⟨hzero, hstart, hend, last, rfl, helapsed⟩
      · unfold resolve at hresolved
        rw [hother] at hresolved
        obtain rfl := hresolved
        cases hdue
  | resolvesOther entry rest due' _ hrest _ hother htick' _ hfires =>
      refine ⟨?_, hanchor, hfires ▸ h.fires⟩
      rw [htick']
      intro t ht
      cases ht
      exact ⟨hnow, htick.time, fun row hrow =>
        htick.rows row (hrest ▸ List.mem_cons_of_mem _ hrow),
        fun due hdue hkey => absurd hkey (hother due hdue)⟩
  | finishes _ _ htick' _ hfires =>
      refine ⟨?_, hanchor, hfires ▸ h.fires⟩
      rw [htick']
      exact fun _ hnone => by cases hnone

theorem Recorded.step (he : Recorded key dur d e) (hparse : parseDurationSecs dur = some d)
    (hd : 0 < d) {input : Input} (htimely : Timely e input)
    (hinterval : HasInterval key dur input) : Recorded key dur d (e.step parse input) := by
  -- the pods that the input is not for see the clock and the fires of the others
  have hothers : e.clock ≤ (e.step parse input).clock →
      timestamp (e.step parse input).clock ≤ Db.maxTimestamp →
      Past key dur d (e.step parse input).clock ((e.step parse input).pods input.pod).tick
        ((e.step parse input).anchor input.pod key) (firesOf key (e.step parse input).fires) →
      Recorded key dur d (e.step parse input) := by
    intro hclock hmax hself
    refine ⟨Int.le_trans he.clock hclock, hmax, fun pod => ?_⟩
    by_cases hpod : pod = input.pod
    · subst hpod
      exact hself
    · have hpast := he.past pod
      unfold Engine.anchor at hpast ⊢
      rw [e.step_other parse hpod]
      refine ⟨fun t ht => ?_, fun a ha => ?_, hself.fires⟩
      · exact ⟨Int.le_trans (hpast.tick t ht).1 hclock, (hpast.tick t ht).2⟩
      · exact ⟨(hpast.anchor a ha).1, Int.le_trans (hpast.anchor a ha).2 hclock⟩
  cases input with
  | wake pod now rows =>
      obtain ⟨_, hclock, hmax⟩ := htimely
      refine hothers hclock hmax ⟨?_, ?_, ?_⟩
      · change ∀ t, ((e.setPod pod _).pods pod).tick = some t → _
        rw [e.setPod_self]
        intro t ht
        cases ht
        exact ⟨Int.le_refl now, Int.le_trans he.clock hclock, fun row hrow =>
          hinterval row (HashMap.mem_entries_iff.1 hrow), fun _ hnone => by cases hnone⟩
      · change ∀ a, ((e.setPod pod _).pods pod).lastFired.lookup key = some a → _
        rw [e.setPod_self]
        intro a ha
        obtain ⟨hzero, hle⟩ := (he.past pod).anchor a ha
        exact ⟨hzero, Int.le_trans hle hclock⟩
      · intro f hf
        obtain ⟨hzero, hle, htick⟩ := (he.past pod).fires f hf
        exact ⟨hzero, hle, Int.le_trans htick hclock⟩
  | restart pod =>
      refine hothers (Int.le_refl _) he.max ⟨?_, ?_, (he.past pod).fires⟩
      · change ∀ t, ((e.setPod pod _).pods pod).tick = some t → _
        rw [e.setPod_self]
        exact fun _ hnone => by cases hnone
      · change ∀ a, ((e.setPod pod _).pods pod).lastFired.lookup key = some a → _
        rw [e.setPod_self]
        exact fun _ hnone => by cases hnone
  | next pod =>
      have hclock : (e.step parse (.next pod)).clock = e.clock := e.next_clock parse pod
      refine hothers (Int.le_of_eq hclock.symm) (hclock ▸ he.max) ?_
      rw [hclock]
      change Past key dur d e.clock ((e.next parse pod).pods pod).tick
        ((e.next parse pod).anchor pod key) (firesOf key (e.next parse pod).fires)
      have hpast := he.past pod
      cases htick : (e.pods pod).tick with
      | none =>
          rw [e.next_idle parse htick]
          exact hpast
      | some tick =>
          rw [htick] at hpast
          exact hpast.advances (e.next_advances parse pod key htick) hparse hd he.max

theorem recorded_start (key : WorkflowKey) (dur : Text) (d : Nat) :
    Recorded key dur d Engine.start where
  clock := Int.le_refl 0
  max := by decide
  past _ := ⟨fun _ h => (by cases h), fun _ h => (by cases h), fun _ h => (by cases h)⟩

end Recorded

/-! ## Distance -/

section Distance

variable {parse : CronParser} {key : WorkflowKey} {dur : Text} {d : Nat} {e : Engine}

/-- Two fires of a workflow are an interval apart. -/
def Apart (key : WorkflowKey) (d : Nat) (e : Engine) : Prop :=
  (firesOf key e.fires).Pairwise fun f f' =>
    f.tick + seconds d ≤ f'.tick ∨ f'.tick + seconds d ≤ f.tick

theorem Apart.step (hapart : Apart key d e) (he : Recorded key dur d e) {input : Input}
    (hanchored : Anchored key d e input) : Apart key d (e.step parse input) := by
  unfold Apart
  rcases fires_step parse e key input with hsame | ⟨pod, tick, due, rfl, htick, hdue, hkey,
    hauthorized, hclaimable, hnew, hadd⟩
  · rw [hsame]
    exact hapart
  · rw [hadd]
    refine List.pairwise_append.2 ⟨hapart, List.pairwise_singleton _ _, ?_⟩
    intro f hf f' hf'
    cases List.mem_singleton.1 hf'
    change f.tick + seconds d ≤ tick.now ∨ tick.now + seconds d ≤ f.tick
    have hbucket := ((he.past pod).tick tick htick).2.due due hdue hkey
    obtain ⟨_, hstarted, _⟩ := (he.past pod).fires f hf
    rcases hanchored tick htick due hdue hkey hauthorized hclaimable hnew f hf with
      ⟨last, hlast, hbetween⟩ | hapart | hapart
    · -- the interval has elapsed since the anchor, which lies between the two
      obtain ⟨last', hlast', helapsed⟩ := hbucket.elapsed
      have hsame : last' = last := Option.mem_unique hlast' hlast
      omega
    · have := hbucket.started
      omega
    · omega

end Distance

/-! ## Liveness -/

section Liveness

variable {parse : CronParser} {key : WorkflowKey} {dur : Text} {d : Nat} {w tau : Int}

def Row.Able (row : Row) (dur : Text) : Prop :=
  row.trigger = .interval dur ∧ row.authorized = true ∧ row.claimable = true

/-- After a tick at `t` without a fire the anchor is not so late that the pod could wait past the
window that began at `w`. -/
def Waits (d : Nat) (w tau t : Int) (anchor : Option Int) : Prop :=
  (t < w + seconds d ∧ ∀ a, anchor = some a → a ≤ w) ∨
    ∃ a, anchor = some a ∧ t < a + seconds d ∧ a ≤ w + seconds d + tau

/-- How far a pod is with a workflow, where it last woke at `t` in the window that began at `w` and
nothing has fired: it is in a tick from before the window, it sleeps, it comes to the workflow, it
is about to claim the bucket of the tick, or it has passed the workflow. -/
inductive Phase (key : WorkflowKey) (dur : Text) (d : Nat) (w tau : Int) :
    Int → Option Tick → Option Int → Prop
  | early (tick : Tick) (anchor : Option Int) (hbefore : tick.now ≤ w)
      (hanchor : ∀ a, anchor = some a → a ≤ w) : Phase key dur d w tau w (some tick) anchor
  | asleep (t : Int) (anchor : Option Int) (hwaits : Waits d w tau t anchor) :
      Phase key dur d w tau t none anchor
  | ahead (tick : Tick) (anchor : Option Int) (row : Row) (since : Int) (hwindow : w ≤ tick.now)
      (hlookup : (tick.rows.lookup key).isSome = true) (hrow : ⟨key, row⟩ ∈ tick.rest)
      (hnodup : tick.rest.NodupKeys) (hable : row.Able dur)
      (hdue : ∀ due, tick.due = some due → due.workflow ≠ key) (hsoon : tick.now ≤ since + tau)
      (hwaits : Waits d w tau since anchor) : Phase key dur d w tau tick.now (some tick) anchor
  | due (tick : Tick) (anchor : Option Int) (due : Due) (hwindow : w ≤ tick.now)
      (hlookup : (tick.rows.lookup key).isSome = true) (hdue : tick.due = some due)
      (hkey : due.workflow = key) (hable : due.row.Able dur) (hrest : key ∉ tick.rest.keys)
      (hbucket : tick.now < due.scheduledFor + seconds d) :
      Phase key dur d w tau tick.now (some tick) anchor
  | passed (tick : Tick) (anchor : Option Int) (hlookup : (tick.rows.lookup key).isSome = true)
      (hrest : key ∉ tick.rest.keys) (hdue : ∀ due, tick.due = some due → due.workflow ≠ key)
      (hwaits : Waits d w tau tick.now anchor) : Phase key dur d w tau tick.now (some tick) anchor

theorem Waits.resolve {since now : Int} {row : Row} {anchor : Option Int} {fires : List Fire}
    (h : Waits d w tau since anchor) (hd : 0 < d) (hsoon : now ≤ since + tau)
    (hpast : ∀ f ∈ fires, f.scheduledFor ≤ w) {r : Resolved}
    (hfilter : Prefilters d now (intervalAnchor row anchor fires) anchor r) :
    (r.due = none ∧ Waits d w tau now r.anchor) ∨
      ∃ bucket last, r.due = some (bucket, last) ∧ now < bucket + seconds d := by
  have hpos : 0 < seconds d := by
    unfold seconds
    omega
  cases hfilter with
  | waits last hlast hlate _ =>
      refine Or.inl ⟨rfl, ?_⟩
      rcases h with ⟨_, hearly⟩ | ⟨a, rfl, _, hle⟩
      · -- an early anchor, and every claim, is from before the window
        have hbefore : last ≤ w := by
          rcases intervalAnchor_of hlast with hentry | ⟨_, f, hf, rfl⟩
          · exact hearly last hentry
          · exact hpast f hf
        exact Or.inl ⟨by omega, hearly⟩
      · cases hlast
        exact Or.inr ⟨last, rfl, hlate, hle⟩
  | seeds hlast =>
      refine Or.inl ⟨rfl, Or.inr ⟨now, rfl, by omega, ?_⟩⟩
      rcases h with ⟨hlt, _⟩ | ⟨a, rfl, _⟩
      · omega
      · cases hlast
  | due last bucket _ _ _ _ hend => exact Or.inr ⟨bucket, some last, rfl, hend⟩

section Advance

variable {tick : Tick} {anchor anchor' : Option Int} {fires fires' : List Fire}
  {tick' : Option Tick}

theorem phase_of_early (hbefore : tick.now ≤ w) (hanchor : ∀ a, anchor = some a → a ≤ w)
    (hpos : 0 < seconds d) (hadvances : Advances parse key tick anchor fires tick' anchor' fires') :
    Phase key dur d w tau w tick' anchor' := by
  have hanchor' : ∀ a, anchor' = some a → a ≤ w := by
    intro a ha
    rcases hadvances.anchor_of ha with hold | rfl
    · exact hanchor a hold
    · exact hbefore
  cases hadvances with
  | claims due _ _ htick' _ _ => exact htick' ▸ .early _ anchor' hbefore hanchor'
  | claimsOther due _ _ htick' _ _ => exact htick' ▸ .early _ anchor' hbefore hanchor'
  | resolves row rest _ _ htick' _ _ => exact htick' ▸ .early _ anchor' hbefore hanchor'
  | resolvesOther entry rest due' _ _ _ _ htick' _ _ =>
      exact htick' ▸ .early _ anchor' hbefore hanchor'
  | finishes _ _ htick' _ _ => exact htick' ▸ .asleep w anchor' (Or.inl ⟨by omega, hanchor'⟩)

theorem phase_of_ahead {row : Row} {since clock : Int} (hwindow : w ≤ tick.now)
    (hlookup : (tick.rows.lookup key).isSome = true) (hrow : ⟨key, row⟩ ∈ tick.rest)
    (hnodup : tick.rest.NodupKeys) (hable : row.Able dur)
    (hdue : ∀ due, tick.due = some due → due.workflow ≠ key) (hsoon : tick.now ≤ since + tau)
    (hwaits : Waits d w tau since anchor)
    (hpast : Past key dur d clock (some tick) anchor fires)
    (hmax : timestamp clock ≤ Db.maxTimestamp) (hparse : parseDurationSecs dur = some d)
    (hd : 0 < d) (hquiet : ∀ f ∈ fires, f.scheduledFor ≤ w)
    (hadvances : Advances parse key tick anchor fires tick' anchor' fires') :
    Phase key dur d w tau tick.now tick' anchor' := by
  cases hadvances with
  | claims due hsome hkey _ _ _ => exact absurd hkey (hdue due hsome)
  | claimsOther due _ _ htick' hanchor' _ =>
      rw [htick', hanchor']
      exact .ahead { tick with due := none } anchor row since hwindow hlookup hrow hnodup hable
        (fun _ hnone => (by cases hnone)) hsoon hwaits
  | resolves other rest _ hrest htick' hanchor' _ =>
      rw [hrest] at hrow hnodup
      obtain ⟨hnotin, _⟩ := List.nodupKeys_cons.1 hnodup
      -- the workflow comes once
      have hsame : row = other := by
        rcases List.mem_cons.1 hrow with heq | hmem
        · cases heq
          rfl
        · exact absurd (List.mem_map.2 ⟨_, hmem, rfl⟩) hnotin
      subst hsame
      have hfilter := hpast.prefilters parse hparse hd hmax hable.1
      rw [htick', hanchor']
      rcases hwaits.resolve hd hsoon hquiet hfilter with
        ⟨hnone, hwaits'⟩ | ⟨bucket, last, hsome, hbucket⟩
      · rw [hnone]
        exact .passed { tick with rest := rest, due := none } _ hlookup hnotin
          (fun _ hnone => (by cases hnone)) hwaits'
      · rw [hsome]
        exact .due { tick with rest := rest, due := some ⟨key, row, bucket, last⟩ } _ _ hwindow
          hlookup rfl rfl hable hnotin hbucket
  | resolvesOther entry rest due' _ hrest hkey hother htick' hanchor' _ =>
      rw [hrest] at hrow hnodup
      have hmem : ⟨key, row⟩ ∈ rest := by
        rcases List.mem_cons.1 hrow with rfl | hmem
        · exact absurd rfl hkey
        · exact hmem
      rw [htick', hanchor']
      exact .ahead { tick with rest := rest, due := due' } anchor row since hwindow hlookup hmem
        (List.nodupKeys_cons.1 hnodup).2 hable hother hsoon hwaits
  | finishes _ hrest _ _ _ =>
      rw [hrest] at hrow
      cases hrow

theorem phase_of_due {due : Due} (hlookup : (tick.rows.lookup key).isSome = true)
    (hdue : tick.due = some due) (hkey : due.workflow = key) (hable : due.row.Able dur)
    (hrest : key ∉ tick.rest.keys) (hbucket : tick.now < due.scheduledFor + seconds d)
    (hpos : 0 < seconds d) (htau : 0 ≤ tau) (hquiet : ∀ f ∈ fires, f.scheduledFor ≤ w)
    (hadvances : Advances parse key tick anchor fires tick' anchor' fires') :
    fires' ≠ fires ∨ Phase key dur d w tau tick.now tick' anchor' := by
  cases hadvances with
  | claims other hsome _ htick' hanchor' hfires' =>
      cases hdue.symm.trans hsome
      obtain ⟨htrigger, hauthorized, hclaimable⟩ := hable
      rcases claimed_of_claim tick.now hauthorized hclaimable due.scheduledFor anchor fires with
        hfired | ⟨hclaimed, _, hset⟩
      · -- a fire of the tick
        refine Or.inl ?_
        rw [hfires', hfired]
        simp
      · -- the bucket was claimed before the window, so it started before it
        obtain ⟨f, hf, hsame⟩ := List.mem_map.1 hclaimed
        have hstart := hquiet f hf
        have hwaits : Waits d w tau tick.now (some tick.now) :=
          Or.inr ⟨tick.now, rfl, by omega, by omega⟩
        rw [htick', hanchor', hset dur htrigger]
        exact Or.inr (.passed { tick with due := none } _ hlookup hrest
          (fun _ hnone => (by cases hnone)) hwaits)
  | claimsOther other hsome hne _ _ _ =>
      cases hdue.symm.trans hsome
      exact absurd hkey hne
  | resolves _ _ hnone _ _ _ _ => cases hdue.symm.trans hnone
  | resolvesOther _ _ _ hnone _ _ _ _ _ _ => cases hdue.symm.trans hnone
  | finishes hnone _ _ _ _ => cases hdue.symm.trans hnone

theorem phase_of_passed (hlookup : (tick.rows.lookup key).isSome = true)
    (hrest : key ∉ tick.rest.keys) (hdue : ∀ due, tick.due = some due → due.workflow ≠ key)
    (hwaits : Waits d w tau tick.now anchor)
    (hadvances : Advances parse key tick anchor fires tick' anchor' fires') :
    Phase key dur d w tau tick.now tick' anchor' := by
  cases hadvances with
  | claims due hsome hkey _ _ _ => exact absurd hkey (hdue due hsome)
  | claimsOther due _ _ htick' hanchor' _ =>
      rw [htick', hanchor']
      exact .passed { tick with due := none } anchor hlookup hrest
        (fun _ hnone => (by cases hnone)) hwaits
  | resolves row rest _ hcons _ _ _ =>
      rw [hcons] at hrest
      exact absurd List.mem_cons_self hrest
  | resolvesOther entry rest due' _ hcons hkey hother htick' hanchor' _ =>
      rw [hcons] at hrest
      rw [htick', hanchor']
      exact .passed { tick with rest := rest, due := due' } anchor hlookup
        (fun hmem => hrest (List.mem_cons_of_mem _ hmem)) hother hwaits
  | finishes _ _ htick' hanchor' _ =>
      rw [hlookup, if_pos rfl] at hanchor'
      rw [htick', hanchor']
      exact .asleep _ anchor hwaits

/-- A step of the pod's tick fires in the window, or the pod is still on its way. -/
theorem Phase.advances {t clock : Int} (h : Phase key dur d w tau t (some tick) anchor)
    (hpast : Past key dur d clock (some tick) anchor fires)
    (hmax : timestamp clock ≤ Db.maxTimestamp) (hparse : parseDurationSecs dur = some d)
    (hd : 0 < d) (htau : 0 ≤ tau) (hquiet : ∀ f ∈ fires, f.scheduledFor ≤ w)
    (hadvances : Advances parse key tick anchor fires tick' anchor' fires') :
    (w ≤ tick.now ∧ fires' ≠ fires) ∨ Phase key dur d w tau t tick' anchor' := by
  have hpos : 0 < seconds d := by
    unfold seconds
    omega
  cases h with
  | early _ _ hbefore hanchor => exact Or.inr (phase_of_early hbefore hanchor hpos hadvances)
  | ahead _ _ row since hwindow hlookup hrow hnodup hable hdue hsoon hwaits =>
      exact Or.inr (phase_of_ahead hwindow hlookup hrow hnodup hable hdue hsoon hwaits hpast hmax
        hparse hd hquiet hadvances)
  | due _ _ due hwindow hlookup hdue hkey hable hrest hbucket =>
      rcases phase_of_due hlookup hdue hkey hable hrest hbucket hpos htau hquiet
        hadvances with hfired | hphase
      · exact Or.inl ⟨hwindow, hfired⟩
      · exact Or.inr hphase
  | passed _ _ hlookup hrest hdue hwaits =>
      exact Or.inr (phase_of_passed hlookup hrest hdue hwaits hadvances)

end Advance

/-- The inputs of a window in which the pod runs with the workflow enabled. -/
structure Window (pod : PodId) (key : WorkflowKey) (dur : Text) (w end_ : Int)
    (inputs : List Input) : Prop where
  interval : ∀ input ∈ inputs, HasInterval key dur input
  enabled : ∀ input ∈ inputs, Enabled pod key (.interval dur) input
  running : ∀ input ∈ inputs, input ≠ .restart pod
  within : ∀ p now rows, .wake p now rows ∈ inputs → w ≤ now ∧ now ≤ end_

theorem Window.tail {pod : PodId} {end_ : Int} {input : Input} {inputs : List Input}
    (h : Window pod key dur w end_ (input :: inputs)) : Window pod key dur w end_ inputs where
  interval i hi := h.interval i (List.mem_cons_of_mem _ hi)
  enabled i hi := h.enabled i (List.mem_cons_of_mem _ hi)
  running i hi := h.running i (List.mem_cons_of_mem _ hi)
  within p now rows hmem := h.within p now rows (List.mem_cons_of_mem _ hmem)

variable {e : Engine} {pod : PodId}

/-- A wake, a restart and the steps of other pods leave the pod in a phase, and so does its own next
step unless it fires; `t` becomes the time of a wake. -/
theorem Phase.step {t end_ : Int} {input : Input} {inputs : List Input}
    (h : Phase key dur d w tau t (e.pods pod).tick (e.anchor pod key))
    (he : Recorded key dur d e) (htimely : Timely e input)
    (hwindow : Window pod key dur w end_ (input :: inputs))
    (hparse : parseDurationSecs dur = some d) (hd : 0 < d) (htau : 0 ≤ tau)
    (hquiet : ∀ f ∈ firesOf key e.fires, f.scheduledFor ≤ w)
    (hticks : List.IsChain (fun a b => b ≤ a + tau)
      (t :: (ticksOf pod (input :: inputs) ++ [end_]))) :
    (∃ tick, input = .next pod ∧ (e.pods pod).tick = some tick ∧ w ≤ tick.now ∧
      firesOf key (e.step parse input).fires ≠ firesOf key e.fires) ∨
    ∃ t', Phase key dur d w tau t' ((e.step parse input).pods pod).tick
        ((e.step parse input).anchor pod key) ∧
      List.IsChain (fun a b => b ≤ a + tau) (t' :: (ticksOf pod inputs ++ [end_])) := by
  by_cases hpod : pod = input.pod
  · subst hpod
    cases input with
    | restart p => exact absurd rfl (hwindow.running _ List.mem_cons_self)
    | wake p now rows =>
        obtain ⟨row, hrow, htrigger, hauthorized, hclaimable⟩ :=
          hwindow.enabled _ List.mem_cons_self now rows rfl
        change List.IsChain _ (t :: (ticksOf p (.wake p now rows :: inputs) ++ [end_])) at hticks
        rw [ticksOf_wake, List.cons_append, List.isChain_cons_cons] at hticks
        obtain ⟨hsoon, hlater⟩ := hticks
        refine Or.inr ⟨now, ?_, hlater⟩
        change Phase key dur d w tau now ((e.setPod p _).pods p).tick
          (((e.setPod p _).pods p).lastFired.lookup key)
        rw [e.setPod_self]
        -- the tick before has ended
        have hidle : (e.pods p).tick = none := Option.isNone_iff_eq_none.1 htimely.1
        change Phase key dur d w tau t (e.pods p).tick (e.anchor p key) at h
        rw [hidle] at h
        cases h with
        | asleep _ _ hwaits =>
            exact .ahead ⟨now, rows, rows.entries, none⟩ _ row t
              (hwindow.within p now rows List.mem_cons_self).1 (by rw [hrow]; rfl)
              (HashMap.mem_entries_iff.2 hrow) rows.nodupKeys ⟨htrigger, hauthorized, hclaimable⟩
              (fun _ hnone => (by cases hnone)) hsoon hwaits
    | next p =>
        change Phase key dur d w tau t (e.pods p).tick (e.anchor p key) at h
        change List.IsChain _ (t :: (ticksOf p inputs ++ [end_])) at hticks
        change (∃ tick, _ ∧ (e.pods p).tick = some tick ∧ _ ∧
          firesOf key (e.next parse p).fires ≠ _) ∨ ∃ t', Phase key dur d w tau t'
            ((e.next parse p).pods p).tick ((e.next parse p).anchor p key) ∧ _
        cases htick : (e.pods p).tick with
        | none =>
            rw [e.next_idle parse htick]
            exact Or.inr ⟨t, h, hticks⟩
        | some tick =>
            have hpast := he.past p
            rw [htick] at h hpast
            rcases h.advances hpast he.max hparse hd htau hquiet
              (e.next_advances parse p key htick) with ⟨hw, hfires⟩ | hphase
            · exact Or.inl ⟨tick, rfl, rfl, hw, hfires⟩
            · exact Or.inr ⟨t, hphase, hticks⟩
  · rw [ticksOf_other hpod] at hticks
    refine Or.inr ⟨t, ?_, hticks⟩
    unfold Engine.anchor at h ⊢
    rw [e.step_other parse hpod]
    exact h

/-- What fired since the window began at `w` was claimed by ticks from before it. -/
def Quiet (key : WorkflowKey) (w : Int) (fires : List Fire) (e : Engine) : Prop :=
  ∃ added, firesOf key e.fires = fires ++ added ∧ ∀ f ∈ added, f.tick < w

theorem Quiet.step (parse : CronParser) {fires : List Fire} (h : Quiet key w fires e)
    (input : Input) :
    (∃ p tick due, input = .next p ∧ (e.pods p).tick = some tick ∧ w ≤ tick.now ∧
      firesOf key (e.step parse input).fires =
        firesOf key e.fires ++ [⟨key, due, tick.now⟩]) ∨
    (Quiet key w fires (e.step parse input) ∧ ∀ p tick, input = .next p →
      (e.pods p).tick = some tick → w ≤ tick.now →
      firesOf key (e.step parse input).fires = firesOf key e.fires) := by
  obtain ⟨added, hadded, hbefore⟩ := h
  rcases fires_step parse e key input with hsame | ⟨p, tick, due, rfl, htick, _, _, _, _, _, hadd⟩
  · exact Or.inr ⟨⟨added, hsame.trans hadded, hbefore⟩, fun _ _ _ _ _ => hsame⟩
  · rcases Int.lt_or_le tick.now w with hlt | hle
    · refine Or.inr ⟨⟨added ++ [⟨key, due.scheduledFor, tick.now⟩], ?_, ?_⟩, ?_⟩
      · rw [hadd, hadded, List.append_assoc]
      · intro f hf
        rcases List.mem_append.1 hf with hf | hf
        · exact hbefore f hf
        · cases List.mem_singleton.1 hf
          exact hlt
      · rintro _ tick' ⟨⟩ htick' hle
        cases htick.symm.trans htick'
        omega
    · exact Or.inl ⟨p, tick, due.scheduledFor, rfl, htick, hle, hadd⟩

theorem fires_within {fires : List Fire} (htau : 0 ≤ tau)
    (hparse : parseDurationSecs dur = some d) (hd : 0 < d) {t : Int} {inputs : List Input}
    (he : Recorded key dur d e) (hclock : e.clock ≤ w + 2 * seconds d + 2 * tau)
    (hold : ∀ f ∈ fires, f.scheduledFor ≤ w) (hquiet : Quiet key w fires e)
    (hphase : Phase key dur d w tau t (e.pods pod).tick (e.anchor pod key))
    (htimely : Run.Along Timely (Engine.step parse) e inputs)
    (hwindow : Window pod key dur w (w + 2 * seconds d + 2 * tau) inputs)
    (hticks : List.IsChain (fun a b => b ≤ a + tau)
      (t :: (ticksOf pod inputs ++ [w + 2 * seconds d + 2 * tau])))
    (hdone : ((Run.run (Engine.step parse) e inputs).pods pod).tick = none) :
    ∃ added, firesOf key (Run.run (Engine.step parse) e inputs).fires = fires ++ added ∧
      ∃ f ∈ added, w ≤ f.tick ∧ f.tick ≤ w + 2 * seconds d + 2 * tau := by
  induction inputs generalizing e t with
  | nil =>
      -- the last tick was too late for the pod to wait until the end
      exfalso
      have hpos : 0 < seconds d := by
        unfold seconds
        omega
      have hend : w + 2 * seconds d + 2 * tau ≤ t + tau := (List.isChain_cons_cons.1 hticks).1
      change (e.pods pod).tick = none at hdone
      rw [hdone] at hphase
      cases hphase with
      | asleep _ _ hwaits =>
          rcases hwaits with ⟨hlt, _⟩ | ⟨a, _, hlt, hle⟩
          · omega
          · omega
  | cons input inputs ih =>
      obtain ⟨htime, hrest⟩ := htimely
      have hpast : ∀ f ∈ firesOf key e.fires, f.scheduledFor ≤ w := by
        obtain ⟨added, hadded, hbefore⟩ := hquiet
        intro f hf
        have hstarted := ((he.past pod).fires f hf).2.1
        rw [hadded] at hf
        rcases List.mem_append.1 hf with hf | hf
        · exact hold f hf
        · have := hbefore f hf
          omega
      have he' : Recorded key dur d (e.step parse input) :=
        he.step hparse hd htime (hwindow.interval input List.mem_cons_self)
      rcases hquiet.step parse input with
        ⟨p, tick, instant, _, htick, hle, hadd⟩ | ⟨hquiet', hsame⟩
      · -- a fire of the window is kept by the steps that follow
        obtain ⟨before, hbefore, _⟩ := hquiet
        obtain ⟨later, hlater⟩ := fires_mono parse key (e.step parse input) inputs
        refine ⟨before ++ ⟨key, instant, tick.now⟩ :: later, ?_, _,
          List.mem_append_right _ List.mem_cons_self, hle, ?_⟩
        · change firesOf key (Run.run (Engine.step parse) (e.step parse input) inputs).fires = _
          rw [hlater, hadd, hbefore]
          simp
        · exact Int.le_trans ((he.past p).tick tick htick).1 hclock
      · have hclock' : (e.step parse input).clock ≤ w + 2 * seconds d + 2 * tau := by
          cases input with
          | wake p now rows => exact (hwindow.within p now rows List.mem_cons_self).2
          | restart p => exact hclock
          | next p => exact Int.le_trans (Int.le_of_eq (e.next_clock parse p)) hclock
        rcases hphase.step he htime hwindow hparse hd htau hpast hticks with
          ⟨tick, hnext, htick, hle, hne⟩ | ⟨t', hphase', hticks'⟩
        · exact absurd (hsame pod tick hnext htick hle) hne
        · exact ih he' hclock' hquiet' hphase' hrest hwindow.tail hticks' hdone

end Liveness

theorem recorded_reached {parse : CronParser} {key : WorkflowKey} {dur : Text} {d : Nat}
    (hparse : parseDurationSecs dur = some d) (hd : 0 < d) {inputs : List Input}
    (htimely : Run.Along Timely (Engine.step parse) Engine.start inputs)
    (hinterval : ∀ input ∈ inputs, HasInterval key dur input) :
    Recorded key dur d (Engine.reached parse inputs) := by
  have hboth := htimely.and
    (Run.along_of_forall_mem (P := fun _ input => HasInterval key dur input)
      fun input hmem _ => hinterval input hmem)
  refine Run.invariant (Recorded key dur d) ?_ (recorded_start key dur d) hboth
  intro e input he hstep
  exact he.step hparse hd hstep.1 hstep.2

theorem interval_schedule (parse : CronParser) (key : WorkflowKey) (dur : Text) (d : Nat)
    (hparse : parseDurationSecs dur = some d) (hd : 60 ≤ d) (inputs : List Input)
    (htimely : Run.Along Timely (Engine.step parse) Engine.start inputs)
    (hinterval : ∀ input ∈ inputs, HasInterval key dur input) :
    (Run.Along (Anchored key d) (Engine.step parse) Engine.start inputs →
      Apart key d (Engine.reached parse inputs)) ∧
    ∀ before window after, inputs = before ++ window ++ after →
    ∀ (pod : PodId) (w tau : Int), 0 ≤ tau → (Engine.reached parse before).clock ≤ w →
      Window pod key dur w (w + 2 * seconds d + 2 * tau) window →
      List.IsChain (fun a b => b ≤ a + tau)
        (w :: (ticksOf pod window ++ [w + 2 * seconds d + 2 * tau])) →
      ((Engine.reached parse (before ++ window)).pods pod).tick = none →
      ∃ added, firesOf key (Engine.reached parse (before ++ window)).fires =
          firesOf key (Engine.reached parse before).fires ++ added ∧
        ∃ f ∈ added, w ≤ f.tick ∧ f.tick ≤ w + 2 * seconds d + 2 * tau := by
  have hpos : 0 < d := by omega
  constructor
  · intro hanchored
    have hall := (htimely.and (Run.along_of_forall_mem
      (P := fun _ input => HasInterval key dur input)
      fun input hmem _ => hinterval input hmem)).and hanchored
    have hinv : ∀ e input, (Recorded key dur d e ∧ Apart key d e) →
        ((Timely e input ∧ HasInterval key dur input) ∧ Anchored key d e input) →
        Recorded key dur d (e.step parse input) ∧ Apart key d (e.step parse input) := by
      rintro e input ⟨he, hapart⟩ ⟨⟨htime, hint⟩, hanchor⟩
      exact ⟨he.step hparse hpos htime hint, hapart.step he hanchor⟩
    exact (Run.invariant _ hinv ⟨recorded_start key dur d, List.Pairwise.nil⟩ hall).2
  · rintro before window after rfl pod w tau htau hclock hwindow hticks hdone
    have hsplit := htimely.of_append
    have he : Recorded key dur d (Engine.reached parse before) := by
      refine recorded_reached hparse hpos hsplit.1.of_append.1 ?_
      intro input hmem
      exact hinterval input (by simp [hmem])
    have hseconds : 0 < seconds d := by
      unfold seconds
      omega
    have hpast := he.past pod
    have hold : ∀ f ∈ firesOf key (Engine.reached parse before).fires, f.scheduledFor ≤ w := by
      intro f hf
      obtain ⟨_, hle, htick⟩ := hpast.fires f hf
      omega
    have hanchor : ∀ a, (Engine.reached parse before).anchor pod key = some a → a ≤ w := by
      intro a ha
      exact Int.le_trans (hpast.anchor a ha).2 hclock
    have hphase : Phase key dur d w tau w ((Engine.reached parse before).pods pod).tick
        ((Engine.reached parse before).anchor pod key) := by
      cases htick : ((Engine.reached parse before).pods pod).tick with
      | none => exact .asleep w _ (Or.inl ⟨by omega, hanchor⟩)
      | some tick => exact .early tick _ (Int.le_trans (hpast.tick tick htick).1 hclock) hanchor
    have hrun : Engine.reached parse (before ++ window) =
        Run.run (Engine.step parse) (Engine.reached parse before) window :=
      Run.run_append _ _ _
    rw [hrun] at hdone ⊢
    exact fires_within htau hparse hpos he (by omega) hold
      ⟨[], (List.append_nil _).symm, fun _ hf => (by cases hf)⟩ hphase hsplit.1.of_append.2 hwindow
      hticks hdone

namespace Sample

def workflow : WorkflowKey := (⟨1⟩, 2)

/-- The rows of a tick on which the workflow is enabled and nothing fails. -/
def rows (dur : String) : HashMap WorkflowKey Row :=
  (∅ : HashMap WorkflowKey Row).insert workflow ⟨.interval dur.toList, true, true, true, true⟩

/-- A tick that no other pod comes between. -/
def tick (pod : PodId) (now : Int) (dur : String) : List Input :=
  [.wake pod (seconds now) (rows dur), .next pod, .next pod, .next pod]

/-- Two pods that resolve one bucket before either claims it; the first makes the claim. -/
def race (first second : PodId) (now : Int) (dur : String) : List Input :=
  [.wake first (seconds now) (rows dur), .wake second (seconds (now + 1)) (rows dur), .next second,
    .next first, .next first, .next second, .next first, .next second]

/-- Two pods side by side, each of which loses a claim. -/
def sideBySide : List Input :=
  tick 0 50 "60s" ++ tick 1 51 "60s" ++ race 0 1 110 "60s" ++ race 1 0 171 "60s"

/-- Two pods that start in different buckets. -/
def together : List Input :=
  tick 0 50 "60s" ++ tick 1 65 "60s" ++ tick 0 110 "60s" ++ tick 1 125 "60s"

/-- A pod that restarts after it fired. -/
def bounced : List Input :=
  tick 0 110 "2m" ++ tick 0 170 "2m" ++ tick 0 230 "2m" ++ [.restart 0] ++ tick 0 291 "2m"

def noCron : CronParser := fun _ => none

end Sample

theorem interval_schedule_sideBySide :
    parseDurationSecs "60s".toList = some 60 ∧
      Run.Along Timely (Engine.step Sample.noCron) Engine.start Sample.sideBySide ∧
      (firesOf Sample.workflow (Engine.reached Sample.noCron Sample.sideBySide).fires).length = 2 ∧
      Apart Sample.workflow 60 (Engine.reached Sample.noCron Sample.sideBySide) := by
  have hparse : parseDurationSecs "60s".toList = some 60 := by decide
  have htimely : Run.Along Timely (Engine.step Sample.noCron) Engine.start Sample.sideBySide := by
    decide
  have hinterval : ∀ input ∈ Sample.sideBySide,
      HasInterval Sample.workflow "60s".toList input := by
    decide
  have hanchored : Run.Along (Anchored Sample.workflow 60) (Engine.step Sample.noCron)
      Engine.start Sample.sideBySide := by
    decide
  exact ⟨hparse, htimely, by decide,
    (interval_schedule Sample.noCron Sample.workflow "60s".toList 60 hparse (by decide)
      Sample.sideBySide htimely hinterval).1 hanchored⟩

/-- Two pods fire 15 s apart at an interval of 60 s, and a pod that restarts fires 61 s apart at an
interval of 120 s. -/
theorem interval_schedule_fails :
    (¬ ∀ inputs, Run.Along Timely (Engine.step Sample.noCron) Engine.start inputs →
      (∀ input ∈ inputs, HasInterval Sample.workflow "60s".toList input) →
      Apart Sample.workflow 60 (Engine.reached Sample.noCron inputs)) ∧
    ¬ ∀ inputs, Run.Along Timely (Engine.step Sample.noCron) Engine.start inputs →
      (∀ input ∈ inputs, HasInterval Sample.workflow "2m".toList input) →
      Apart Sample.workflow 120 (Engine.reached Sample.noCron inputs) := by
  constructor
  · intro hall
    have hapart := hall Sample.together (by decide) (by decide)
    unfold Apart at hapart
    exact absurd hapart (by decide)
  · intro hall
    have hapart := hall Sample.bounced (by decide) (by decide)
    unfold Apart at hapart
    exact absurd hapart (by decide)

end Workflow
end Maju
