import Mathlib.Data.List.Chain
import Maju.Workflow.Engine

/-!
# Cron — which instants of a cron schedule the ticks of a pod reach

A tick looks back 60 s, and the next tick comes after the sleep of 60 s and the work of the loop.
What lies between a tick and the window of the next one is looked at by neither.

* `cronFireInstant_of_window` — the instant of a minute in the window of a tick is returned;
* `Covered` — no whole minute, or no instant of a schedule, lies between a tick and the window of
  the next;
* `Comes` — a tick under way will claim an instant, or it is claimed;
* `cron_coverage` — every instant between the first and the last tick fires, and fires once, exactly
  if the ticks are `Covered`: of one schedule, and of all.
-/

namespace Maju
namespace Workflow

open Lib Core

/-! ## One window -/

/-- The only whole minute of a window of 60 s is the one that is returned. -/
theorem cronFireInstant_of_window {parse : CronParser} {expr : Text} {schedule : Schedule}
    (hparse : parse (normalizeCron expr) = some schedule) (hminutes : schedule.OfMinutes)
    {now i : Int} (hi : schedule.Instant i) (hstart : now - seconds 60 < i) (hend : i ≤ now) :
    cronFireInstant parse expr now 60 = some i := by
  rw [cronFireInstant_eq_some hparse]
  refine ⟨?_, hend⟩
  cases hafter : schedule.after (now - seconds 60) with
  | none =>
      have := schedule.after_none _ hafter i hi
      omega
  | some j =>
      obtain ⟨hlt, hj, hfirst⟩ := schedule.after_some _ j hafter
      have hle := hfirst i hi hstart
      -- two whole minutes less than a minute apart
      obtain ⟨a, rfl⟩ := hminutes i hi
      obtain ⟨b, rfl⟩ := hminutes j hj
      unfold seconds at *
      have hab : a = b := by omega
      rw [hab]

/-! ## Ticks -/

/-- The loop sleeps 60 s and then works for up to 1 s. -/
def Spaced (a b : Int) : Prop := a + seconds 60 ≤ b ∧ b ≤ a + seconds 61

/-- No whole minute lies between a tick and the window of the next. -/
def Covered (a b : Int) : Prop :=
  ∀ k : Int, ¬ (a < seconds (60 * k) ∧ seconds (60 * k) ≤ b - seconds 60)

/-- No instant of the schedule lies there. -/
def Schedule.Covered (schedule : Schedule) (a b : Int) : Prop :=
  ∀ i, schedule.Instant i → ¬ (a < i ∧ i ≤ b - seconds 60)

theorem exists_gap {ticks : List Int} {first i : Int} (hfirst : first ≤ i)
    (hlast : ∃ last ∈ (first :: ticks).getLast?, i ≤ last) :
    i = first ∨ ∃ before a b after, first :: ticks = before ++ a :: b :: after ∧ a < i ∧ i ≤ b := by
  induction ticks generalizing first with
  | nil =>
      obtain ⟨last, hmem, hle⟩ := hlast
      cases hmem
      exact Or.inl (Int.le_antisymm hle hfirst)
  | cons t ticks ih =>
      rcases Int.lt_or_le t i with hlt | hle
      · have hlast' : ∃ last ∈ (t :: ticks).getLast?, i ≤ last := by
          rw [List.getLast?_cons_cons] at hlast
          exact hlast
        rcases ih (Int.le_of_lt hlt) hlast' with rfl | ⟨before, a, b, after, hsplit, ha, hb⟩
        · exact absurd hlt (Int.lt_irrefl _)
        · exact Or.inr ⟨first :: before, a, b, after, by rw [hsplit, List.cons_append], ha, hb⟩
      · rcases Int.lt_or_eq_of_le hfirst with hlt | heq
        · exact Or.inr ⟨[], first, t, ticks, rfl, hlt, hle⟩
        · exact Or.inl heq.symm

/-! ## Fires -/

/-- A pod is not in a tick when it wakes or is restarted. -/
def Whole (pod : PodId) (e : Engine) : Input → Prop
  | .wake p _ _ => p = pod → (e.pods pod).tick = none
  | .next _ => True
  | .restart p => p = pod → (e.pods pod).tick = none

/-- The instant is claimed, or the tick under way comes to it. -/
def Comes (parse : CronParser) (expr : Text) (key : WorkflowKey) (pod : PodId) (i : Int)
    (e : Engine) : Prop :=
  i ∈ (firesOf key e.fires).map Fire.scheduledFor ∨
    ∃ tick row, (e.pods pod).tick = some tick ∧ row.trigger = .cron expr ∧
      row.authorized = true ∧ row.claimable = true ∧
      ((⟨key, row⟩ ∈ tick.rest ∧ cronFireInstant parse expr tick.now 60 = some i) ∨
        tick.due = some ⟨key, row, i, none⟩)

section Comes

variable {parse : CronParser} {expr : Text} {key : WorkflowKey} {pod : PodId} {i : Int} {e : Engine}

theorem claimed_mono (parse : CronParser) (e : Engine) (input : Input)
    (h : i ∈ (firesOf key e.fires).map Fire.scheduledFor) :
    i ∈ (firesOf key (e.step parse input).fires).map Fire.scheduledFor := by
  obtain ⟨added, hadded⟩ := fires_mono parse key e [input]
  change firesOf key (e.step parse input).fires = _ at hadded
  rw [hadded, List.map_append]
  exact List.mem_append_left _ h

theorem Comes.step (h : Comes parse expr key pod i e) {input : Input} (hwhole : Whole pod e input) :
    Comes parse expr key pod i (e.step parse input) := by
  rcases h with hclaimed | ⟨tick, row, htick, htrigger, hauthorized, hclaimable, hcomes⟩
  · exact Or.inl (claimed_mono parse e input hclaimed)
  by_cases hpod : pod = input.pod
  · subst hpod
    cases input with
    | wake p now rows => cases (hwhole rfl).symm.trans htick
    | restart p => cases (hwhole rfl).symm.trans htick
    | next p =>
        change Comes parse expr key p i (e.next parse p)
        unfold Comes
        cases e.next_advances parse p key htick with
        | claims due hdue hkey htick' _ hfires =>
            rcases hcomes with ⟨hrest, hreturned⟩ | hsome
            · exact Or.inr ⟨_, row, htick', htrigger, hauthorized, hclaimable,
                Or.inl ⟨hrest, hreturned⟩⟩
            · -- the claim is made, or another one has been
              cases hdue.symm.trans hsome
              refine Or.inl ?_
              rw [hfires, List.map_append, List.mem_append]
              rcases claimed_of_claim tick.now hauthorized hclaimable i (e.anchor p key)
                (firesOf key e.fires) with hfired | ⟨hclaimed, _⟩
              · rw [hfired]
                exact Or.inr List.mem_cons_self
              · exact Or.inl hclaimed
        | claimsOther due hdue hkey htick' _ _ =>
            rcases hcomes with ⟨hrest, hreturned⟩ | hsome
            · exact Or.inr ⟨_, row, htick', htrigger, hauthorized, hclaimable,
                Or.inl ⟨hrest, hreturned⟩⟩
            · cases hdue.symm.trans hsome
              exact absurd rfl hkey
        | resolves other rest hnone hrest htick' _ _ =>
            rcases hcomes with ⟨hmem, hreturned⟩ | hsome
            · rw [hrest] at hmem
              rcases List.mem_cons.1 hmem with heq | hmem
              · cases heq
                refine Or.inr ⟨_, row, htick', htrigger, hauthorized, hclaimable, Or.inr ?_⟩
                unfold resolve
                rw [htrigger]
                dsimp only
                rw [hreturned]
                rfl
              · exact Or.inr ⟨_, row, htick', htrigger, hauthorized, hclaimable,
                  Or.inl ⟨hmem, hreturned⟩⟩
            · cases hnone.symm.trans hsome
        | resolvesOther entry rest due' hnone hrest hkey _ htick' _ _ =>
            rcases hcomes with ⟨hmem, hreturned⟩ | hsome
            · rw [hrest] at hmem
              rcases List.mem_cons.1 hmem with rfl | hmem
              · exact absurd rfl hkey
              · exact Or.inr ⟨_, row, htick', htrigger, hauthorized, hclaimable,
                  Or.inl ⟨hmem, hreturned⟩⟩
            · cases hnone.symm.trans hsome
        | finishes hnone hrest _ _ _ =>
            rcases hcomes with ⟨hmem, _⟩ | hsome
            · rw [hrest] at hmem
              cases hmem
            · cases hnone.symm.trans hsome
  · refine Or.inr ⟨tick, row, ?_, htrigger, hauthorized, hclaimable, hcomes⟩
    rw [e.step_other parse hpod]
    exact htick

theorem claimed_of_returned {inputs : List Input}
    (henabled : ∀ input ∈ inputs, Enabled pod key (.cron expr) input)
    (hwhole : Run.Along (Whole pod) (Engine.step parse) e inputs)
    (hdone : ((Run.run (Engine.step parse) e inputs).pods pod).tick = none) {now : Int}
    (hnow : now ∈ ticksOf pod inputs) (hreturned : cronFireInstant parse expr now 60 = some i) :
    i ∈ (firesOf key (Run.run (Engine.step parse) e inputs).fires).map Fire.scheduledFor := by
  obtain ⟨rows, hmem⟩ := mem_ticksOf.1 hnow
  obtain ⟨before, after, rfl⟩ := List.append_of_mem hmem
  obtain ⟨row, hrow, htrigger, hauthorized, hclaimable⟩ := henabled _ hmem now rows rfl
  rw [Run.run_append] at hdone ⊢
  have hcomes : Comes parse expr key pod i
      ((Run.run (Engine.step parse) e before).step parse (.wake pod now rows)) := by
    refine Or.inr ⟨⟨now, rows, rows.entries, none⟩, row, ?_, htrigger, hauthorized, hclaimable,
      Or.inl ⟨HashMap.mem_entries_iff.2 hrow, hreturned⟩⟩
    change (((Run.run (Engine.step parse) e before).setPod pod _).pods pod).tick = _
    rw [Engine.setPod_self]
  have hend : Comes parse expr key pod i (Run.run (Engine.step parse)
      ((Run.run (Engine.step parse) e before).step parse (.wake pod now rows)) after) :=
    Run.invariant _ (fun _ _ h hstep => h.step hstep) hcomes hwhole.of_append.2.2
  rcases hend with hclaimed | ⟨tick, _, htick, _⟩
  · exact hclaimed
  · cases hdone.symm.trans htick

end Comes

/-! ## Coverage -/

def everyMinute : Schedule where
  Instant i := ∃ k : Int, i = seconds (60 * k)
  after t := some (seconds (60 * (t / seconds 60 + 1)))
  after_some := by
    rintro t i h
    cases h
    refine ⟨?_, ⟨_, rfl⟩, ?_⟩
    · unfold seconds
      omega
    · rintro j ⟨k, rfl⟩ hlt
      unfold seconds at *
      omega
  after_none := fun _ h => (nomatch h)

/-- Every instant of the schedule between the first and the last tick is returned by a tick, and in
every run in which these are the ticks of a pod, each of which ends, it fires once, whatever the
other pods do. -/
def Schedule.LosesNone (schedule : Schedule) (parse : CronParser) (expr : Text) (first : Int)
    (ticks : List Int) : Prop :=
  ∀ i, schedule.Instant i → first ≤ i → (∃ last ∈ (first :: ticks).getLast?, i ≤ last) →
    (∃ now ∈ first :: ticks, cronFireInstant parse expr now 60 = some i) ∧
    ∀ (pod : PodId) (key : WorkflowKey) (inputs : List Input),
      ticksOf pod inputs = first :: ticks →
      (∀ input ∈ inputs, Enabled pod key (.cron expr) input) →
      Run.Along (Whole pod) (Engine.step parse) Engine.start inputs →
      ((Engine.reached parse inputs).pods pod).tick = none →
      ((firesOf key (Engine.reached parse inputs).fires).map Fire.scheduledFor).count i = 1

/-- No schedule of minutes loses an instant. -/
def LosesNone (first : Int) (ticks : List Int) : Prop :=
  ∀ (parse : CronParser) (expr : Text) (schedule : Schedule),
    parse (normalizeCron expr) = some schedule → schedule.OfMinutes →
    schedule.LosesNone parse expr first ticks

theorem spaced_le {first : Int} {ticks : List Int} (h : List.IsChain Spaced (first :: ticks)) :
    (first :: ticks).Pairwise fun a b => a ≤ b := by
  have hle : List.IsChain (fun a b : Int => a ≤ b) (first :: ticks) := by
    refine h.imp fun a b hab => ?_
    obtain ⟨hlow, _⟩ := hab
    unfold seconds at hlow
    omega
  exact List.isChain_iff_pairwise.1 hle

section Coverage

variable {parse : CronParser} {expr : Text} {schedule : Schedule} {first : Int} {ticks : List Int}

theorem losesNone_of_covered (hparse : parse (normalizeCron expr) = some schedule)
    (hminutes : schedule.OfMinutes) (hcovered : List.IsChain schedule.Covered (first :: ticks)) :
    schedule.LosesNone parse expr first ticks := by
  intro i hi hfirst hlast
  have hreturned : ∃ now ∈ first :: ticks, cronFireInstant parse expr now 60 = some i := by
    rcases exists_gap hfirst hlast with rfl | ⟨before, a, b, after, hsplit, ha, hb⟩
    · refine ⟨i, List.mem_cons_self,
        cronFireInstant_of_window hparse hminutes hi ?_ (Int.le_refl i)⟩
      unfold seconds
      omega
    · -- the instant lies in the window of the tick after it
      refine ⟨b, ?_, cronFireInstant_of_window hparse hminutes hi ?_ hb⟩
      · rw [hsplit]
        simp
      · have hgap : schedule.Covered a b :=
          List.isChain_iff_forall_rel_of_append_cons_cons.1 hcovered hsplit
        exact Int.not_le.1 fun hle => hgap i hi ⟨ha, hle⟩
  refine ⟨hreturned, ?_⟩
  intro pod key inputs hticks henabled hwhole hdone
  obtain ⟨now, hnow, hsome⟩ := hreturned
  refine List.count_eq_one_of_mem (claims_nodup parse key inputs List.nodup_nil) ?_
  exact claimed_of_returned henabled hwhole hdone (hticks ▸ hnow) hsome

theorem covered_of_losesNone (hparse : parse (normalizeCron expr) = some schedule)
    (hspaced : List.IsChain Spaced (first :: ticks))
    (h : schedule.LosesNone parse expr first ticks) :
    List.IsChain schedule.Covered (first :: ticks) := by
  rw [List.isChain_iff_forall_rel_of_append_cons_cons]
  rintro a b before after hsplit i hi ⟨hlow, hhigh⟩
  have hsorted := spaced_le hspaced
  rw [hsplit] at hsorted
  obtain ⟨_, hfrom, hacross⟩ := List.pairwise_append.1 hsorted
  -- every tick is up to the one before the gap, or from the one after it on
  have hticks : ∀ t ∈ first :: ticks, t ≤ a ∨ b ≤ t := by
    intro t ht
    rw [hsplit] at ht
    rcases List.mem_append.1 ht with hbefore | hafter
    · exact Or.inl (hacross t hbefore a List.mem_cons_self)
    · rcases List.mem_cons.1 hafter with rfl | hafter
      · exact Or.inl (Int.le_refl _)
      · rcases List.mem_cons.1 hafter with rfl | hafter
        · exact Or.inr (Int.le_refl _)
        · exact Or.inr ((List.pairwise_cons.1 (List.pairwise_cons.1 hfrom).2).1 t hafter)
  have hfirst : first ≤ i := by
    rcases hticks first List.mem_cons_self with hle | hle
    · omega
    · have hfa : first ≤ a := by
        cases before with
        | nil =>
            cases hsplit
            exact Int.le_refl _
        | cons c before =>
            cases hsplit
            exact hacross first List.mem_cons_self a List.mem_cons_self
      omega
  have hlast : ∃ last ∈ (first :: ticks).getLast?, i ≤ last := by
    refine ⟨(b :: after).getLast (List.cons_ne_nil _ _), ?_, ?_⟩
    · rw [hsplit, List.getLast?_append_cons, List.getLast?_cons_cons]
      exact List.getLast?_eq_some_getLast _
    · have hmem := List.getLast_mem (List.cons_ne_nil b after)
      have hbl : b ≤ (b :: after).getLast (List.cons_ne_nil _ _) := by
        rcases List.mem_cons.1 hmem with heq | hmem
        · exact Int.le_of_eq heq.symm
        · exact (List.pairwise_cons.1 (List.pairwise_cons.1 hfrom).2).1 _ hmem
      unfold seconds at *
      omega
  obtain ⟨⟨t, ht, hreturned⟩, _⟩ := h i hi hfirst hlast
  obtain ⟨hafter, hle⟩ := (cronFireInstant_eq_some hparse).1 hreturned
  have hlt := (schedule.after_some _ _ hafter).1
  rcases hticks t ht with hta | hbt
  · omega
  · omega

theorem covered_of_minutes (hminutes : schedule.OfMinutes) {a b : Int} (h : Covered a b) :
    schedule.Covered a b := by
  intro i hi hgap
  obtain ⟨k, rfl⟩ := hminutes i hi
  exact h k hgap

end Coverage

/-- A schedule loses none of its instants exactly if none lies in a gap, and no schedule loses one
exactly if no whole minute does. -/
theorem cron_coverage (first : Int) (ticks : List Int)
    (hspaced : List.IsChain Spaced (first :: ticks)) :
    (∀ (parse : CronParser) (expr : Text) (schedule : Schedule),
      parse (normalizeCron expr) = some schedule → schedule.OfMinutes →
      (schedule.LosesNone parse expr first ticks ↔
        List.IsChain schedule.Covered (first :: ticks))) ∧
    (LosesNone first ticks ↔ List.IsChain Covered (first :: ticks)) := by
  constructor
  · intro parse expr schedule hparse hminutes
    exact ⟨covered_of_losesNone hparse hspaced, losesNone_of_covered hparse hminutes⟩
  · constructor
    · intro h
      have hminute := covered_of_losesNone rfl hspaced
        (h (fun _ => some everyMinute) [] everyMinute rfl fun _ hi => hi)
      exact hminute.imp fun a b hab k hgap => hab _ ⟨k, rfl⟩ hgap
    · intro hcovered parse expr schedule hparse hminutes
      exact losesNone_of_covered hparse hminutes
        (hcovered.imp fun a b hab => covered_of_minutes hminutes hab)

theorem cron_coverage_punctual :
    List.IsChain Spaced [seconds 90, seconds 150, seconds 210] ∧
      LosesNone (seconds 90) [seconds 150, seconds 210] := by
  have hspaced : List.IsChain Spaced [seconds 90, seconds 150, seconds 210] := by
    refine List.isChain_cons_cons.2 ⟨⟨by decide, by decide⟩, List.isChain_cons_cons.2 ⟨⟨by decide,
      by decide⟩, .singleton _⟩⟩
  have hcovered : List.IsChain Covered [seconds 90, seconds 150, seconds 210] := by
    refine List.isChain_cons_cons.2 ⟨?_, List.isChain_cons_cons.2 ⟨?_, .singleton _⟩⟩
    · intro k
      unfold seconds
      omega
    · intro k
      unfold seconds
      omega
  exact ⟨hspaced, (cron_coverage _ _ hspaced).2.2 hcovered⟩

/-- Ticks at 59.9 s and at 120.8 s: the minute at 60 s is in neither window. -/
theorem cron_coverage_fails :
    ¬ ∀ (first : Int) (ticks : List Int), List.IsChain Spaced (first :: ticks) →
      LosesNone first ticks := by
  intro hall
  have hspaced : List.IsChain Spaced [59900000000, 120800000000] :=
    List.isChain_cons_cons.2 ⟨⟨by decide, by decide⟩, .singleton _⟩
  have hminute := covered_of_losesNone rfl hspaced
    (hall _ _ hspaced (fun _ => some everyMinute) [] everyMinute rfl fun _ hi => hi)
  exact (List.isChain_cons_cons.1 hminute).1 (seconds 60) ⟨1, rfl⟩ (by decide)

end Workflow
end Maju
