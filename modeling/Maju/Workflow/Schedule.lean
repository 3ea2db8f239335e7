import Maju.Db.Rows
import Maju.Lib.Decimal
import Maju.Lib.Text

/-!
# Schedule — when a scheduled workflow is due

A schedule trigger is a cron expression or an interval.  This file has the pure part of the
scheduler of the workflow engine: the instant that a tick fires for, and the pre-filter of intervals.

* `cronFireInstant` — the instant of a cron schedule within the window that ends at a tick;
* `intervalFireInstant` — the start of the bucket of an interval that a tick lies in;
* `intervalShouldFire` — whether the interval has elapsed since an anchor.

The `cron` crate is a parameter: a `Schedule` is its set of instants with `after`.
-/

namespace Maju
namespace Workflow

open Lib

/-! ## Times

A `DateTime<Utc>` is its nanoseconds since the epoch. -/

/-- `chrono::Duration::seconds`. -/
def seconds (n : Int) : Int := n * 1000000000

/-- `DateTime::timestamp`: whole seconds, rounded down. -/
def timestamp (t : Int) : Int := t / 1000000000

/-- `Duration::num_seconds`: whole seconds, rounded towards zero. -/
def numSeconds (delta : Int) : Int := delta.tdiv 1000000000

theorem timestamp_bounds (t : Int) :
    seconds (timestamp t) ≤ t ∧ t < seconds (timestamp t + 1) := by
  unfold timestamp seconds
  omega

/-! ## Cron -/

/-- The number of fields of `split_whitespace`, where the text starts inside a field or not. -/
def fieldCount : Bool → Text → Nat
  | _, [] => 0
  | inField, c :: rest =>
      if isWhitespace c then fieldCount false rest
      else (if inField then 0 else 1) + fieldCount true rest

/-- `normalize_cron`: the seven fields of the `cron` crate. -/
def normalizeCron (expr : Text) : Text :=
  match fieldCount false expr with
  | 5 => "0 ".toList ++ expr ++ " *".toList
  | 6 => expr ++ " *".toList
  | _ => expr

/-- `cron::Schedule`: `after` gives the first instant that is strictly later. -/
structure Schedule where
  Instant : Int → Prop
  after : Int → Option Int
  after_some : ∀ t i, after t = some i → t < i ∧ Instant i ∧ ∀ j, Instant j → t < j → i ≤ j
  after_none : ∀ t, after t = none → ∀ j, Instant j → j ≤ t

def Schedule.OfMinutes (s : Schedule) : Prop := ∀ i, s.Instant i → ∃ k : Int, i = seconds (60 * k)

/-- The parser of the `cron` crate. -/
abbrev CronParser := Text → Option Schedule

def cronFireInstant (parse : CronParser) (expr : Text) (now : Int) (windowSecs : Int) :
    Option Int :=
  match parse (normalizeCron expr) with
  | some schedule =>
      let windowStart := now - seconds windowSecs
      (schedule.after windowStart).filter fun t => t ≤ now
  | none => none

theorem cronFireInstant_eq_some {parse : CronParser} {expr : Text} {schedule : Schedule}
    (hparse : parse (normalizeCron expr) = some schedule) {now i : Int} {windowSecs : Int} :
    cronFireInstant parse expr now windowSecs = some i ↔
      schedule.after (now - seconds windowSecs) = some i ∧ i ≤ now := by
  unfold cronFireInstant
  rw [hparse]
  simp [Option.filter_eq_some_iff]

/-! ## Intervals -/

/-- A number of units of some seconds, if it fits. -/
def durationOf (digits : Text) (unit : Nat) : Option Nat :=
  (parseU64 (trim digits)).bind fun n => if n * unit < 2 ^ 64 then some (n * unit) else none

/-- `parse_duration_secs`; `none` where it is an error. -/
def parseDurationSecs (duration : Text) : Option Nat :=
  let duration := trim duration
  if duration.getLast? = some 'h' then durationOf duration.dropLast 3600
  else if duration.getLast? = some 'm' then durationOf duration.dropLast 60
  else if duration.getLast? = some 's' then parseU64 (trim duration.dropLast)
  else parseU64 duration

/-- `x as i64` of a `u64`. -/
def secsAsI64 (n : Nat) : Int := if n < 2 ^ 63 then n else (n : Int) - 2 ^ 64

def intervalFireInstant (dur : Text) (now : Int) : Option Int :=
  match parseDurationSecs dur with
  | some intervalSecs =>
      if 0 < intervalSecs then
        let secs := secsAsI64 intervalSecs
        let bucket := (timestamp now).ediv secs * secs
        (Db.fromTimestamp bucket).map seconds
      else none
  | none => none

def intervalShouldFire (dur : Text) (lastFired : Option Int) (now : Int) : Bool :=
  match parseDurationSecs dur with
  | some intervalSecs =>
      let last := lastFired.getD now
      let elapsed := (numSeconds (now - last)).natAbs
      decide (intervalSecs ≤ elapsed)
  | none => false

section Intervals

variable {dur : Text} {d : Nat} {now last : Int}

theorem intervalShouldFire_some (hparse : parseDurationSecs dur = some d) :
    intervalShouldFire dur (some last) now = true ↔
      last + seconds d ≤ now ∨ now + seconds d ≤ last := by
  unfold intervalShouldFire
  rw [hparse]
  simp only [Option.getD_some, decide_eq_true_iff]
  unfold numSeconds seconds
  rw [Int.natAbs_tdiv]
  change d ≤ (now - last).natAbs / 1000000000 ↔ _
  rw [Nat.le_div_iff_mul_le (by decide)]
  omega

theorem intervalShouldFire_none (hparse : parseDurationSecs dur = some d) (hd : 0 < d) :
    intervalShouldFire dur none now = false := by
  unfold intervalShouldFire
  rw [hparse]
  simp only [Option.getD_none, Int.sub_self, decide_eq_false_iff_not]
  change ¬ d ≤ 0
  omega

theorem intervalFireInstant_some (hparse : parseDurationSecs dur = some d) (hd : 0 < d)
    (hfits : d < 2 ^ 63) (hnow : 0 ≤ now) (hmax : timestamp now ≤ Db.maxTimestamp) :
    ∃ bucket, intervalFireInstant dur now = some bucket ∧ 0 ≤ bucket ∧ bucket ≤ now ∧
      now < bucket + seconds d := by
  have hsecs : secsAsI64 d = d := if_pos hfits
  have hpos : (0 : Int) < d := by exact_mod_cast hd
  have hts : 0 ≤ timestamp now := by
    unfold timestamp
    omega
  have hdiv : (timestamp now).ediv d * d ≤ timestamp now :=
    Int.ediv_mul_le _ (Int.ne_of_gt hpos)
  have hlt : timestamp now < (timestamp now).ediv d * d + d := by
    have := Int.lt_ediv_add_one_mul_self (timestamp now) hpos
    rw [Int.add_mul, Int.one_mul] at this
    exact this
  have hbucket : 0 ≤ (timestamp now).ediv d * d :=
    Int.mul_nonneg (Int.ediv_nonneg hts (Int.le_of_lt hpos)) (Int.le_of_lt hpos)
  have hmin : Db.minTimestamp ≤ (timestamp now).ediv d * d := by
    unfold Db.minTimestamp
    omega
  refine ⟨seconds ((timestamp now).ediv d * d), ?_, ?_, ?_, ?_⟩
  · unfold intervalFireInstant
    rw [hparse]
    simp only [hd, if_true, hsecs, Db.fromTimestamp]
    rw [if_pos ⟨hmin, Int.le_trans hdiv hmax⟩, Option.map_some]
  all_goals
    have hbounds := timestamp_bounds now
    unfold seconds at hbounds ⊢
    omega

end Intervals

end Workflow
end Maju
