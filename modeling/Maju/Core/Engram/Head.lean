import Mathlib.Data.List.MinMax
import Mathlib.Data.Prod.Lex
import Mathlib.Data.String.Basic
import Maju.Core.Nostr
import Maju.Lib.Text

/-!
# Head — the last writer wins

The events of one slug are reduced to their head: the greatest `created_at`, and of several with the
same one the lowest id.  A writer stamps a new event behind the head that it knows.

* `precedence` — the order of events, by time and then by id from high to low;
* `selectHead_eq_argmax` — the fold takes the greatest event of this order;
* `last_writer_wins` — the head depends on the set of events only, and a write by the monotonic rule
  becomes the head whatever the clock.
-/

namespace Maju
namespace Core
namespace Engram

open Lib

/-- An event with its content; its signature is read by no function here. -/
structure SignedEvent extends Core.Event where
  content : Text
  deriving DecidableEq, Repr

/-! ## The functions -/

/-- One step of the `reduce` of `select_head`. -/
def newer (a b : SignedEvent) : SignedEvent :=
  if a.createdAt < b.createdAt then b
  else if b.createdAt < a.createdAt then a
  else if toHex b.id < toHex a.id then b
  else a

def selectHead : List SignedEvent → Option SignedEvent
  | [] => none
  | e :: events => some (events.foldl newer e)

/-- `u64::saturating_add(1)`. -/
def saturatingSucc (t : Timestamp) : Timestamp := if t.toNat + 1 < 2 ^ 64 then t + 1 else t

def monotonicCreatedAt (now : Timestamp) (priorHead : Option Timestamp) : Timestamp :=
  match priorHead with
  | some t => max now (saturatingSucc t)
  | none => now

/-! ## The order of events -/

theorem toHex_lt_iff {a b : BitVec 256} : toHex a < toHex b ↔ a < b := by
  have hmono : ∀ x y : BitVec 256, x < y → toHex x < toHex y := by
    intro x y h
    have hy : y.toNat < 16 ^ 64 := lt_of_lt_of_eq y.isLt (by decide)
    rw [String.lt_iff_toList_lt, toHex, toHex, String.toList_ofList, String.toList_ofList]
    exact hexDigits_lt hy (BitVec.lt_def.1 h)
  constructor
  · intro h
    rcases Nat.lt_trichotomy a.toNat b.toNat with hlt | heq | hgt
    · exact BitVec.lt_def.2 hlt
    · rw [BitVec.eq_of_toNat_eq heq] at h
      exact absurd h (String.lt_irrefl _)
    · exact absurd (hmono b a (BitVec.lt_def.2 hgt)) (String.lt_asymm h)
  · exact hmono a b

/-- Time first; of two events with one time the lower id comes later. -/
def precedence (e : SignedEvent) : ℕ ×ₗ ℕᵒᵈ :=
  toLex (e.createdAt.toNat, OrderDual.toDual e.id.toNat)

theorem precedence_lt_iff {a b : SignedEvent} :
    precedence a < precedence b ↔
      a.createdAt < b.createdAt ∨ a.createdAt = b.createdAt ∧ b.id < a.id := by
  rw [precedence, precedence, Prod.Lex.toLex_lt_toLex]
  simp only [OrderDual.toDual_lt_toDual, UInt64.lt_iff_toNat_lt, BitVec.lt_def, UInt64.toNat_inj]

theorem newer_eq (a b : SignedEvent) :
    newer a b = if precedence a < precedence b then b else a := by
  simp only [newer, precedence_lt_iff, toHex_lt_iff]
  split
  · next hlt => simp [hlt]
  · next hnot =>
      split
      · next hgt =>
          have hne : a.createdAt ≠ b.createdAt := fun h => UInt64.lt_irrefl _ (h ▸ hgt)
          simp [hnot, hne]
      · next hnot' =>
          have heq : a.createdAt = b.createdAt :=
            UInt64.le_antisymm (UInt64.not_lt.1 hnot') (UInt64.not_lt.1 hnot)
          simp [heq]

theorem selectHead_concat (events : List SignedEvent) (e : SignedEvent) :
    selectHead (events ++ [e]) =
      match selectHead events with
      | none => some e
      | some head => some (newer head e) := by
  cases events with
  | nil => rfl
  | cons a events => simp [selectHead, List.foldl_append]

/-- The head is the greatest event. -/
theorem selectHead_eq_argmax (events : List SignedEvent) :
    selectHead events = events.argmax precedence := by
  induction events using List.reverseRecOn with
  | nil => rfl
  | append_singleton events e ih =>
      rw [selectHead_concat, List.argmax_concat, ih]
      cases events.argmax precedence with
      | none => rfl
      | some head =>
          simp only [newer_eq]
          split <;> rfl

/-! ## The head of a set of events -/

/-- Every other event is older, or as old with a higher id. -/
def IsHead (events : List SignedEvent) (head : SignedEvent) : Prop :=
  head ∈ events ∧ ∀ e ∈ events, e ≠ head →
    e.createdAt < head.createdAt ∨ e.createdAt = head.createdAt ∧ head.id < e.id

theorem selectHead_of_isHead {events : List SignedEvent} {head : SignedEvent}
    (h : IsHead events head) : selectHead events = some head := by
  rw [selectHead_eq_argmax]
  cases hmax : events.argmax precedence with
  | none =>
      rw [List.argmax_eq_none.1 hmax] at h
      exact absurd h.1 List.not_mem_nil
  | some e =>
      have hle := List.le_of_mem_argmax h.1 hmax
      by_contra hne
      have hother : e ≠ head := fun heq => hne (congrArg some heq)
      exact absurd (precedence_lt_iff.2 (h.2 e (List.argmax_mem hmax) hother)) (not_lt.2 hle)

theorem isHead_of_selectHead {events : List SignedEvent} {head : SignedEvent}
    (hids : (events.map fun e => e.id).Nodup) (h : selectHead events = some head) :
    IsHead events head := by
  rw [selectHead_eq_argmax] at h
  refine ⟨List.argmax_mem h, fun e he hne => ?_⟩
  have hle := List.le_of_mem_argmax he h
  apply precedence_lt_iff.1
  apply lt_of_le_of_ne hle
  intro heq
  have hid : e.id.toNat = head.id.toNat :=
    OrderDual.toDual.injective (Prod.mk.inj (toLex.injective heq)).2
  exact hne (List.inj_on_of_nodup_map hids he (List.argmax_mem h) (BitVec.eq_of_toNat_eq hid))

theorem exists_isHead {events : List SignedEvent} (hne : events ≠ [])
    (hids : (events.map fun e => e.id).Nodup) :
    ∃ head, selectHead events = some head ∧ IsHead events head := by
  cases hhead : selectHead events with
  | none =>
      rw [selectHead_eq_argmax, List.argmax_eq_none] at hhead
      exact absurd hhead hne
  | some head => exact ⟨head, rfl, isHead_of_selectHead hids hhead⟩

theorem le_max_right_timestamp (s t : Timestamp) : t ≤ max s t := by
  change t ≤ if s ≤ t then t else s
  split
  · exact UInt64.le_refl _
  · next h => exact UInt64.le_of_lt (UInt64.not_le.1 h)

theorem lt_monotonicCreatedAt {t : Timestamp} (ht : t.toNat < 2 ^ 64 - 1) (now : Timestamp) :
    t < monotonicCreatedAt now (some t) := by
  have hsucc : t < saturatingSucc t := by
    have hroom : t.toNat + 1 < 2 ^ 64 := by omega
    rw [saturatingSucc, if_pos hroom, UInt64.lt_iff_toNat_lt, UInt64.toNat_add]
    have hone : (1 : UInt64).toNat = 1 := rfl
    rw [hone, Nat.mod_eq_of_lt hroom]
    exact Nat.lt_succ_self _
  exact UInt64.lt_of_lt_of_le hsucc (le_max_right_timestamp now _)

/-- The head of events with distinct ids is the greatest by time with ties broken by the lowest id,
in whatever order they come; and an event that is stamped by the monotonic rule behind a head below
the last instant is the head of the events that it joins, whatever the clock says. -/
theorem last_writer_wins :
    (∀ events : List SignedEvent, events ≠ [] → (events.map fun e => e.id).Nodup →
      ∃ head, IsHead events head ∧ ∀ arranged, arranged.Perm events →
        selectHead arranged = some head) ∧
    (∀ (events : List SignedEvent) (head e : SignedEvent) (now : Timestamp),
      selectHead events = some head → head.createdAt.toNat < 2 ^ 64 - 1 →
      e.createdAt = monotonicCreatedAt now (some head.createdAt) →
      ∀ arranged, arranged.Perm (e :: events) → selectHead arranged = some e) := by
  have hperm : ∀ {events arranged : List SignedEvent} {head : SignedEvent},
      IsHead events head → arranged.Perm events → selectHead arranged = some head := by
    intro events arranged head h harranged
    apply selectHead_of_isHead
    exact ⟨harranged.mem_iff.2 h.1, fun a ha => h.2 a (harranged.mem_iff.1 ha)⟩
  constructor
  · intro events hne hids
    obtain ⟨head, -, hhead⟩ := exists_isHead hne hids
    exact ⟨head, hhead, fun arranged => hperm hhead⟩
  · intro events head e now hhead hbelow hstamp arranged harranged
    rw [selectHead_eq_argmax] at hhead
    have hlater := lt_monotonicCreatedAt hbelow now
    refine hperm ⟨List.mem_cons_self, fun a ha hother => Or.inl ?_⟩ harranged
    have hmem : a ∈ events := (List.mem_cons.1 ha).resolve_left hother
    -- no event of the collection has a later time than its head
    have hle : a.createdAt ≤ head.createdAt := by
      apply UInt64.not_lt.1
      intro hbefore
      exact absurd (precedence_lt_iff.2 (Or.inl hbefore))
        (not_lt.2 (List.le_of_mem_argmax hmem hhead))
    rw [hstamp]
    exact UInt64.lt_of_le_of_lt hle hlater

/-- An engram event by its id and time. -/
def sampleEngram (id : EventId) (createdAt : Timestamp) : SignedEvent where
  id := id
  pubkey := 1
  createdAt := createdAt
  kind := 30174
  tags := []
  content := []

/-- Of two events of one second either order gives the lower id, and a write at a clock that stands
still is the next head. -/
theorem last_writer_wins_tie :
    selectHead [sampleEngram 7 10, sampleEngram 5 10] =
        selectHead [sampleEngram 5 10, sampleEngram 7 10] ∧
      selectHead [sampleEngram 7 10, sampleEngram 9 11, sampleEngram 5 10] =
        some (sampleEngram 9 11) := by
  constructor
  · obtain ⟨head, -, hhead⟩ :=
      last_writer_wins.1 [sampleEngram 7 10, sampleEngram 5 10] (by simp) (by decide)
    rw [hhead _ (List.Perm.refl _), hhead _ (List.Perm.swap _ _ _)]
  · exact last_writer_wins.2 [sampleEngram 7 10, sampleEngram 5 10] (sampleEngram 5 10)
      (sampleEngram 9 11) 0 (by decide) (by decide) (by decide) _ (List.Perm.swap _ _ _)

end Engram
end Core
end Maju
