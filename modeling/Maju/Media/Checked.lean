import Maju.Lib.Bytes

/-!
# Checked — what reads and sums in the validators can end in

* `Halt` — an error of the crate, a sum that is too large, an index out of range;
* `index`, `slice` — reads that Rust checks by a panic;
* `checkedAdd`, `endAt` — sums that the validators check themselves;
* `Spans` — a part of a file, with its two ends; parts that meet make one part.
-/

namespace Maju
namespace Media

open Lib

abbrev File := { bytes : Bytes // bytes.length ≤ 2 ^ 63 }

inductive MediaError where
  | moovNotAtFront
  | invalidVideo
  | invalidImage
  | metadataForbidden
  deriving DecidableEq, Repr

/-- An error, a sum that does not fit into `u64`, or an index that is out of range. -/
inductive Halt where
  | media (e : MediaError)
  | overflow
  | outOfRange
  deriving DecidableEq, Repr

theorem bind_ok {α β : Type} {x : Except Halt α} {f : α → Except Halt β} {b : β}
    (h : x.bind f = .ok b) : ∃ a, x = .ok a ∧ f a = .ok b := by
  cases x with
  | error e => cases h
  | ok a => exact ⟨a, rfl, h⟩

theorem bind_ne {α β : Type} {x : Except Halt α} {f : α → Except Halt β} {e : Halt}
    (hx : x ≠ .error e) (hf : ∀ a, x = .ok a → f a ≠ .error e) : x.bind f ≠ .error e := by
  cases x with
  | error e' => exact fun h => hx (by cases h; rfl)
  | ok a => exact hf a rfl

def ascii (s : String) : Bytes := s.toList.map fun c => UInt8.ofNat c.toNat

/-! ## Sums -/

/-- A sum of two `u64` that Rust does not check. -/
def addU64 (a b : Nat) : Except Halt Nat := if a + b < 2 ^ 64 then .ok (a + b) else .error .overflow

def checkedAdd (a b : Nat) : Option Nat := if a + b < 2 ^ 64 then some (a + b) else none

/-- `checked_add` followed by a filter on the length. -/
def endAt (bytes : Bytes) (i len : Nat) : Option Nat :=
  (checkedAdd i len).filter fun stop => stop ≤ bytes.length

theorem addU64_ok {a b c : Nat} (h : addU64 a b = .ok c) : c = a + b := by
  unfold addU64 at h
  split_ifs at h
  cases h
  rfl

theorem addU64_of_lt {a b : Nat} (h : a + b < 2 ^ 64) : addU64 a b = .ok (a + b) := if_pos h

theorem checkedAdd_filter_isNone {a b stop : Nat} :
    ((checkedAdd a b).filter (· ≤ stop)).isNone = false ↔ a + b < 2 ^ 64 ∧ a + b ≤ stop := by
  unfold checkedAdd
  split_ifs with hsum
  · rw [Option.filter_some]
    by_cases hle : a + b ≤ stop
    · rw [if_pos (decide_eq_true hle)]
      exact ⟨fun _ => ⟨hsum, hle⟩, fun _ => rfl⟩
    · rw [if_neg (by simpa using hle)]
      exact ⟨nofun, fun h => absurd h.2 hle⟩
  · exact ⟨nofun, fun h => absurd h.1 hsum⟩

theorem checkedAdd_eq {a b v : Nat} (h : checkedAdd a b = some v) : v = a + b := by
  unfold checkedAdd at h
  split_ifs at h
  exact (Option.some.inj h).symm

theorem endAt_some {bytes : Bytes} {i len stop : Nat} (h : endAt bytes i len = some stop) :
    i + len = stop ∧ stop ≤ bytes.length := by
  obtain ⟨hsum, hle⟩ := Option.filter_eq_some_iff.1 h
  exact ⟨(checkedAdd_eq hsum).symm, by simpa using hle⟩

theorem endAt_eq_some_iff {bytes : Bytes} (h : bytes.length ≤ 2 ^ 63) {i len stop : Nat} :
    endAt bytes i len = some stop ↔ i + len = stop ∧ stop ≤ bytes.length := by
  refine ⟨endAt_some, ?_⟩
  rintro ⟨rfl, hle⟩
  apply Option.filter_eq_some_iff.2
  exact ⟨if_pos (by omega), by simpa using hle⟩

/-! ## Reads -/

/-- `bytes[i]`. -/
def index (bytes : Bytes) (i : Nat) : Except Halt UInt8 :=
  match bytes[i]? with
  | some b => .ok b
  | none => .error .outOfRange

/-- `&bytes[start..stop]`. -/
def slice (bytes : Bytes) (start stop : Nat) : Except Halt Bytes :=
  if start ≤ stop ∧ stop ≤ bytes.length then .ok ((bytes.drop start).take (stop - start))
  else .error .outOfRange

theorem index_ok_iff {bytes : Bytes} {i : Nat} {b : UInt8} :
    index bytes i = .ok b ↔ bytes[i]? = some b := by
  unfold index
  cases bytes[i]? <;> simp

theorem index_ne_error {bytes : Bytes} {i : Nat} (h : i < bytes.length) {e : Halt} :
    index bytes i ≠ .error e := by
  rw [index_ok_iff.2 (List.getElem?_eq_getElem h)]
  nofun

theorem getElem?_of_drop {bytes rest : Bytes} {i : Nat} {b : UInt8} (h : bytes.drop i = b :: rest) :
    bytes[i]? = some b := by
  have hhead := congrArg List.head? h
  rwa [List.head?_drop] at hhead

theorem drop_of_getElem? {bytes : Bytes} {i : Nat} {b : UInt8} (h : bytes[i]? = some b) :
    bytes.drop i = b :: bytes.drop (i + 1) := by
  obtain ⟨hlt, rfl⟩ := List.getElem?_eq_some_iff.1 h
  exact List.drop_eq_getElem_cons hlt

theorem drop_split {bytes : Bytes} (i n : Nat) :
    bytes.drop i = (bytes.drop i).take n ++ bytes.drop (i + n) := by
  rw [← List.drop_drop, List.take_append_drop]

theorem length_take_drop {bytes : Bytes} {i n : Nat} (h : i + n ≤ bytes.length) :
    ((bytes.drop i).take n).length = n := by
  rw [List.length_take, List.length_drop]
  omega

theorem drop_append {bytes pre rest : Bytes} {i : Nat} (h : bytes.drop i = pre ++ rest) :
    (bytes.drop i).take pre.length = pre ∧ bytes.drop (i + pre.length) = rest := by
  constructor
  · rw [h, List.take_left]
  · rw [← List.drop_drop, h, List.drop_left]

theorem add_le_of_drop {bytes pre rest : Bytes} {i : Nat} (h : bytes.drop i = pre ++ rest)
    (hpre : pre ≠ []) : i + pre.length ≤ bytes.length := by
  have hlen := congrArg List.length h
  rw [List.length_drop, List.length_append] at hlen
  have hpos := List.length_pos_iff.2 hpre
  omega

theorem slice_some {bytes part : Bytes} {start stop : Nat} (h : slice bytes start stop = .ok part) :
    part = (bytes.drop start).take (stop - start) := by
  unfold slice at h
  split_ifs at h
  cases h
  rfl

theorem slice_ok {bytes : Bytes} {start stop : Nat} (hle : start ≤ stop)
    (hstop : stop ≤ bytes.length) :
    slice bytes start stop = .ok ((bytes.drop start).take (stop - start)) :=
  if_pos ⟨hle, hstop⟩

theorem slice_of_drop {bytes part rest : Bytes} {i : Nat} (hi : i + part.length ≤ bytes.length)
    (h : bytes.drop i = part ++ rest) : slice bytes i (i + part.length) = .ok part := by
  rw [slice_ok (Nat.le_add_right i _) hi, Nat.add_sub_cancel_left]
  exact congrArg Except.ok (drop_append h).1

/-! ## Parts -/

/-- A part of a file, with its two ends. -/
structure Spans (bytes : Bytes) (i : Nat) (part : Bytes) (stop : Nat) : Prop where
  le : stop ≤ bytes.length
  stop_eq : i + part.length = stop
  drop : bytes.drop i = part ++ bytes.drop stop

theorem Spans.nil {bytes : Bytes} {i : Nat} (h : i ≤ bytes.length) : Spans bytes i [] i :=
  ⟨h, rfl, rfl⟩

theorem Spans.trans {bytes part part' : Bytes} {i mid stop : Nat} (h : Spans bytes i part mid)
    (h' : Spans bytes mid part' stop) : Spans bytes i (part ++ part') stop where
  le := h'.le
  stop_eq := by rw [List.length_append, ← Nat.add_assoc, h.stop_eq, h'.stop_eq]
  drop := by rw [h.drop, h'.drop, List.append_assoc]

theorem Spans.eq_drop {bytes part : Bytes} {i : Nat} (h : Spans bytes i part bytes.length) :
    bytes.drop i = part := by
  rw [h.drop, List.drop_length, List.append_nil]

theorem spans_of_getElem? {bytes : Bytes} {i : Nat} {b : UInt8} (h : bytes[i]? = some b) :
    Spans bytes i [b] (i + 1) :=
  ⟨(List.getElem?_eq_some_iff.1 h).1, rfl, drop_of_getElem? h⟩

theorem spans_take {bytes : Bytes} {i n : Nat} (h : i + n ≤ bytes.length) :
    Spans bytes i ((bytes.drop i).take n) (i + n) :=
  ⟨h, by rw [length_take_drop h], drop_split i n⟩

theorem spans_of_slice {bytes part : Bytes} {i stop : Nat} (h : slice bytes i stop = .ok part) :
    Spans bytes i part stop := by
  unfold slice at h
  split_ifs at h with hrange
  cases h
  have hstop : i + (stop - i) = stop := Nat.add_sub_of_le hrange.1
  have hspans := spans_take (hstop.symm ▸ hrange.2 : i + (stop - i) ≤ bytes.length)
  rwa [hstop] at hspans

theorem slice_ne_error {bytes : Bytes} {i stop : Nat} (hle : i ≤ stop)
    (hstop : stop ≤ bytes.length) {e : Halt} : slice bytes i stop ≠ .error e := by
  rw [slice_ok hle hstop]
  nofun

end Media
end Maju
