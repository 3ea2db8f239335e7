import Maju.Lib.Bytes
import Mathlib.Data.List.DropRight
import Mathlib.Data.List.Nodup
import Mathlib.Order.Basic

/-!
# Shell — what a script does with lines of bytes

The parts of a POSIX shell and its tools in the C locale that take lines apart and put them in
order.  A text is the list of its bytes and a file the list of its lines.

* `readFields` — the builtin `read`, with and without `-r`;
* `readFields_join` — words joined by one blank each are read back;
* `sortLines_map` — sorting lines that begin with a key sorts by the key.
-/

namespace Maju
namespace Lib
namespace Shell

/-! ## `read` -/

def plain (bytes : Bytes) : List (UInt8 × Bool) := bytes.map fun b => (b, false)

/-- A line with backslashes taken out.  What one of them protects is marked. -/
def unescape : Bytes → List (UInt8 × Bool)
  | [] => []
  | [b] => if b = 92 then [] else [(b, false)]
  | b :: c :: rest =>
      if b = 92 then (c, true) :: unescape rest else (b, false) :: unescape (c :: rest)

/-- The fields of a line: all but the last are words, the last is the rest without the blanks
around it.  Variables without a word are empty. -/
def splitFields (blank : UInt8 × Bool → Bool) : Nat → List (UInt8 × Bool) → List Bytes
  | 0, _ => []
  | 1, line => [((line.dropWhile blank).rdropWhile blank).map Prod.fst]
  | n + 2, line =>
      let line := line.dropWhile blank
      ((line.takeWhile fun e => !blank e).map Prod.fst) ::
        splitFields blank (n + 1) (line.dropWhile fun e => !blank e)

/-- `IFS=… read v1 … vn`, with the blanks of `IFS`.  With `-r` a backslash is a byte like any
other. -/
def readFields (raw : Bool) (ifs : UInt8 → Bool) (n : Nat) (line : Bytes) : List Bytes :=
  splitFields (fun e => ifs e.1 && !e.2) n
    (if raw then plain line else unescape line)

/-- The blanks of an unset `IFS`. -/
def defaultIfs (b : UInt8) : Bool := b = 32 || b = 9 || b = 10

section Join

variable {blank : UInt8 × Bool → Bool} {sep : UInt8} {w : Bytes} {ws : List Bytes}

theorem unescape_eq_plain {line : Bytes} (h : 92 ∉ line) : unescape line = plain line := by
  induction line with
  | nil => rfl
  | cons b line ih =>
      have hb : b ≠ 92 := (List.ne_of_not_mem_cons h).symm
      have hrest := ih (List.not_mem_of_not_mem_cons h)
      cases line with
      | nil => simp [unescape, plain, hb]
      | cons c line =>
          rw [unescape, if_neg hb, hrest]
          rfl

theorem map_fst_plain (bytes : Bytes) : (plain bytes).map Prod.fst = bytes := by
  simp [plain, Function.comp_def]

/-- A word of a line: not empty and without a blank. -/
def IsField (blank : UInt8 × Bool → Bool) (w : Bytes) : Prop :=
  w ≠ [] ∧ ∀ b ∈ w, blank (b, false) = false

theorem IsField.dropWhile_plain (h : IsField blank w) (rest : List (UInt8 × Bool)) :
    (plain w ++ rest).dropWhile blank = plain w ++ rest := by
  obtain ⟨hne, hblank⟩ := h
  cases w with
  | nil => exact absurd rfl hne
  | cons b w =>
      have hb : blank (b, false) = false := hblank b List.mem_cons_self
      simp [plain, hb]

theorem IsField.not_blank (h : IsField blank w) : ∀ e ∈ plain w, (!blank e) = true := by
  intro e he
  obtain ⟨b, hb, rfl⟩ := List.mem_map.1 he
  simp [h.2 b hb]

/-- A blank before the first field is skipped. -/
theorem splitFields_cons {e : UInt8 × Bool} (he : blank e = true) (n : Nat)
    (line : List (UInt8 × Bool)) : splitFields blank n (e :: line) = splitFields blank n line := by
  have hdrop : (e :: line).dropWhile blank = line.dropWhile blank := by
    rw [List.dropWhile_cons, if_pos he]
  cases n with
  | zero => rfl
  | succ n =>
      cases n with
      | zero => rw [splitFields, splitFields, hdrop]
      | succ n => rw [splitFields, splitFields, hdrop]

theorem splitFields_join (hsep : blank (sep, false) = true) (hw : IsField blank w)
    (hws : ∀ v ∈ ws, IsField blank v) :
    splitFields blank (ws.length + 1) (plain (w ++ ws.flatMap fun v => sep :: v)) = w :: ws := by
  induction ws generalizing w with
  | nil =>
      have hdrop := hw.dropWhile_plain []
      rw [List.append_nil] at hdrop
      have hright : (plain w).rdropWhile blank = plain w := by
        apply List.rdropWhile_eq_self_iff.2
        intro hne
        simpa using hw.not_blank _ (List.getLast_mem hne)
      simp only [List.length_nil, List.flatMap_nil, List.append_nil, splitFields, hdrop, hright,
        map_fst_plain]
  | cons v ws ih =>
      have hline : plain (w ++ (v :: ws).flatMap fun v => sep :: v) =
          plain w ++ (sep, false) :: plain (v ++ ws.flatMap fun v => sep :: v) := by
        simp [plain]
      -- the first word ends at the separator, which the next turn skips
      have htake : ∀ rest, (plain w ++ (sep, false) :: rest).takeWhile (fun e => !blank e) =
          plain w := by
        intro rest
        rw [List.takeWhile_append_of_pos hw.not_blank, List.takeWhile_cons,
          if_neg (by simp [hsep]), List.append_nil]
      have hdrop : ∀ rest, (plain w ++ (sep, false) :: rest).dropWhile (fun e => !blank e) =
          (sep, false) :: rest := by
        intro rest
        rw [List.dropWhile_append_of_pos hw.not_blank, List.dropWhile_cons,
          if_neg (by simp [hsep])]
      rw [hline, List.length_cons, splitFields, hw.dropWhile_plain, htake, hdrop, map_fst_plain]
      rw [splitFields_cons hsep]
      exact congrArg (w :: ·)
        (ih (hws v List.mem_cons_self) fun x hx => hws x (List.mem_cons_of_mem v hx))

end Join

/-- Words without a backslash, joined by one blank each, are the fields of the line. -/
theorem readFields_join {ifs : UInt8 → Bool} {w : Bytes} {ws : List Bytes} (raw : Bool)
    (hifs : ifs 32 = true) (hwords : ∀ v ∈ w :: ws, v ≠ [] ∧ ∀ b ∈ v, ifs b = false ∧ b ≠ 92) :
    readFields raw ifs (ws.length + 1) (w ++ ws.flatMap fun v => 32 :: v) = w :: ws := by
  have hfield : ∀ v ∈ w :: ws, IsField (fun e => ifs e.1 && !e.2) v := by
    intro v hv
    refine ⟨(hwords v hv).1, fun b hb => ?_⟩
    simp [((hwords v hv).2 b hb).1]
  have hescape : 92 ∉ w ++ ws.flatMap fun v => 32 :: v := by
    intro hmem
    rcases List.mem_append.1 hmem with hw | hrest
    · exact ((hwords w List.mem_cons_self).2 92 hw).2 rfl
    · obtain ⟨v, hv, hmem⟩ := List.mem_flatMap.1 hrest
      rcases List.mem_cons.1 hmem with heq | hmem
      · exact absurd heq (by decide)
      · exact ((hwords v (List.mem_cons_of_mem w hv)).2 92 hmem).2 rfl
  have hmarked : (if raw then plain (w ++ ws.flatMap fun v => 32 :: v)
      else unescape (w ++ ws.flatMap fun v => 32 :: v)) =
        plain (w ++ ws.flatMap fun v => 32 :: v) := by
    rw [unescape_eq_plain hescape, ite_self]
  rw [readFields, hmarked]
  exact splitFields_join (by simp [hifs]) (hfield w List.mem_cons_self)
    fun v hv => hfield v (List.mem_cons_of_mem w hv)

/-! ## `sort` and `$(…)` -/

/-- `sort` in the C locale. -/
def sortLines (lines : List Bytes) : List Bytes := sortByBytes id lines

/-- `$(…)`: the output without the newlines at its end. -/
def capture (output : Bytes) : Bytes := output.rdropWhile fun b => b = 10

theorem capture_eq_self {output : Bytes} (h : 10 ∉ output) : capture output = output := by
  apply List.rdropWhile_eq_self_iff.2
  intro hne
  have hlast : output.getLast hne ≠ 10 := fun heq => h (heq ▸ List.getLast_mem hne)
  simp [hlast]

/-- Lines that are in the order of their keys are sorted as the keys are. -/
theorem sortLines_map {α : Type*} {key line : α → Bytes} {l : List α}
    (hmono : ∀ a ∈ l, ∀ b ∈ l, key a < key b → line a < line b) (hkeys : (l.map key).Nodup) :
    sortLines (l.map line) = (sortByBytes key l).map line := by
  have hperm : (sortByBytes key l).Perm l := sortByBytes_perm key l
  have hdistinct : (sortByBytes key l).Pairwise fun a b => key a ≠ key b :=
    List.pairwise_map.1 ((hperm.map key).nodup_iff.2 hkeys)
  have hlines : ((sortByBytes key l).map line).Pairwise (· ≤ ·) := by
    rw [List.pairwise_map]
    refine ((sortByBytes_pairwise key l).and hdistinct).imp_of_mem fun ha hb hab => ?_
    -- keys in order that differ are strictly in order
    have hlt := (List.le_iff_lt_or_eq.1 hab.1).resolve_right hab.2
    exact List.le_iff_lt_or_eq.2
      (Or.inl (hmono _ (hperm.mem_iff.1 ha) _ (hperm.mem_iff.1 hb) hlt))
  have hsorted : (sortLines (l.map line)).Pairwise (· ≤ ·) := sortByBytes_pairwise id (l.map line)
  have hsame : (sortLines (l.map line)).Perm ((sortByBytes key l).map line) :=
    (sortByBytes_perm id (l.map line)).trans (hperm.map line).symm
  exact hsame.eq_of_pairwise (fun _ _ _ _ hab hba => List.le_antisymm hab hba) hsorted hlines

/-- A key is followed by a blank, so the bytes of a longer key decide before it does. -/
theorem append_blank_lt {x y : Bytes} (h : x < y) (hy : ∀ b ∈ y, 32 < b) (r t : Bytes) :
    x ++ 32 :: r < y ++ 32 :: t := by
  induction y generalizing x with
  | nil => exact absurd h (List.not_lt_nil x)
  | cons c y ih =>
      cases x with
      | nil => exact List.Lex.rel (hy c List.mem_cons_self)
      | cons b x =>
          rcases List.cons_lt_cons_iff.1 h with hlt | ⟨rfl, hrest⟩
          · exact List.Lex.rel hlt
          · exact List.Lex.cons (ih hrest fun d hd => hy d (List.mem_cons_of_mem b hd))

end Shell
end Lib
end Maju
