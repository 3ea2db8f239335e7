import Mathlib.Data.List.Induction
import Mathlib.Data.List.Nodup
import Mathlib.Data.Nat.Notation
import Mathlib.Algebra.Group.Int.Defs
import Mathlib.Algebra.GroupWithZero.Nat

/-!
# Bytes — fixed-width big-endian byte strings

`beBytes n x` is the last `n` bytes of `x`, most significant first.  On the numbers below `256 ^ n`
it is injective, so a fixed-width field at the front of a byte string can be read back, which
`beNat` does.  `chunks n` cuts a list into pieces of length `n`.
-/

namespace Maju
namespace Lib

abbrev Bytes := List UInt8

-- named, so that every comparison of bytes refers to one instance
instance lawfulBEqBytes : LawfulBEq (List UInt8) := inferInstance

/-- The last `n` bytes of `x`, most significant first. -/
def beBytes : Nat → Nat → Bytes
  | 0, _ => []
  | n + 1, x => beBytes n (x / 256) ++ [UInt8.ofNat x]

@[simp] theorem length_beBytes (n x : Nat) : (beBytes n x).length = n := by
  induction n generalizing x with
  | zero => rfl
  | succ n ih => simp [beBytes, ih]

theorem beBytes_injOn {n x y : Nat} (hx : x < 256 ^ n) (hy : y < 256 ^ n)
    (h : beBytes n x = beBytes n y) : x = y := by
  induction n generalizing x y with
  | zero =>
      simp only [Nat.pow_zero] at hx hy
      omega
  | succ n ih =>
      have hsplit := List.append_inj h (by simp)
      have hhigh : x / 256 = y / 256 := by
        refine ih ?_ ?_ hsplit.1
        · rw [Nat.pow_succ] at hx
          exact Nat.div_lt_of_lt_mul (by omega)
        · rw [Nat.pow_succ] at hy
          exact Nat.div_lt_of_lt_mul (by omega)
      have hlow : x % 256 = y % 256 := by
        have hbyte := congrArg UInt8.toNat (List.cons.inj hsplit.2).1
        simpa using hbyte
      omega

/-! ## Reading -/

/-- The number that bytes write, most significant first. -/
def beNat (bytes : Bytes) : Nat := bytes.foldl (fun acc b => acc * 256 + b.toNat) 0

theorem beNat_concat (bytes : Bytes) (b : UInt8) :
    beNat (bytes ++ [b]) = beNat bytes * 256 + b.toNat := by
  simp [beNat]

theorem beNat_beBytes {n x : Nat} (hx : x < 256 ^ n) : beNat (beBytes n x) = x := by
  induction n generalizing x with
  | zero =>
      rw [Nat.pow_zero] at hx
      have h0 : x = 0 := Nat.lt_one_iff.1 hx
      rw [h0]
      rfl
  | succ n ih =>
      have hhigh : x / 256 < 256 ^ n := by
        rw [Nat.pow_succ] at hx
        exact Nat.div_lt_of_lt_mul (by omega)
      rw [beBytes, beNat_concat, ih hhigh]
      simp only [UInt8.toNat_ofNat']
      omega

theorem beNat_lt (bytes : Bytes) : beNat bytes < 256 ^ bytes.length := by
  induction bytes using List.reverseRecOn with
  | nil => exact Nat.one_pos
  | append_singleton bytes b ih =>
      have hb : b.toNat < 256 := b.toNat_lt
      rw [beNat_concat, List.length_append, List.length_singleton, Nat.pow_succ]
      omega

theorem beBytes_beNat (bytes : Bytes) : beBytes bytes.length (beNat bytes) = bytes := by
  induction bytes using List.reverseRecOn with
  | nil => rfl
  | append_singleton bytes b ih =>
      have hb : b.toNat < 256 := b.toNat_lt
      have hhigh : (beNat bytes * 256 + b.toNat) / 256 = beNat bytes := by omega
      have hlow : UInt8.ofNat (beNat bytes * 256 + b.toNat) = b := by
        apply UInt8.toNat_inj.1
        rw [UInt8.toNat_ofNat']
        omega
      rw [beNat_concat, List.length_append, List.length_singleton, beBytes, hhigh, hlow, ih]

/-! ## Pieces -/

/-- `slice::chunks`: pieces of length `n`, the last one possibly shorter. -/
def chunks {α : Type*} (n : Nat) (l : List α) : List (List α) :=
  if _h : l = [] ∨ n = 0 then [] else l.take n :: chunks n (l.drop n)
termination_by l.length
decreasing_by
  have hpos : 0 < l.length := List.length_pos_iff.2 (not_or.1 _h).1
  rw [List.length_drop]
  omega

/-- The pieces make up the list. -/
theorem flatten_chunks {α : Type*} {n : Nat} (hn : n ≠ 0) (l : List α) :
    (chunks n l).flatten = l := by
  fun_induction chunks n l with
  | case1 l h =>
      rcases h with rfl | h0
      · rfl
      · exact absurd h0 hn
  | case2 l h ih => rw [List.flatten_cons, ih, List.take_append_drop]

/-! ## Signed numbers -/

/-- `i64::to_be_bytes`: two's complement. -/
def i64Bytes (i : Int) : Bytes := beBytes 8 (i % 2 ^ 64).toNat

theorem i64Bytes_injOn {i j : Int} (hi : -2 ^ 63 ≤ i ∧ i < 2 ^ 63) (hj : -2 ^ 63 ≤ j ∧ j < 2 ^ 63)
    (h : i64Bytes i = i64Bytes j) : i = j := by
  have hnat : (i % 2 ^ 64).toNat = (j % 2 ^ 64).toNat :=
    beBytes_injOn (n := 8) (by omega) (by omega) h
  omega

/-! ## Order -/

/-- `sort_by_key`: values in the order of the bytes of their keys, in their old order where these are
equal. -/
def sortByBytes {α : Type*} (key : α → Bytes) (l : List α) : List α :=
  l.mergeSort fun a b => decide (key a ≤ key b)

theorem sortByBytes_perm {α : Type*} (key : α → Bytes) (l : List α) : (sortByBytes key l).Perm l :=
  List.mergeSort_perm l _

theorem sortByBytes_pairwise {α : Type*} (key : α → Bytes) (l : List α) :
    (sortByBytes key l).Pairwise fun a b => key a ≤ key b := by
  have htrans : ∀ a b c : α, decide (key a ≤ key b) = true → decide (key b ≤ key c) = true →
      decide (key a ≤ key c) = true := by
    intro a b c hab hbc
    exact decide_eq_true (List.le_trans (of_decide_eq_true hab) (of_decide_eq_true hbc))
  have htotal : ∀ a b : α, (decide (key a ≤ key b) || decide (key b ≤ key a)) = true := by
    intro a b
    simpa using List.le_total (key a) (key b)
  exact (List.pairwise_mergeSort htrans htotal l).imp fun hab => of_decide_eq_true hab

/-- With distinct keys the order in which the values come does not matter. -/
theorem sortByBytes_congr {α : Type*} {key : α → Bytes} {l m : List α} (hperm : l.Perm m)
    (hkeys : (l.map key).Nodup) : sortByBytes key l = sortByBytes key m := by
  have hsorted : (sortByBytes key l).Perm (sortByBytes key m) :=
    (sortByBytes_perm key l).trans (hperm.trans (sortByBytes_perm key m).symm)
  refine hsorted.eq_of_pairwise ?_ (sortByBytes_pairwise key l) (sortByBytes_pairwise key m)
  intro a b ha hb hab hba
  have hbl : b ∈ l := hperm.mem_iff.2 ((sortByBytes_perm key m).mem_iff.1 hb)
  exact List.inj_on_of_nodup_map hkeys ((sortByBytes_perm key l).mem_iff.1 ha) hbl
    (List.le_antisymm hab hba)

end Lib
end Maju
