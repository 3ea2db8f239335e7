import Mathlib.Data.List.Basic
import Mathlib.Data.Nat.Notation
import Mathlib.Algebra.GroupWithZero.Nat

/-!
# Hex — fixed-width lowercase hexadecimal text

`hexDigits n x` writes the last `n` hexadecimal digits of `x`, most significant first.  On the
numbers below `16 ^ n` it is injective, and `parseHex` reads it back: `parseHex` also takes
uppercase digits, and the number it reads is the one written.
-/

namespace Maju
namespace Lib

/-- The lowercase digit of a number below sixteen. -/
def hexDigit (d : Nat) : Char :=
  if d < 10 then Char.ofNat (48 + d) else Char.ofNat (87 + d)

theorem hexDigit_injOn : ∀ a < 16, ∀ b < 16, hexDigit a = hexDigit b → a = b := by
  decide

/-- The last `n` hexadecimal digits of `x`. -/
def hexDigits : Nat → Nat → List Char
  | 0, _ => []
  | n + 1, x => hexDigits n (x / 16) ++ [hexDigit (x % 16)]

@[simp] theorem length_hexDigits (n x : Nat) : (hexDigits n x).length = n := by
  induction n generalizing x with
  | zero => rfl
  | succ n ih => simp [hexDigits, ih]

theorem hexDigits_injOn {n x y : Nat} (hx : x < 16 ^ n) (hy : y < 16 ^ n)
    (h : hexDigits n x = hexDigits n y) : x = y := by
  induction n generalizing x y with
  | zero =>
      simp only [Nat.pow_zero] at hx hy
      omega
  | succ n ih =>
      have hsplit := List.append_inj h (by simp)
      have hhigh : x / 16 = y / 16 := by
        refine ih ?_ ?_ hsplit.1
        · rw [Nat.pow_succ] at hx
          exact Nat.div_lt_of_lt_mul (by omega)
        · rw [Nat.pow_succ] at hy
          exact Nat.div_lt_of_lt_mul (by omega)
      have hlow : x % 16 = y % 16 := by
        refine hexDigit_injOn _ (Nat.mod_lt _ (by decide)) _ (Nat.mod_lt _ (by decide)) ?_
        exact (List.cons.inj hsplit.2).1
      omega

/-- The digits of a bit vector fix it, when there are as many as it needs. -/
theorem hexDigits_bitVec_injective {n w : Nat} (hw : 2 ^ w = 16 ^ n) {x y : BitVec w}
    (h : hexDigits n x.toNat = hexDigits n y.toNat) : x = y :=
  BitVec.eq_of_toNat_eq (hexDigits_injOn (hw ▸ x.isLt) (hw ▸ y.isLt) h)

theorem hexDigit_lt : ∀ a < 16, ∀ b < 16, a < b → hexDigit a < hexDigit b := by
  decide

/-- Texts of one length compare by their first difference. -/
theorem append_lt_append {l r : List Char} (h : l < r) (hlen : l.length = r.length)
    (s t : List Char) : l ++ s < r ++ t := by
  induction l generalizing r with
  | nil =>
      cases r with
      | nil => exact absurd h (by simp)
      | cons b r => simp at hlen
  | cons a l ih =>
      cases r with
      | nil => simp at hlen
      | cons b r =>
          simp only [List.cons_append, List.cons_lt_cons_iff] at h ⊢
          rcases h with hab | ⟨rfl, hlr⟩
          · exact Or.inl hab
          · exact Or.inr ⟨rfl, ih hlr (by simpa using hlen)⟩

/-- The text of a smaller number comes first. -/
theorem hexDigits_lt {n x y : Nat} (hy : y < 16 ^ n) (h : x < y) :
    hexDigits n x < hexDigits n y := by
  induction n generalizing x y with
  | zero =>
      simp only [Nat.pow_zero] at hy
      omega
  | succ n ih =>
      rcases Nat.lt_or_eq_of_le (Nat.div_le_div_right (c := 16) (Nat.le_of_lt h)) with hhigh | hhigh
      · have hbound : y / 16 < 16 ^ n := by
          rw [Nat.pow_succ] at hy
          exact Nat.div_lt_of_lt_mul (by omega)
        exact append_lt_append (ih hbound hhigh) (by simp) _ _
      · have hlow : x % 16 < y % 16 := by omega
        have hdigit := hexDigit_lt _ (Nat.mod_lt x (by decide)) _ (Nat.mod_lt y (by decide)) hlow
        rw [hexDigits, hexDigits, hhigh]
        exact List.append_left_lt (List.cons_lt_cons_iff.2 (Or.inl hdigit))

theorem toLower_hexDigit : ∀ d < 16, (hexDigit d).toLower = hexDigit d := by
  decide

/-- The digits are lowercase. -/
theorem map_toLower_hexDigits (n x : Nat) :
    (hexDigits n x).map Char.toLower = hexDigits n x := by
  induction n generalizing x with
  | zero => rfl
  | succ n ih =>
      simp [hexDigits, ih, toLower_hexDigit (x % 16) (Nat.mod_lt _ (by decide))]

/-! ## Reading -/

def hexValue (c : Char) : Option Nat :=
  if '0' ≤ c ∧ c ≤ '9' then some (c.toNat - '0'.toNat)
  else if 'a' ≤ c ∧ c ≤ 'f' then some (c.toNat - 'a'.toNat + 10)
  else if 'A' ≤ c ∧ c ≤ 'F' then some (c.toNat - 'A'.toNat + 10)
  else none

/-- The number written by hexadecimal digits. -/
def parseHex (digits : List Char) : Option Nat :=
  digits.foldlM (fun acc c => (hexValue c).map fun d => acc * 16 + d) 0

theorem hexValue_hexDigit : ∀ d < 16, hexValue (hexDigit d) = some d := by
  decide

theorem parseHex_append (ds es : List Char) :
    parseHex (ds ++ es) =
      (parseHex ds).bind fun x =>
        es.foldlM (fun acc c => (hexValue c).map fun d => acc * 16 + d) x := by
  simp [parseHex, List.foldlM_append]

/-- What is read is what was written. -/
theorem parseHex_hexDigits {n x : Nat} (hx : x < 16 ^ n) :
    parseHex (hexDigits n x) = some x := by
  induction n generalizing x with
  | zero =>
      have h0 : x = 0 := by simpa using hx
      rw [h0]
      rfl
  | succ n ih =>
      have hhigh : x / 16 < 16 ^ n := by
        rw [Nat.pow_succ] at hx
        exact Nat.div_lt_of_lt_mul (by omega)
      have hlow := hexValue_hexDigit (x % 16) (Nat.mod_lt _ (by decide))
      rw [hexDigits, parseHex_append, ih hhigh]
      simp only [Option.bind_some, List.foldlM_cons, List.foldlM_nil, hlow, Option.map_some]
      have hsum : x / 16 * 16 + x % 16 = x := Nat.div_add_mod' x 16
      simp [hsum]

/-- What holds of every lowercase digit holds of the digits. -/
theorem all_hexDigits {p : Char → Bool} (hp : ∀ d < 16, p (hexDigit d) = true) (n x : Nat) :
    (hexDigits n x).all p = true := by
  induction n generalizing x with
  | zero => rfl
  | succ n ih => simp [hexDigits, List.all_append, ih, hp (x % 16) (Nat.mod_lt _ (by decide))]

/-- A character that is no lowercase digit occurs in no digits. -/
theorem not_mem_hexDigits {c : Char} (hc : ∀ d < 16, hexDigit d ≠ c) (n x : Nat) :
    c ∉ hexDigits n x := by
  induction n generalizing x with
  | zero => simp [hexDigits]
  | succ n ih =>
      have hlast := hc (x % 16) (Nat.mod_lt _ (by decide))
      simp [hexDigits, ih, hlast.symm]

end Lib
end Maju
