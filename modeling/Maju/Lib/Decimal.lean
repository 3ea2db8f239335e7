import Mathlib.Data.List.Basic
import Mathlib.Data.Nat.Log
import Mathlib.Algebra.GroupWithZero.Nat

/-!
# Decimal — decimal text and text cut at a separator

`decimal n` is the text a number prints as, and `parseDigits` reads it back.  `fields` cuts a text
at every occurrence of a separator; a text glued from pieces that do not hold the separator is cut
into these pieces again.  `lines` are the lines of a text.  `formatG14` is the `%.14g` form of a
natural number: plain decimal text below `10 ^ 14`, and from there on a rounded mantissa with an
exponent, which is no decimal text.
-/

namespace Maju
namespace Lib

universe u

/-! ## Decimal text -/

/-- The decimal digits of `n`, most significant first. -/
def decimal (n : Nat) : List Char := Nat.toDigits 10 n

/-- The number written by one or more decimal digits. -/
def parseDigits (text : List Char) : Option Nat :=
  if text ≠ [] ∧ text.all Char.isDigit then some (Nat.ofDigitChars 10 text 0) else none

/-- `str::parse::<u64>()`: an optional plus sign, digits, and no overflow. -/
def parseU64 (text : List Char) : Option Nat :=
  let digits := if text.head? = some '+' then text.tail else text
  (parseDigits digits).filter (· < 2 ^ 64)

theorem isDigit_of_mem_decimal {n : Nat} {c : Char} (h : c ∈ decimal n) : c.isDigit = true :=
  Nat.isDigit_of_mem_toDigits (by decide) (by decide) h

theorem not_mem_decimal {c : Char} (hc : c.isDigit = false) (n : Nat) : c ∉ decimal n := by
  intro hmem
  have hdigit := isDigit_of_mem_decimal hmem
  rw [hc] at hdigit
  cases hdigit

theorem decimal_ne_nil (n : Nat) : decimal n ≠ [] := Nat.toDigits_ne_nil

theorem length_decimal_le {n k : Nat} (hk : 0 < k) (hn : n < 10 ^ k) : (decimal n).length ≤ k :=
  (Nat.length_toDigits_le_iff (by decide) hk).2 hn

theorem parseDigits_decimal (n : Nat) : parseDigits (decimal n) = some n := by
  have hall : (decimal n).all Char.isDigit = true :=
    List.all_eq_true.2 fun _ hc => isDigit_of_mem_decimal hc
  unfold parseDigits
  rw [if_pos ⟨decimal_ne_nil n, hall⟩]
  exact congrArg some Nat.ofDigitChars_ten_toDigits

theorem parseU64_decimal {n : Nat} (hn : n < 2 ^ 64) : parseU64 (decimal n) = some n := by
  have hplus : (decimal n).head? ≠ some '+' := by
    intro hhead
    exact not_mem_decimal (by decide) n (List.mem_of_head? hhead)
  unfold parseU64
  dsimp only
  rw [if_neg hplus, parseDigits_decimal]
  exact Option.filter_some_pos (decide_eq_true hn)

theorem decimal_injective : Function.Injective decimal := by
  intro m n h
  have hparse := congrArg parseDigits h
  rw [parseDigits_decimal, parseDigits_decimal] at hparse
  exact Option.some.inj hparse

/-- A positive number is written without leading zeros. -/
theorem head?_decimal_ne {n : Nat} (hn : 0 < n) : (decimal n).head? ≠ some '0' := by
  induction n using Nat.strongRecOn with
  | ind n ih =>
      unfold decimal
      by_cases hsmall : n < 10
      · rw [Nat.toDigits_of_lt_base hsmall]
        have hdigit : ∀ m < 10, 0 < m → Nat.digitChar m ≠ '0' := by decide
        simpa using hdigit n hsmall hn
      · have hhigh : 0 < n / 10 := Nat.div_pos (by omega) (by decide)
        have hlead := ih (n / 10) (Nat.div_lt_self hn (by decide)) hhigh
        rw [Nat.toDigits_of_base_le (by decide) (by omega)]
        rw [List.head?_append_of_ne_nil _ Nat.toDigits_ne_nil]
        exact hlead

/-- A digit is the character of its number. -/
theorem exists_digitChar {c : Char} (h : c.isDigit = true) : ∃ d < 10, c = Nat.digitChar d := by
  have hall : ∀ n < 58, 48 ≤ n → Char.ofNat n = Nat.digitChar (n - 48) := by decide
  simp only [Char.isDigit, Bool.and_eq_true, decide_eq_true_eq] at h
  have hlow : 48 ≤ c.toNat := h.1
  have hhigh : c.toNat ≤ 57 := h.2
  have hchar := hall c.toNat (by omega) hlow
  rw [Char.ofNat_toNat] at hchar
  exact ⟨c.toNat - 48, by omega, hchar⟩

/-- Digits without a leading zero are the text of their number. -/
theorem decimal_ofDigitChars {text : List Char} (hne : text ≠ [])
    (hdigits : ∀ c ∈ text, c.isDigit = true) (hzero : text.head? = some '0' → text = ['0']) :
    decimal (Nat.ofDigitChars 10 text 0) = text := by
  induction hlen : text.length generalizing text with
  | zero => exact absurd (List.length_eq_zero_iff.1 hlen) hne
  | succ n ih =>
      obtain ⟨init, c, rfl⟩ : ∃ init c, text = init ++ [c] :=
        ⟨text.dropLast, text.getLast hne, (List.dropLast_append_getLast hne).symm⟩
      obtain ⟨d, hd, rfl⟩ := exists_digitChar (hdigits c (by simp))
      rw [Nat.ofDigitChars_append, Nat.ofDigitChars_cons_digitChar_of_lt_ten hd,
        Nat.ofDigitChars_nil]
      cases init with
      | nil =>
          rw [Nat.ofDigitChars_nil, Nat.mul_zero, Nat.zero_add]
          exact Nat.toDigits_of_lt_base hd
      | cons a rest =>
          have hfirst : (a :: rest).head? ≠ some '0' := by
            intro hhead
            have hone := hzero (by simpa using hhead)
            simp at hone
          have hfront := ih (List.cons_ne_nil a rest)
            (fun c hc => hdigits c (List.mem_append_left _ hc)) (fun h => absurd h hfirst)
            (by simpa using hlen)
          -- the digits in front of the last one are not zero, for they do not begin with it
          have hpos : 0 < Nat.ofDigitChars 10 (a :: rest) 0 := by
            refine Nat.pos_of_ne_zero fun heq => hfirst ?_
            rw [← hfront, heq]
            rfl
          calc
            decimal (10 * Nat.ofDigitChars 10 (a :: rest) 0 + d)
                = decimal (Nat.ofDigitChars 10 (a :: rest) 0) ++ decimal d :=
                  (Nat.toDigits_append_toDigits (by decide) hpos hd).symm
            _ = (a :: rest) ++ [Nat.digitChar d] := by
                  rw [hfront]
                  exact congrArg _ (Nat.toDigits_of_lt_base hd)

/-- A text with a letter is no number. -/
theorem parseU64_eq_none {text : List Char} {c : Char} (hmem : c ∈ text)
    (hdigit : c.isDigit = false) (hplus : c ≠ '+') : parseU64 text = none := by
  have hstill : c ∈ (if text.head? = some '+' then text.tail else text) := by
    cases text with
    | nil => cases hmem
    | cons d rest =>
        by_cases hd : d = '+'
        · -- the sign itself is not the offending character
          subst hd
          simpa [hplus] using hmem
        · simpa [hd] using hmem
  have hnone : parseDigits (if text.head? = some '+' then text.tail else text) = none := by
    unfold parseDigits
    refine if_neg ?_
    rintro ⟨_, hall⟩
    have := List.all_eq_true.1 hall c hstill
    rw [hdigit] at this
    cases this
  unfold parseU64
  dsimp only
  rw [hnone]
  rfl

/-! ## Cutting at a separator -/

section Fields

variable {α : Type u} [DecidableEq α]

/-- The pieces between the occurrences of `sep`: one more than there are occurrences. -/
def fields (sep : α) : List α → List (List α)
  | [] => [[]]
  | a :: rest =>
      if a = sep then [] :: fields sep rest
      else
        match fields sep rest with
        | [] => [[a]]
        | piece :: pieces => (a :: piece) :: pieces

theorem fields_of_not_mem {sep : α} {l : List α} (h : sep ∉ l) : fields sep l = [l] := by
  induction l with
  | nil => rfl
  | cons a rest ih =>
      have hne : a ≠ sep := fun he => h (he ▸ List.mem_cons_self)
      have hrest : sep ∉ rest := fun hm => h (List.mem_cons_of_mem a hm)
      simp [fields, hne, ih hrest]

/-- The first piece ends at the first separator. -/
theorem fields_append {sep : α} {l : List α} (h : sep ∉ l) (rest : List α) :
    fields sep (l ++ sep :: rest) = l :: fields sep rest := by
  induction l with
  | nil => simp [fields]
  | cons a l ih =>
      have hne : a ≠ sep := fun he => h (he ▸ List.mem_cons_self)
      have hl : sep ∉ l := fun hm => h (List.mem_cons_of_mem a hm)
      simp [fields, hne, ih hl]

/-- Pieces without the separator, joined by it, are found again. -/
theorem fields_join {sep : α} {p : List α} {ps : List (List α)} (h : ∀ s ∈ p :: ps, sep ∉ s) :
    fields sep (p ++ ps.flatMap (sep :: ·)) = p :: ps := by
  induction ps generalizing p with
  | nil => simpa using fields_of_not_mem (h p List.mem_cons_self)
  | cons q ps ih =>
      have hp : sep ∉ p := h p List.mem_cons_self
      have hrest := ih fun s hs => h s (List.mem_cons_of_mem p hs)
      rw [List.flatMap_cons, List.cons_append, fields_append hp, hrest]

/-- Every list is its pieces joined by the separator. -/
theorem exists_fields (sep : α) (l : List α) :
    ∃ p ps, fields sep l = p :: ps ∧ l = p ++ ps.flatMap (sep :: ·) ∧
      ∀ s ∈ p :: ps, sep ∉ s := by
  induction l with
  | nil => exact ⟨[], [], rfl, rfl, by simp⟩
  | cons a rest ih =>
      obtain ⟨p, ps, hfields, hjoin, hnot⟩ := ih
      by_cases ha : a = sep
      · refine ⟨[], p :: ps, by simp [fields, ha, hfields], ?_, ?_⟩
        · subst ha
          simpa using hjoin
        · intro s hs
          rcases List.mem_cons.1 hs with rfl | hs
          · exact List.not_mem_nil
          · exact hnot s hs
      · refine ⟨a :: p, ps, by simp [fields, ha, hfields], by simpa using hjoin, ?_⟩
        intro s hs
        rcases List.mem_cons.1 hs with rfl | hs
        · have hp := hnot p List.mem_cons_self
          simp [hp, Ne.symm ha]
        · exact hnot s (List.mem_cons_of_mem p hs)

/-- What is no separator stands in one of the pieces. -/
theorem exists_mem_fields {sep a : α} {l : List α} (ha : a ∈ l) (hne : a ≠ sep) :
    ∃ piece ∈ fields sep l, a ∈ piece := by
  obtain ⟨p, ps, hfields, hjoin, _⟩ := exists_fields sep l
  rw [hfields]
  rw [hjoin, List.mem_append, List.mem_flatMap] at ha
  rcases ha with hfirst | ⟨q, hq, hmem⟩
  · exact ⟨p, List.mem_cons_self, hfirst⟩
  · rcases List.mem_cons.1 hmem with heq | hin
    · exact absurd heq hne
    · exact ⟨q, List.mem_cons_of_mem p hq, hin⟩

end Fields

/-! ## Lines -/

/-- A terminated line without its carriage return. -/
def stripCr (line : List Char) : List Char :=
  if line.getLast? = some '\r' then line.dropLast else line

/-- `str::lines`. -/
def lines (s : List Char) : List (List Char) :=
  let pieces := fields '\n' s
  pieces.dropLast.map stripCr ++ match pieces.getLast? with
    | some [] => []
    | some line => [line]
    | none => []

/-! ## The general number format -/

/-- `n / d` rounded to the nearest integer, ties to even. -/
def roundHalfEven (n d : Nat) : Nat :=
  let q := n / d
  let r := n % d
  if 2 * r < d then q else if d < 2 * r then q + 1 else q + q % 2

theorem div_le_roundHalfEven (n d : Nat) : n / d ≤ roundHalfEven n d := by
  unfold roundHalfEven
  dsimp only
  split
  · exact Nat.le_refl _
  · split <;> omega

/-- The double nearest to `n`: 53 significant bits. -/
def toDouble (n : Nat) : Nat :=
  if n < 2 ^ 53 then n
  else
    let ulp := 2 ^ (n.log2 - 52)
    roundHalfEven n ulp * ulp

/-- The digits after the point without trailing zeros, and no point without digits. -/
def fractionText (digits : List Char) : List Char :=
  match (digits.reverse.dropWhile (· = '0')).reverse with
  | [] => []
  | digit :: rest => '.' :: digit :: rest

/-- `%.14g` of a natural number: fourteen significant digits, trailing zeros dropped. -/
def formatG14 (x : Nat) : List Char :=
  if x < 10 ^ 14 then decimal x
  else
    let exponent := (decimal x).length - 1
    let mantissa := roundHalfEven x (10 ^ (exponent - 13))
    -- rounding up may carry into a fifteenth digit
    let carried := decide (10 ^ 14 ≤ mantissa)
    let digits := decimal (if carried then mantissa / 10 else mantissa)
    digits.take 1 ++ fractionText digits.tail ++
      ('e' :: '+' :: decimal (if carried then exponent + 1 else exponent))

theorem toDouble_of_lt {n : Nat} (hn : n < 10 ^ 14) : toDouble n = n := by
  unfold toDouble
  rw [if_pos (by omega)]

theorem le_toDouble {n : Nat} (hn : 10 ^ 14 ≤ n) : 10 ^ 14 ≤ toDouble n := by
  unfold toDouble
  split
  · exact hn
  · next hbig =>
      have hne : n ≠ 0 := by omega
      have hlog : 53 ≤ n.log2 := by
        rw [Nat.le_log2 hne]
        omega
      have hsplit : 2 ^ n.log2 = 2 ^ 52 * 2 ^ (n.log2 - 52) := by
        rw [← Nat.pow_add]
        congr 1
        omega
      -- the leading bit survives the rounding
      have hquot : 2 ^ 52 ≤ n / 2 ^ (n.log2 - 52) := by
        rw [Nat.le_div_iff_mul_le (Nat.two_pow_pos _), ← hsplit]
        exact Nat.log2_self_le hne
      have hround := Nat.le_trans hquot (div_le_roundHalfEven n (2 ^ (n.log2 - 52)))
      have hulp : 2 ≤ 2 ^ (n.log2 - 52) := by
        calc 2 = 2 ^ 1 := rfl
          _ ≤ 2 ^ (n.log2 - 52) := Nat.pow_le_pow_right (by decide) (by omega)
      calc 10 ^ 14 ≤ 2 ^ 52 * 2 := by decide
        _ ≤ roundHalfEven n (2 ^ (n.log2 - 52)) * 2 ^ (n.log2 - 52) :=
            Nat.mul_le_mul hround hulp

theorem formatG14_of_lt {x : Nat} (hx : x < 10 ^ 14) : formatG14 x = decimal x := by
  unfold formatG14
  rw [if_pos hx]

theorem mem_formatG14 {x : Nat} (hx : 10 ^ 14 ≤ x) : 'e' ∈ formatG14 x := by
  unfold formatG14
  rw [if_neg (by omega)]
  simp

theorem mem_fractionText {digits : List Char} {c : Char} (h : c ∈ fractionText digits) :
    c = '.' ∨ c ∈ digits := by
  unfold fractionText at h
  split at h
  · cases h
  · next digit rest htrim =>
      rcases List.mem_cons.1 h with hdot | hmem
      · exact Or.inl hdot
      · rw [← htrim, List.mem_reverse] at hmem
        exact Or.inr (List.mem_reverse.1 ((List.dropWhile_sublist _).subset hmem))

/-- Every character is a digit or one of the three marks of the exponent form. -/
theorem formatG14_chars {x : Nat} {c : Char} (h : c ∈ formatG14 x) :
    c.isDigit = true ∨ c = '.' ∨ c = 'e' ∨ c = '+' := by
  unfold formatG14 at h
  split at h
  · exact Or.inl (isDigit_of_mem_decimal h)
  · dsimp only at h
    simp only [List.mem_append, List.mem_cons] at h
    rcases h with (hlead | hfrac) | he | hplus | hexp
    · exact Or.inl (isDigit_of_mem_decimal (List.mem_of_mem_take hlead))
    · rcases mem_fractionText hfrac with hdot | hmem
      · exact Or.inr (Or.inl hdot)
      · exact Or.inl (isDigit_of_mem_decimal (List.mem_of_mem_tail hmem))
    · exact Or.inr (Or.inr (Or.inl he))
    · exact Or.inr (Or.inr (Or.inr hplus))
    · exact Or.inl (isDigit_of_mem_decimal hexp)

end Lib
end Maju
