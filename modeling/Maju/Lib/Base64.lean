import Maju.Lib.Bytes
import Mathlib.Data.List.GetD

/-!
# Base64 — bytes as text, in one way

The standard alphabet with padding.  The decoder takes nothing but what the encoder writes: no
missing or misplaced padding, no bits that are left over, no character outside the alphabet.

* `Base64.encode`, `Base64.decode`;
* `Base64.decode_eq_some_iff` — the two are inverse to each other;
* `Base64.length_encode`, `Base64.mem_encode` — the length of the text and its characters.
-/

namespace Maju
namespace Lib
namespace Base64

def alphabet : List Char :=
  "ABCDEFGHIJKLMNOPQRSTUVWXYZabcdefghijklmnopqrstuvwxyz0123456789+/".toList

/-- The character of a number below 64. -/
def symbol (n : Nat) : Char := alphabet.getD n '='

def value (c : Char) : Option Nat := alphabet.findIdx? (· = c)

/-- Three bytes make four characters; one or two at the end are padded. -/
def encode : Bytes → List Char
  | [] => []
  | [x] => [symbol (x.toNat / 4), symbol (x.toNat % 4 * 16), '=', '=']
  | [x, y] =>
      [symbol (x.toNat / 4), symbol (x.toNat % 4 * 16 + y.toNat / 16), symbol (y.toNat % 16 * 4),
        '=']
  | x :: y :: z :: rest =>
      symbol (x.toNat / 4) :: symbol (x.toNat % 4 * 16 + y.toNat / 16) ::
        symbol (y.toNat % 16 * 4 + z.toNat / 64) :: symbol (z.toNat % 64) :: encode rest

/-- The bytes of a last group that is padded. -/
def decodePadded (a b c d : Char) : Option Bytes :=
  match value a, value b with
  | some m, some n =>
      if c = '=' ∧ d = '=' then
        if n % 16 = 0 then some [UInt8.ofNat (m * 4 + n / 16)] else none
      else
        match value c with
        | some p =>
            if d = '=' ∧ p % 4 = 0 then
              some [UInt8.ofNat (m * 4 + n / 16), UInt8.ofNat (n % 16 * 16 + p / 4)]
            else none
        | none => none
  | _, _ => none

def decodeGroup (a b c d : Char) : Option (UInt8 × UInt8 × UInt8) :=
  match value a, value b, value c, value d with
  | some m, some n, some p, some q =>
      some (UInt8.ofNat (m * 4 + n / 16), UInt8.ofNat (n % 16 * 16 + p / 4),
        UInt8.ofNat (p % 4 * 64 + q))
  | _, _, _, _ => none

/-- Four characters make three bytes; only the last four may be padded. -/
def decode : List Char → Option Bytes
  | [] => some []
  | a :: b :: c :: d :: rest =>
      match decodeGroup a b c d with
      | some (x, y, z) => (decode rest).map fun bytes => x :: y :: z :: bytes
      | none => if rest = [] then decodePadded a b c d else none
  | _ => none

/-! ## One character -/

/-- The alphabet as characters; to evaluate its literal takes the time of the lemmas below. -/
theorem alphabet_eq : alphabet =
    ['A', 'B', 'C', 'D', 'E', 'F', 'G', 'H', 'I', 'J', 'K', 'L', 'M', 'N', 'O', 'P',
     'Q', 'R', 'S', 'T', 'U', 'V', 'W', 'X', 'Y', 'Z', 'a', 'b', 'c', 'd', 'e', 'f',
     'g', 'h', 'i', 'j', 'k', 'l', 'm', 'n', 'o', 'p', 'q', 'r', 's', 't', 'u', 'v',
     'w', 'x', 'y', 'z', '0', '1', '2', '3', '4', '5', '6', '7', '8', '9', '+', '/'] :=
  String.toList_ofList

theorem length_alphabet : alphabet.length = 64 := by
  rw [alphabet_eq]
  rfl

theorem value_symbol : ∀ n < 64, value (symbol n) = some n := by
  unfold value symbol
  rw [alphabet_eq]
  decide +kernel

theorem symbol_mem {n : Nat} (hn : n < 64) : symbol n ∈ alphabet := by
  have hlt : n < alphabet.length := length_alphabet.symm ▸ hn
  rw [symbol, List.getD_eq_getElem _ _ hlt]
  exact List.getElem_mem _

/-- A character is that of its number. -/
theorem symbol_of_value {c : Char} {n : Nat} (h : value c = some n) : symbol n = c ∧ n < 64 := by
  obtain ⟨hlt, hc, -⟩ := List.findIdx?_eq_some_iff_getElem.1 h
  rw [symbol, List.getD_eq_getElem _ _ hlt]
  exact ⟨of_decide_eq_true hc, length_alphabet ▸ hlt⟩

theorem value_pad : value '=' = none := by
  rw [value, alphabet_eq]
  rfl

/-! ## A group -/

theorem ofNat_eq {b : UInt8} {n : Nat} (h : n = b.toNat) : UInt8.ofNat n = b := by
  rw [h, UInt8.ofNat_toNat]

theorem decodeGroup_symbols (x y z : UInt8) :
    decodeGroup (symbol (x.toNat / 4)) (symbol (x.toNat % 4 * 16 + y.toNat / 16))
      (symbol (y.toNat % 16 * 4 + z.toNat / 64)) (symbol (z.toNat % 64)) = some (x, y, z) := by
  have hx := x.toNat_lt
  have hy := y.toNat_lt
  have hz := z.toNat_lt
  rw [decodeGroup, value_symbol _ (by omega), value_symbol _ (by omega), value_symbol _ (by omega),
    value_symbol _ (by omega)]
  simp only [Option.some.injEq, Prod.mk.injEq]
  exact ⟨ofNat_eq (by omega), ofNat_eq (by omega), ofNat_eq (by omega)⟩

/-- A full group is what is written for its bytes. -/
theorem symbols_of_decodeGroup {a b c d : Char} {x y z : UInt8}
    (h : decodeGroup a b c d = some (x, y, z)) :
    a = symbol (x.toNat / 4) ∧ b = symbol (x.toNat % 4 * 16 + y.toNat / 16) ∧
      c = symbol (y.toNat % 16 * 4 + z.toNat / 64) ∧ d = symbol (z.toNat % 64) := by
  unfold decodeGroup at h
  split at h
  · next m n p q hm hn hp hq =>
      obtain ⟨rfl, hm⟩ := symbol_of_value hm
      obtain ⟨rfl, hn⟩ := symbol_of_value hn
      obtain ⟨rfl, hp⟩ := symbol_of_value hp
      obtain ⟨rfl, hq⟩ := symbol_of_value hq
      simp only [Option.some.injEq, Prod.mk.injEq] at h
      obtain ⟨rfl, rfl, rfl⟩ := h
      simp only [UInt8.toNat_ofNat']
      refine ⟨?_, ?_, ?_, ?_⟩
      all_goals
        apply congrArg
        omega
  · cases h

/-- Nor is a padded one anything else. -/
theorem encode_of_decodePadded {a b c d : Char} {bytes : Bytes}
    (h : decodePadded a b c d = some bytes) : encode bytes = [a, b, c, d] := by
  unfold decodePadded at h
  split at h
  · next m n hm hn =>
      obtain ⟨rfl, hm⟩ := symbol_of_value hm
      obtain ⟨rfl, hn⟩ := symbol_of_value hn
      have hfirst : (UInt8.ofNat (m * 4 + n / 16)).toNat = m * 4 + n / 16 := by
        rw [UInt8.toNat_ofNat']
        omega
      have hm' : (m * 4 + n / 16) / 4 = m := by omega
      split_ifs at h with hpad hbits
      · cases h
        have hn' : (m * 4 + n / 16) % 4 * 16 = n := by omega
        rw [encode, hfirst, hm', hn', hpad.1, hpad.2]
      · split at h
        · next p hp =>
            obtain ⟨rfl, hp⟩ := symbol_of_value hp
            split_ifs at h with hlast
            cases h
            have hsecond : (UInt8.ofNat (n % 16 * 16 + p / 4)).toNat = n % 16 * 16 + p / 4 := by
              rw [UInt8.toNat_ofNat']
              omega
            have hn' : (m * 4 + n / 16) % 4 * 16 + (n % 16 * 16 + p / 4) / 16 = n := by omega
            have hp' : (n % 16 * 16 + p / 4) % 16 * 4 = p := by omega
            rw [encode, hfirst, hsecond, hm', hn', hp', hlast.1]
        · cases h
  · cases h

/-- A group that ends in padding is not full. -/
theorem decodeGroup_pad (a b c : Char) : decodeGroup a b c '=' = none := by
  unfold decodeGroup
  rw [value_pad]
  split
  · next hpad => cases hpad
  · rfl

/-! ## Texts -/

theorem decode_encode (bytes : Bytes) : decode (encode bytes) = some bytes := by
  fun_induction encode bytes with
  | case1 => rfl
  | case2 x =>
      have hx := x.toNat_lt
      have hbyte : UInt8.ofNat (x.toNat / 4 * 4 + x.toNat % 4 * 16 / 16) = x := ofNat_eq (by omega)
      rw [decode, decodeGroup_pad]
      simp only [decodePadded, value_symbol (x.toNat / 4) (by omega),
        value_symbol (x.toNat % 4 * 16) (by omega), and_self, if_true, hbyte]
      exact if_pos (by omega)
  | case3 x y =>
      have hx := x.toNat_lt
      have hy := y.toNat_lt
      have hfirst : UInt8.ofNat (x.toNat / 4 * 4 + (x.toNat % 4 * 16 + y.toNat / 16) / 16) = x :=
        ofNat_eq (by omega)
      have hsecond : UInt8.ofNat ((x.toNat % 4 * 16 + y.toNat / 16) % 16 * 16 +
          y.toNat % 16 * 4 / 4) = y := ofNat_eq (by omega)
      have hpad : symbol (y.toNat % 16 * 4) ≠ '=' := by
        intro heq
        have hvalue := value_symbol (y.toNat % 16 * 4) (by omega)
        rw [heq, value_pad] at hvalue
        cases hvalue
      rw [decode, decodeGroup_pad]
      simp only [decodePadded, value_symbol (x.toNat / 4) (by omega),
        value_symbol (x.toNat % 4 * 16 + y.toNat / 16) (by omega),
        value_symbol (y.toNat % 16 * 4) (by omega), hpad, false_and, if_false, if_true, hfirst,
        hsecond, true_and]
      exact if_pos (by omega)
  | case4 x y z rest ih =>
      rw [decode, decodeGroup_symbols, ih]
      rfl

theorem encode_of_decode {text : List Char} {bytes : Bytes} (h : decode text = some bytes) :
    encode bytes = text := by
  fun_induction decode text generalizing bytes with
  | case1 =>
      cases h
      rfl
  | case2 a b c d rest x y z hgroup ih =>
      obtain ⟨tail, htail, rfl⟩ := Option.map_eq_some_iff.1 h
      obtain ⟨rfl, rfl, rfl, rfl⟩ := symbols_of_decodeGroup hgroup
      rw [encode, ih htail]
  | case3 a b c d hgroup => exact encode_of_decodePadded h
  | case4 => cases h
  | case5 => cases h

/-- A text is read if and only if it is what is written for the bytes. -/
theorem decode_eq_some_iff {text : List Char} {bytes : Bytes} :
    decode text = some bytes ↔ text = encode bytes := by
  constructor
  · exact fun h => (encode_of_decode h).symm
  · rintro rfl
    exact decode_encode bytes

/-- Four characters for every three bytes begun. -/
theorem length_encode (bytes : Bytes) : (encode bytes).length = (bytes.length + 2) / 3 * 4 := by
  fun_induction encode bytes with
  | case1 => rfl
  | case2 x => simp
  | case3 x y => simp
  | case4 x y z rest ih =>
      simp only [List.length_cons, ih]
      omega

/-- There is nothing in the text but the alphabet and padding. -/
theorem mem_encode {bytes : Bytes} {c : Char} (h : c ∈ encode bytes) : c ∈ alphabet ∨ c = '=' := by
  fun_induction encode bytes with
  | case1 => cases h
  | case2 x =>
      have hx := x.toNat_lt
      simp only [List.mem_cons, List.not_mem_nil, or_false] at h
      rcases h with rfl | rfl | rfl | rfl
      · exact Or.inl (symbol_mem (by omega))
      · exact Or.inl (symbol_mem (by omega))
      · exact Or.inr rfl
      · exact Or.inr rfl
  | case3 x y =>
      have hx := x.toNat_lt
      have hy := y.toNat_lt
      simp only [List.mem_cons, List.not_mem_nil, or_false] at h
      rcases h with rfl | rfl | rfl | rfl
      · exact Or.inl (symbol_mem (by omega))
      · exact Or.inl (symbol_mem (by omega))
      · exact Or.inl (symbol_mem (by omega))
      · exact Or.inr rfl
  | case4 x y z rest ih =>
      have hx := x.toNat_lt
      have hy := y.toNat_lt
      have hz := z.toNat_lt
      simp only [List.mem_cons] at h
      rcases h with rfl | rfl | rfl | rfl | h
      · exact Or.inl (symbol_mem (by omega))
      · exact Or.inl (symbol_mem (by omega))
      · exact Or.inl (symbol_mem (by omega))
      · exact Or.inl (symbol_mem (by omega))
      · exact ih h

end Base64
end Lib
end Maju
