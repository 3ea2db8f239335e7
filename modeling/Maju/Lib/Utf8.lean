import Maju.Lib.Bytes
import Maju.Lib.Hex

/-!
# Utf8 — text as bytes, and percent-encoded bytes

`encode` is the UTF-8 form of a text, and `decodeUtf8` reads it.  `percentEncode` writes bytes as
text of letters, digits and percent triplets; `percentDecode` reads a text back to bytes, where a
percent sign without two hexadecimal digits behind it stands for itself.

* `encode_injective` — different texts have different bytes;
* `percentDecode_percentEncode` — what is written is read back;
* `not_mem_percentEncode` — only letters, digits and percent signs are written.
-/

namespace Maju
namespace Lib

/-! ## UTF-8 -/

/-- The UTF-8 bytes of a text. -/
def encode (text : List Char) : Bytes := text.flatMap String.utf8EncodeChar

theorem encode_append (x y : List Char) : encode (x ++ y) = encode x ++ encode y :=
  List.flatMap_append

theorem encode_cons (c : Char) (x : List Char) :
    encode (c :: x) = String.utf8EncodeChar c ++ encode x :=
  List.flatMap_cons

theorem encode_injective : Function.Injective encode := by
  intro x y h
  have hbytes : x.utf8Encode = y.utf8Encode := congrArg List.toByteArray h
  have hstring : String.ofList x = String.ofList y := by
    apply String.toByteArray_inj.1
    simpa using hbytes
  exact String.ofList_injective hstring

/-- A text without control characters has no bytes of control characters. -/
theorem le_of_mem_encode {text : List Char} (h : ∀ c ∈ text, 32 ≤ c.toNat) {b : UInt8}
    (hb : b ∈ encode text) : 32 ≤ b.toNat := by
  obtain ⟨c, hc, hb⟩ := List.mem_flatMap.1 hb
  have hall : ∀ v : Nat, 32 ≤ v → ∀ b ∈
      (if v ≤ 127 then [UInt8.ofNat v]
      else if v ≤ 2047 then [UInt8.ofNat (v / 64 % 32 + 192), UInt8.ofNat (v % 64 + 128)]
      else if v ≤ 65535 then
        [UInt8.ofNat (v / 4096 % 16 + 224), UInt8.ofNat (v / 64 % 64 + 128),
          UInt8.ofNat (v % 64 + 128)]
      else
        [UInt8.ofNat (v / 262144 % 8 + 240), UInt8.ofNat (v / 4096 % 64 + 128),
          UInt8.ofNat (v / 64 % 64 + 128), UInt8.ofNat (v % 64 + 128)]), 32 ≤ b.toNat := by
    intro v hv b hb
    split at hb
    · rw [List.mem_singleton.1 hb, UInt8.toNat_ofNat']
      omega
    · have hofNat : ∀ n, 128 ≤ n → n < 256 → 32 ≤ (UInt8.ofNat n).toNat := by
        intro n hlow hhigh
        rw [UInt8.toNat_ofNat', Nat.mod_eq_of_lt hhigh]
        omega
      split at hb
      · rcases List.mem_pair.1 hb with rfl | rfl <;> exact hofNat _ (by omega) (by omega)
      · split at hb <;>
        · simp only [List.mem_cons, List.not_mem_nil, or_false] at hb
          rcases hb with rfl | rfl | hb <;> try rcases hb with rfl | rfl
          all_goals exact hofNat _ (by omega) (by omega)
  exact hall c.val.toNat (h c hc) b hb

/-- The text of UTF-8 bytes. -/
def decodeUtf8 (bytes : Bytes) : Option (List Char) :=
  (List.toByteArray bytes).utf8Decode?.map Array.toList

theorem decodeUtf8_encode (text : List Char) : decodeUtf8 (encode text) = some text := by
  have hdecode : (List.toByteArray (encode text)).utf8Decode? = some text.toArray :=
    List.utf8Decode?_utf8Encode
  rw [decodeUtf8, hdecode]
  rfl

/-- What is read has the bytes it was read from. -/
theorem encode_of_decodeUtf8 {bytes : Bytes} {text : List Char} (h : decodeUtf8 bytes = some text) :
    encode text = bytes := by
  have hvalid : (List.toByteArray bytes).utf8Decode?.isSome = true := by
    rw [decodeUtf8] at h
    obtain ⟨chars, hchars, -⟩ := Option.map_eq_some_iff.1 h
    rw [hchars, Option.isSome_some]
  obtain ⟨m, hm⟩ := ByteArray.isSome_utf8Decode?_iff.1 hvalid
  have hbytes : bytes = encode m := by
    have hlist := congrArg (fun b : ByteArray => b.data.toList) hm
    simpa [List.utf8Encode, encode] using hlist
  rw [hbytes, decodeUtf8_encode] at h
  rw [hbytes, Option.some.inj h]

/-! ## Percent encoding -/

/-- The uppercase digit of a number below sixteen. -/
def hexDigitUpper (d : Nat) : Char :=
  if d < 10 then Char.ofNat (48 + d) else Char.ofNat (55 + d)

def isAlnumByte (b : UInt8) : Bool := (Char.ofNat b.toNat).isAlphanum

/-- One byte: itself if it is an ASCII letter or digit, else a percent triplet. -/
def percentByte (b : UInt8) : List Char :=
  if isAlnumByte b then [Char.ofNat b.toNat]
  else ['%', hexDigitUpper (b.toNat / 16), hexDigitUpper (b.toNat % 16)]

/-- `utf8_percent_encode(_, NON_ALPHANUMERIC)`, on bytes. -/
def percentEncode (bytes : Bytes) : List Char := bytes.flatMap percentByte

/-- `percent_decode_str`. -/
def percentDecode : List Char → Bytes
  | [] => []
  | [c] => String.utf8EncodeChar c
  | [c, d] => String.utf8EncodeChar c ++ String.utf8EncodeChar d
  | c :: d :: e :: rest =>
      if c = '%' then
        match hexValue d, hexValue e with
        | some x, some y => UInt8.ofNat (x * 16 + y) :: percentDecode rest
        | _, _ => String.utf8EncodeChar c ++ percentDecode (d :: e :: rest)
      else String.utf8EncodeChar c ++ percentDecode (d :: e :: rest)

theorem hexValue_hexDigitUpper : ∀ d < 16, hexValue (hexDigitUpper d) = some d := by
  decide

theorem percentDecode_cons {c : Char} (hc : c ≠ '%') (rest : List Char) :
    percentDecode (c :: rest) = String.utf8EncodeChar c ++ percentDecode rest := by
  match rest with
  | [] => simp [percentDecode]
  | [d] => simp [percentDecode]
  | d :: e :: rest => rw [percentDecode, if_neg hc]

theorem percentDecode_triplet {x y : Nat} (hx : x < 16) (hy : y < 16) (rest : List Char) :
    percentDecode ('%' :: hexDigitUpper x :: hexDigitUpper y :: rest) =
      UInt8.ofNat (x * 16 + y) :: percentDecode rest := by
  rw [percentDecode, if_pos rfl, hexValue_hexDigitUpper x hx, hexValue_hexDigitUpper y hy]

/-- The letters and digits are themselves as bytes. -/
theorem utf8EncodeChar_alnum : ∀ n < 256, (Char.ofNat n).isAlphanum = true →
    String.utf8EncodeChar (Char.ofNat n) = [UInt8.ofNat n] ∧ Char.ofNat n ≠ '%' := by
  decide +kernel

theorem percentDecode_percentByte (b : UInt8) (rest : List Char) :
    percentDecode (percentByte b ++ rest) = b :: percentDecode rest := by
  have hlt : b.toNat < 256 := b.toNat_lt
  unfold percentByte
  split
  · next halnum =>
      obtain ⟨hbytes, hne⟩ := utf8EncodeChar_alnum b.toNat hlt halnum
      rw [List.singleton_append, percentDecode_cons hne, hbytes, UInt8.ofNat_toNat]
      rfl
  · have hsum : b.toNat / 16 * 16 + b.toNat % 16 = b.toNat := Nat.div_add_mod' b.toNat 16
    simp only [List.cons_append, List.nil_append]
    rw [percentDecode_triplet (by omega) (by omega), hsum, UInt8.ofNat_toNat]

theorem percentDecode_percentEncode (bytes : Bytes) :
    percentDecode (percentEncode bytes) = bytes := by
  induction bytes with
  | nil => rfl
  | cons b bytes ih =>
      rw [percentEncode, List.flatMap_cons, percentDecode_percentByte]
      exact congrArg (b :: ·) ih

theorem hexDigitUpper_isAlphanum : ∀ d < 16, (hexDigitUpper d).isAlphanum = true := by
  decide

/-- A character that is neither a letter, a digit nor a percent sign is not written. -/
theorem not_mem_percentEncode {c : Char} (halnum : c.isAlphanum = false) (hc : c ≠ '%')
    (bytes : Bytes) : c ∉ percentEncode bytes := by
  intro hmem
  obtain ⟨b, -, hmem⟩ := List.mem_flatMap.1 hmem
  have hnot : ∀ d : Char, d.isAlphanum = true → c ≠ d := by
    rintro d hd rfl
    rw [halnum] at hd
    cases hd
  have hlt : b.toNat < 256 := b.toNat_lt
  unfold percentByte at hmem
  split at hmem
  · next hb => exact hnot _ hb (List.mem_singleton.1 hmem)
  · rcases List.mem_cons.1 hmem with heq | hmem
    · exact hc heq
    · rcases List.mem_cons.1 hmem with heq | hmem
      · exact hnot _ (hexDigitUpper_isAlphanum _ (by omega)) heq
      · exact hnot _ (hexDigitUpper_isAlphanum _ (by omega)) (List.mem_singleton.1 hmem)

end Lib
end Maju
