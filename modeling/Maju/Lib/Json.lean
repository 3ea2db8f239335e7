import Maju.Lib.Decimal
import Maju.Lib.Hex
import Mathlib.Data.List.Basic
import Mathlib.Data.List.TakeWhile

/-!
# Json — compact JSON text and its parser

`Json.print` writes a value without whitespace, as a compact serializer does, and `Json.decode`
reads JSON text with whitespace and every escape.  Numbers are kept as their tokens.  The round trip
`decode_print` says that what is printed is read back; it is by induction on the value, with the
fuel of the parser bounded by the text it is given.
-/

namespace Maju
namespace Lib

/-- A JSON value; a number is its token. -/
inductive Json where
  | null
  | bool (b : Bool)
  | num (token : List Char)
  | str (s : List Char)
  | arr (items : List Json)
  | obj (members : List (List Char × Json))

namespace Json

/-! ## Access -/

/-- The member with a name; of several the last counts, as when a map is filled in order. -/
def get (v : Json) (name : String) : Option Json :=
  match v with
  | .obj members => (members.reverse.find? fun e => e.1 = name.toList).map Prod.snd
  | _ => none

def index (v : Json) (name : String) : Json := (v.get name).getD .null

def asStr : Json → Option (List Char)
  | .str s => some s
  | _ => none

def isObject : Json → Bool
  | .obj _ => true
  | _ => false

/-! ## Printing -/

/-- One character inside a string literal. -/
def escapeChar (c : Char) : List Char :=
  if c = '"' then ['\\', '"']
  else if c = '\\' then ['\\', '\\']
  else if c.toNat = 8 then ['\\', 'b']
  else if c.toNat = 9 then ['\\', 't']
  else if c.toNat = 10 then ['\\', 'n']
  else if c.toNat = 12 then ['\\', 'f']
  else if c.toNat = 13 then ['\\', 'r']
  else if c.toNat < 32 then ['\\', 'u', '0', '0', hexDigit (c.toNat / 16), hexDigit (c.toNat % 16)]
  else [c]

/-- Most characters are written as they are. -/
theorem escapeChar_eq_self {c : Char} (hquote : c ≠ '"') (hback : c ≠ '\\')
    (hspace : 32 ≤ c.toNat) : escapeChar c = [c] := by
  unfold escapeChar
  rw [if_neg hquote, if_neg hback, if_neg (by omega), if_neg (by omega), if_neg (by omega),
    if_neg (by omega), if_neg (by omega), if_neg (by omega)]

/-- A class of characters without quotation marks, backslashes and control characters. -/
theorem escapeChar_of_forall {p : Char → Bool} (hquote : p '"' = false) (hback : p '\\' = false)
    (hcontrol : ∀ n < 32, p (Char.ofNat n) = false) {c : Char} (h : p c = true) :
    escapeChar c = [c] := by
  have hnot : ∀ d : Char, p d = false → c ≠ d := by
    rintro d hd rfl
    exact Bool.false_ne_true (hd.symm.trans h)
  refine escapeChar_eq_self (hnot _ hquote) (hnot _ hback) ?_
  by_contra hlow
  exact hnot _ (hcontrol c.toNat (Nat.lt_of_not_le hlow)) (Char.ofNat_toNat c).symm

/-- A string literal without its opening quote. -/
def quoteTail : List Char → List Char
  | [] => ['"']
  | c :: s => escapeChar c ++ quoteTail s

def quote (s : List Char) : List Char := '"' :: quoteTail s

/-- A text that needs no escapes between its quotes. -/
theorem quote_eq {s : List Char} (h : ∀ c ∈ s, escapeChar c = [c]) :
    quote s = '"' :: (s ++ ['"']) := by
  have htail : quoteTail s = s ++ ['"'] := by
    induction s with
    | nil => rfl
    | cons c s ih =>
        rw [quoteTail, h c List.mem_cons_self, ih fun d hd => h d (List.mem_cons_of_mem c hd)]
        rfl
  rw [quote, htail]

mutual

def print : Json → List Char
  | .null => ['n', 'u', 'l', 'l']
  | .bool true => ['t', 'r', 'u', 'e']
  | .bool false => ['f', 'a', 'l', 's', 'e']
  | .num token => token
  | .str s => quote s
  | .arr [] => ['[', ']']
  | .arr (v :: vs) => '[' :: (print v ++ printItems vs)
  | .obj [] => ['\x7b', '\x7d']
  | .obj ((k, v) :: ms) => '\x7b' :: (quote k ++ ':' :: (print v ++ printMembers ms))

/-- The items after the first, with the closing bracket. -/
def printItems : List Json → List Char
  | [] => [']']
  | v :: vs => ',' :: (print v ++ printItems vs)

/-- The members after the first, with the closing brace. -/
def printMembers : List (List Char × Json) → List Char
  | [] => ['\x7d']
  | (k, v) :: ms => ',' :: (quote k ++ ':' :: (print v ++ printMembers ms))

end

/-! ## Parsing -/

def isSpace (c : Char) : Bool := c = ' ' || c = '\n' || c = '\r' || c = '\t'

def skipSpace (text : List Char) : List Char := text.dropWhile isSpace

def isNumChar (c : Char) : Bool := c.isDigit || c = '-' || c = '+' || c = '.' || c = 'e' || c = 'E'

def isInteger (digits : List Char) : Bool :=
  digits = ['0'] || (!digits.isEmpty && digits.all Char.isDigit && digits.head? ≠ some '0')

/-- An exponent: an optional sign and digits. -/
def isExponent (text : List Char) : Bool :=
  let digits := match text with
    | '+' :: rest => rest
    | '-' :: rest => rest
    | rest => rest
  !digits.isEmpty && digits.all Char.isDigit

def isNumber (token : List Char) : Bool :=
  let unsigned := match token with
    | '-' :: rest => rest
    | rest => rest
  let mantissa := unsigned.takeWhile fun c => c ≠ 'e' && c ≠ 'E'
  let exponent := unsigned.dropWhile fun c => c ≠ 'e' && c ≠ 'E'
  let integer := mantissa.takeWhile (· ≠ '.')
  let fraction := mantissa.dropWhile (· ≠ '.')
  isInteger integer &&
    (fraction.isEmpty || (!fraction.tail.isEmpty && fraction.tail.all Char.isDigit)) &&
    (exponent.isEmpty || isExponent exponent.tail)

/-- A UTF-16 code unit written by four hexadecimal digits. -/
def parseUnit : List Char → Option (Nat × List Char)
  | a :: b :: c :: d :: rest => (parseHex [a, b, c, d]).map fun n => (n, rest)
  | _ => none

/-- The character behind `\u`, with surrogates in pairs. -/
def parseUnicode (text : List Char) : Option (Char × List Char) :=
  match parseUnit text with
  | none => none
  | some (n, rest) =>
      if 0xD800 ≤ n ∧ n < 0xDC00 then
        match rest with
        | '\\' :: 'u' :: rest =>
            match parseUnit rest with
            | some (m, rest) =>
                if 0xDC00 ≤ m ∧ m < 0xE000 then
                  some (Char.ofNat (0x10000 + (n - 0xD800) * 0x400 + (m - 0xDC00)), rest)
                else none
            | none => none
        | _ => none
      else if 0xDC00 ≤ n ∧ n < 0xE000 then none
      else some (Char.ofNat n, rest)

def parseEscape : List Char → Option (Char × List Char)
  | '"' :: rest => some ('"', rest)
  | '\\' :: rest => some ('\\', rest)
  | '/' :: rest => some ('/', rest)
  | 'b' :: rest => some (Char.ofNat 8, rest)
  | 't' :: rest => some (Char.ofNat 9, rest)
  | 'n' :: rest => some (Char.ofNat 10, rest)
  | 'f' :: rest => some (Char.ofNat 12, rest)
  | 'r' :: rest => some (Char.ofNat 13, rest)
  | 'u' :: rest => parseUnicode rest
  | _ => none

/-- The characters of a string literal behind its opening quote. -/
def parseChars : Nat → List Char → Option (List Char × List Char)
  | 0, _ => none
  | _, [] => none
  | n + 1, c :: rest =>
      if c = '"' then some ([], rest)
      else if c = '\\' then
        match parseEscape rest with
        | some (d, rest) => (parseChars n rest).map fun (s, rest) => (d :: s, rest)
        | none => none
      else if c.toNat < 32 then none
      else (parseChars n rest).map fun (s, rest) => (c :: s, rest)

def parseString (n : Nat) (text : List Char) : Option (List Char × List Char) :=
  match skipSpace text with
  | '"' :: rest => parseChars n rest
  | _ => none

/-- A number token: as many characters as can belong to it. -/
def parseNumber (text : List Char) : Option (Json × List Char) :=
  if isNumber (text.takeWhile isNumChar) then
    some (.num (text.takeWhile isNumChar), text.dropWhile isNumChar)
  else none

def parseColon (text : List Char) : Option (List Char) :=
  match skipSpace text with
  | ':' :: rest => some rest
  | _ => none

mutual

def parse : Nat → List Char → Option (Json × List Char)
  | 0, _ => none
  | n + 1, text =>
      match skipSpace text with
      | 'n' :: 'u' :: 'l' :: 'l' :: rest => some (.null, rest)
      | 't' :: 'r' :: 'u' :: 'e' :: rest => some (.bool true, rest)
      | 'f' :: 'a' :: 'l' :: 's' :: 'e' :: rest => some (.bool false, rest)
      | '"' :: rest => (parseChars n rest).map fun (s, rest) => (.str s, rest)
      | '[' :: rest =>
          match skipSpace rest with
          | ']' :: rest => some (.arr [], rest)
          | rest =>
              (parse n rest).bind fun (v, rest) =>
                (parseItems n rest).map fun (vs, rest) => (.arr (v :: vs), rest)
      | '\x7b' :: rest =>
          match skipSpace rest with
          | '\x7d' :: rest => some (.obj [], rest)
          | rest =>
              (parseString n rest).bind fun (k, rest) =>
                (parseColon rest).bind fun rest =>
                  (parse n rest).bind fun (v, rest) =>
                    (parseMembers n rest).map fun (ms, rest) => (.obj ((k, v) :: ms), rest)
      | text => parseNumber text

/-- The items behind the first, with the closing bracket. -/
def parseItems : Nat → List Char → Option (List Json × List Char)
  | 0, _ => none
  | n + 1, text =>
      match skipSpace text with
      | ']' :: rest => some ([], rest)
      | ',' :: rest =>
          (parse n rest).bind fun (v, rest) =>
            (parseItems n rest).map fun (vs, rest) => (v :: vs, rest)
      | _ => none

/-- The members behind the first, with the closing brace. -/
def parseMembers : Nat → List Char → Option (List (List Char × Json) × List Char)
  | 0, _ => none
  | n + 1, text =>
      match skipSpace text with
      | '\x7d' :: rest => some ([], rest)
      | ',' :: rest =>
          (parseString n rest).bind fun (k, rest) =>
            (parseColon rest).bind fun rest =>
              (parse n rest).bind fun (v, rest) =>
                (parseMembers n rest).map fun (ms, rest) => ((k, v) :: ms, rest)
      | _ => none

end

/-- A whole text: one value and nothing but whitespace behind it. -/
def decode (text : List Char) : Option Json :=
  match parse (text.length + 1) text with
  | some (v, rest) => if skipSpace rest = [] then some v else none
  | none => none

/-! ## Reading back what was printed -/

theorem skipSpace_cons {c : Char} (h : isSpace c = false) (rest : List Char) :
    skipSpace (c :: rest) = c :: rest := by
  simp [skipSpace, h]

/-- A printed character is read back. -/
theorem parseChars_escapeChar (c : Char) {n : Nat} {rest s rest' : List Char}
    (h : parseChars n rest = some (s, rest')) :
    parseChars (n + 1) (escapeChar c ++ rest) = some (c :: s, rest') := by
  have hnat : ∀ k : Nat, c.toNat = k → c = Char.ofNat k := by
    rintro k rfl
    exact (Char.ofNat_toNat c).symm
  unfold escapeChar
  split
  · next hc =>
      subst hc
      simp [parseChars, parseEscape, h]
  split
  · next hc =>
      subst hc
      simp [parseChars, parseEscape, h]
  split
  · next hc => simp [parseChars, parseEscape, h, hnat 8 hc]
  split
  · next hc => simp [parseChars, parseEscape, h, hnat 9 hc]
  split
  · next hc => simp [parseChars, parseEscape, h, hnat 10 hc]
  split
  · next hc => simp [parseChars, parseEscape, h, hnat 12 hc]
  split
  · next hc => simp [parseChars, parseEscape, h, hnat 13 hc]
  split
  · -- another control character, by its two low digits
    next hc =>
      have hunit : parseHex ['0', '0', hexDigit (c.toNat / 16), hexDigit (c.toNat % 16)] =
          some c.toNat := by
        have hdigits : ['0', '0', hexDigit (c.toNat / 16), hexDigit (c.toNat % 16)] =
            hexDigits 4 c.toNat := by
          have h0 : c.toNat / 16 / 16 = 0 := by omega
          have h1 : c.toNat / 16 % 16 = c.toNat / 16 := by omega
          simp [hexDigits, h0, h1, hexDigit]
        rw [hdigits]
        exact parseHex_hexDigits (by omega)
      have hlow : ¬(0xD800 ≤ c.toNat ∧ c.toNat < 0xDC00) := by omega
      have hlow' : ¬(0xDC00 ≤ c.toNat ∧ c.toNat < 0xE000) := by omega
      simp [parseChars, parseEscape, parseUnicode, parseUnit, hunit, hlow, hlow', h]
  · next hquote hback _ _ _ _ _ hctl =>
      simp [parseChars, hquote, hback, hctl, h]

theorem length_escapeChar_pos (c : Char) : 1 ≤ (escapeChar c).length := by
  unfold escapeChar
  split_ifs <;> simp

/-- A printed string literal is read back. -/
theorem parseChars_quoteTail {s : List Char} {n : Nat} (hn : (quoteTail s).length ≤ n)
    (rest : List Char) : parseChars n (quoteTail s ++ rest) = some (s, rest) := by
  induction s generalizing n with
  | nil =>
      cases n with
      | zero => simp [quoteTail] at hn
      | succ n => simp [quoteTail, parseChars]
  | cons c s ih =>
      have hpos := length_escapeChar_pos c
      simp only [quoteTail, List.length_append] at hn
      cases n with
      | zero => omega
      | succ n =>
          rw [quoteTail, List.append_assoc]
          exact parseChars_escapeChar c (ih (by omega))

theorem parseString_quote {s : List Char} {n : Nat} (hn : (quote s).length ≤ n + 1)
    (rest : List Char) : parseString n (quote s ++ rest) = some (s, rest) := by
  have hlength : (quoteTail s).length ≤ n := by
    simp only [quote, List.length_cons] at hn
    omega
  simp only [parseString, quote, List.cons_append, skipSpace_cons (by decide : isSpace '"' = false)]
  exact parseChars_quoteTail hlength rest

/-- The text behind a value does not continue a number. -/
def Ends (rest : List Char) : Prop := ∀ c, rest.head? = some c → isNumChar c = false

theorem ends_nil : Ends [] := by
  intro c h
  cases h

theorem ends_cons {c : Char} (h : isNumChar c = false) (rest : List Char) : Ends (c :: rest) := by
  intro d hd
  cases hd
  exact h

mutual

def Valid : Json → Prop
  | .num token => isNumber token = true ∧ ∀ c ∈ token, isNumChar c = true
  | .arr items => ValidItems items
  | .obj members => ValidMembers members
  | _ => True

def ValidItems : List Json → Prop
  | [] => True
  | v :: vs => Valid v ∧ ValidItems vs

def ValidMembers : List (List Char × Json) → Prop
  | [] => True
  | (_, v) :: ms => Valid v ∧ ValidMembers ms

end

/-- A number token starts with a digit or a minus sign. -/
theorem head_of_isNumber {token : List Char} (h : isNumber token = true) :
    ∃ c rest, token = c :: rest ∧ (c.isDigit = true ∨ c = '-') := by
  cases token with
  | nil => cases h
  | cons c rest =>
      refine ⟨c, rest, rfl, ?_⟩
      by_cases hminus : c = '-'
      · exact Or.inr hminus
      · refine Or.inl ?_
        -- the integer part is not empty and starts with the first character
        by_cases hmark : c = 'e' ∨ c = 'E' ∨ c = '.'
        · rcases hmark with rfl | rfl | rfl <;> simp [isNumber, isInteger] at h
        · simp only [not_or] at hmark
          unfold isNumber at h
          split at h
          · next rest' heq =>
              exact absurd (List.cons.inj heq).1 hminus
          · simp only [List.takeWhile_cons, hmark.1, hmark.2.1, hmark.2.2, decide_not, decide_false,
              Bool.not_false, Bool.and_self, if_true, Bool.and_eq_true] at h
            have hint := h.1.1
            unfold isInteger at hint
            simp only [Bool.or_eq_true, Bool.and_eq_true, List.all_cons, decide_eq_true_eq] at hint
            rcases hint with hzero | ⟨⟨_, hdigit, _⟩, _⟩
            · rw [(List.cons.inj hzero).1]
              decide
            · exact hdigit

/-- A number token ends where the next character cannot belong to it. -/
theorem parseNumber_append {token rest : List Char} (h : isNumber token = true)
    (hchars : ∀ c ∈ token, isNumChar c = true) (hrest : Ends rest) :
    parseNumber (token ++ rest) = some (.num token, rest) := by
  have htake : rest.takeWhile isNumChar = [] := by
    cases rest with
    | nil => rfl
    | cons c rest => simp [hrest c rfl]
  have hdrop : rest.dropWhile isNumChar = rest := by
    cases rest with
    | nil => rfl
    | cons c rest => simp [hrest c rfl]
  have htoken : (token ++ rest).takeWhile isNumChar = token := by
    rw [List.takeWhile_append_of_pos hchars, htake, List.append_nil]
  have hbehind : (token ++ rest).dropWhile isNumChar = rest := by
    rw [List.dropWhile_append_of_pos hchars, hdrop]
  rw [parseNumber, htoken, hbehind, if_pos h]

/-- A printed value starts with a character that is neither space nor a closing bracket. -/
theorem print_head {v : Json} (h : Valid v) :
    ∃ c rest, print v = c :: rest ∧ isSpace c = false ∧ c ≠ ']' := by
  cases v with
  | null => exact ⟨'n', _, rfl, rfl, by decide⟩
  | bool b => cases b with
      | true => exact ⟨'t', _, rfl, rfl, by decide⟩
      | false => exact ⟨'f', _, rfl, rfl, by decide⟩
  | num token =>
      rcases head_of_isNumber h.1 with ⟨c, rest, htoken, hc⟩
      refine ⟨c, rest, htoken, ?_, ?_⟩
      · rcases hc with hdigit | rfl
        · by_contra hspace
          simp only [isSpace, Bool.not_eq_false, Bool.or_eq_true, decide_eq_true_eq] at hspace
          rcases hspace with ((rfl | rfl) | rfl) | rfl <;> cases hdigit
        · rfl
      · rintro rfl
        rcases hc with hdigit | heq
        · cases hdigit
        · cases heq
  | str s => exact ⟨'"', _, rfl, rfl, by decide⟩
  | arr items => cases items with
      | nil => exact ⟨'[', _, rfl, rfl, by decide⟩
      | cons v vs => exact ⟨'[', _, rfl, rfl, by decide⟩
  | obj members => cases members with
      | nil => exact ⟨'\x7b', _, rfl, rfl, by decide⟩
      | cons m ms => exact ⟨'\x7b', _, rfl, rfl, by decide⟩

theorem ends_printItems (vs : List Json) (rest : List Char) : Ends (printItems vs ++ rest) := by
  cases vs with
  | nil => exact ends_cons (by decide) _
  | cons v vs => exact ends_cons (by decide) _

theorem ends_printMembers (ms : List (List Char × Json)) (rest : List Char) :
    Ends (printMembers ms ++ rest) := by
  cases ms with
  | nil => exact ends_cons (by decide) _
  | cons m ms => exact ends_cons (by decide) _

theorem parse_num {token : List Char} (h : Valid (.num token)) (n : Nat) {rest : List Char}
    (hrest : Ends rest) : parse (n + 1) (token ++ rest) = some (.num token, rest) := by
  rcases head_of_isNumber h.1 with ⟨c, cs, rfl, hc⟩
  have hnumber := parseNumber_append h.1 h.2 hrest
  have hspace : isSpace c = false := by
    rcases print_head h with ⟨d, ds, hprint, hspace, _⟩
    have hd : c = d := (List.cons.inj hprint).1
    rw [hd]
    exact hspace
  rw [List.cons_append] at hnumber ⊢
  rw [parse, skipSpace_cons hspace]
  -- no other form of value starts with a digit or a minus sign
  split
  case h_7 => exact hnumber
  all_goals
    next heq =>
      have hfirst := (List.cons.inj heq).1
      subst hfirst
      rcases hc with hdigit | hminus
      · cases hdigit
      · cases hminus

mutual

/-- A printed value is read back, with as much fuel as it has characters. -/
theorem parse_print : ∀ (v : Json) (n : Nat) (rest : List Char), (print v).length ≤ n → Valid v →
    Ends rest → parse n (print v ++ rest) = some (v, rest)
  | v, 0, rest, hn, hv, _ => by
      rcases print_head hv with ⟨c, cs, hprint, _⟩
      simp [hprint] at hn
  | .null, n + 1, rest, _, _, _ => by
      simp [print, parse, skipSpace, isSpace]
  | .bool true, n + 1, rest, _, _, _ => by
      simp [print, parse, skipSpace, isSpace]
  | .bool false, n + 1, rest, _, _, _ => by
      simp [print, parse, skipSpace, isSpace]
  | .num token, n + 1, rest, _, hv, hrest => by
      rw [print]
      exact parse_num hv n hrest
  | .str s, n + 1, rest, hn, _, _ => by
      have hlength : (quoteTail s).length ≤ n := by
        simp only [print, quote, List.length_cons] at hn
        omega
      have hread := parseChars_quoteTail hlength rest
      simp [print, quote, parse, skipSpace, isSpace, hread]
  | .arr [], n + 1, rest, _, _, _ => by
      simp [print, parse, skipSpace, isSpace]
  | .arr (v :: vs), n + 1, rest, hn, hv, _ => by
      simp only [print, List.length_cons, List.length_append] at hn
      have hfirst := parse_print v n (printItems vs ++ rest) (by omega) hv.1
        (ends_printItems vs rest)
      have hitems := parseItems_printItems vs n rest (by omega) hv.2
      rcases print_head hv.1 with ⟨c, cs, hprint, hspace, hclose⟩
      rw [hprint, List.cons_append] at hfirst
      simp only [print, hprint, List.cons_append, List.append_assoc, parse,
        skipSpace_cons (by decide : isSpace '[' = false), skipSpace_cons hspace]
      split
      · next heq => exact absurd (List.cons.inj heq).1 hclose
      · simp only [hfirst, Option.bind_some, hitems, Option.map_some]
  | .obj [], n + 1, rest, _, _, _ => by
      simp [print, parse, skipSpace, isSpace]
  | .obj ((k, v) :: ms), n + 1, rest, hn, hv, _ => by
      simp only [print, List.length_cons, List.length_append] at hn
      have hkey := parseString_quote (s := k) (n := n) (by omega)
        (':' :: (print v ++ (printMembers ms ++ rest)))
      have hvalue := parse_print v n (printMembers ms ++ rest) (by omega) hv.1
        (ends_printMembers ms rest)
      have hmembers := parseMembers_printMembers ms n rest (by omega) hv.2
      have hcolon : parseColon (':' :: (print v ++ (printMembers ms ++ rest))) =
          some (print v ++ (printMembers ms ++ rest)) := by
        simp [parseColon, skipSpace, isSpace]
      rw [quote, List.cons_append] at hkey
      simp only [print, quote, List.cons_append, List.append_assoc, parse,
        skipSpace_cons (by decide : isSpace '\x7b' = false),
        skipSpace_cons (by decide : isSpace '"' = false)]
      split
      · next heq => exact absurd (List.cons.inj heq).1 (by decide)
      · simp only [hkey, Option.bind_some, hcolon, hvalue, hmembers, Option.map_some]

theorem parseItems_printItems : ∀ (vs : List Json) (n : Nat) (rest : List Char),
    (printItems vs).length ≤ n → ValidItems vs →
      parseItems n (printItems vs ++ rest) = some (vs, rest)
  | [], 0, rest, hn, _ => by
      simp [printItems] at hn
  | _ :: _, 0, rest, hn, _ => by
      simp [printItems] at hn
  | [], n + 1, rest, _, _ => by
      simp [printItems, parseItems, skipSpace, isSpace]
  | v :: vs, n + 1, rest, hn, hv => by
      simp only [printItems, List.length_cons, List.length_append] at hn
      have hfirst := parse_print v n (printItems vs ++ rest) (by omega) hv.1
        (ends_printItems vs rest)
      have hitems := parseItems_printItems vs n rest (by omega) hv.2
      simp only [printItems, List.cons_append, List.append_assoc, parseItems,
        skipSpace_cons (by decide : isSpace ',' = false), hfirst, Option.bind_some, hitems,
        Option.map_some]

theorem parseMembers_printMembers : ∀ (ms : List (List Char × Json)) (n : Nat) (rest : List Char),
    (printMembers ms).length ≤ n → ValidMembers ms →
      parseMembers n (printMembers ms ++ rest) = some (ms, rest)
  | [], 0, rest, hn, _ => by
      simp [printMembers] at hn
  | _ :: _, 0, rest, hn, _ => by
      simp [printMembers] at hn
  | [], n + 1, rest, _, _ => by
      simp [printMembers, parseMembers, skipSpace, isSpace]
  | (k, v) :: ms, n + 1, rest, hn, hv => by
      simp only [printMembers, List.length_cons, List.length_append] at hn
      have hkey := parseString_quote (s := k) (n := n) (by omega)
        (':' :: (print v ++ (printMembers ms ++ rest)))
      have hvalue := parse_print v n (printMembers ms ++ rest) (by omega) hv.1
        (ends_printMembers ms rest)
      have hmembers := parseMembers_printMembers ms n rest (by omega) hv.2
      have hcolon : parseColon (':' :: (print v ++ (printMembers ms ++ rest))) =
          some (print v ++ (printMembers ms ++ rest)) := by
        simp [parseColon, skipSpace, isSpace]
      simp only [printMembers, List.cons_append, List.append_assoc, parseMembers,
        skipSpace_cons (by decide : isSpace ',' = false), hkey, Option.bind_some, hcolon, hvalue,
        hmembers, Option.map_some]

end

/-- A printed value decodes to itself. -/
theorem decode_print {v : Json} (h : Valid v) : decode (print v) = some v := by
  have hparse := parse_print v ((print v).length + 1) [] (Nat.le_succ _) h ends_nil
  rw [List.append_nil] at hparse
  rw [decode, hparse]
  rfl

/-- Different valid values have different texts. -/
theorem print_injOn {v w : Json} (hv : Valid v) (hw : Valid w) (h : print v = print w) : v = w := by
  have hdecode := congrArg decode h
  rw [decode_print hv, decode_print hw] at hdecode
  exact Option.some.inj hdecode

/-! ## Decimal numbers as tokens -/

theorem isNumChar_of_mem_decimal {n : Nat} {c : Char} (h : c ∈ decimal n) :
    isNumChar c = true := by
  simp [isNumChar, isDigit_of_mem_decimal h]

theorem isNumber_decimal (n : Nat) : isNumber (decimal n) = true := by
  have hall : (decimal n).all Char.isDigit = true :=
    List.all_eq_true.2 fun _ hc => isDigit_of_mem_decimal hc
  have hnot : ∀ mark : Char, mark.isDigit = false → ∀ c ∈ decimal n, c ≠ mark := by
    intro mark hmark c hc heq
    have hdigit := isDigit_of_mem_decimal hc
    rw [heq, hmark] at hdigit
    cases hdigit
  have hmantissa : ∀ c ∈ decimal n, (c ≠ 'e' && c ≠ 'E') = true := by
    intro c hc
    simp [hnot 'e' (by decide) c hc, hnot 'E' (by decide) c hc]
  have hinteger : ∀ c ∈ decimal n, (decide (c ≠ '.')) = true := by
    intro c hc
    simp [hnot '.' (by decide) c hc]
  have htake := List.takeWhile_eq_self_iff.2 hmantissa
  have hdrop := List.dropWhile_eq_nil_iff.2 hmantissa
  have htake' := List.takeWhile_eq_self_iff.2 hinteger
  have hdrop' := List.dropWhile_eq_nil_iff.2 hinteger
  have hint : isInteger (decimal n) = true := by
    rcases Nat.eq_zero_or_pos n with rfl | hpos
    · decide
    · have hhead := head?_decimal_ne hpos
      have hne : (decimal n).isEmpty = false := by
        simpa using decimal_ne_nil n
      simp [isInteger, hne, hall, hhead]
  unfold isNumber
  split
  · next rest heq =>
      have hminus := hnot '-' (by decide) '-' (by rw [heq]; exact List.mem_cons_self)
      exact absurd rfl hminus
  · simp only [htake, hdrop, htake', hdrop', hint]
    rfl

/-- A fraction behind a zero. -/
theorem isNumber_fraction {digits : List Char} (hne : digits ≠ [])
    (hall : ∀ c ∈ digits, c.isDigit = true) : isNumber ('0' :: '.' :: digits) = true := by
  have hmantissa : ∀ c ∈ digits, (!decide (c = 'e') && !decide (c = 'E')) = true := by
    intro c hc
    have hdigit := hall c hc
    by_cases he : c = 'e' ∨ c = 'E'
    · rcases he with rfl | rfl <;> cases hdigit
    · simpa [not_or] using he
  have htake := List.takeWhile_eq_self_iff.2 hmantissa
  have hdrop := List.dropWhile_eq_nil_iff.2 hmantissa
  have hempty : digits.isEmpty = false := by simpa using hne
  have hdigits := List.all_eq_true.2 hall
  simp only [isNumber, decide_not, ne_eq]
  simp [htake, hdrop, hempty, hdigits, isInteger]

/-- A minus sign before an unsigned token. -/
theorem isNumber_neg {token : List Char} (hsign : token.head? ≠ some '-') :
    isNumber ('-' :: token) = isNumber token := by
  unfold isNumber
  split
  · next rest heq =>
      obtain rfl := (List.cons.inj heq).2
      split
      · simp at hsign
      · rfl
  · next hnot => exact absurd rfl (hnot token)

/-! ## Characters of a text -/

-- through `all`, since `decide` on a quantifier over `Char` may run through every character
theorem le_of_all {cs : List Char} (h : cs.all (fun c => decide (32 ≤ c.toNat)) = true) :
    ∀ c ∈ cs, 32 ≤ c.toNat :=
  fun c hc => of_decide_eq_true (List.all_eq_true.1 h c hc)

theorem le_of_mem_escapeChar {c d : Char} (h : d ∈ escapeChar c) : 32 ≤ d.toNat := by
  by_cases hlow : c.toNat < 32
  · have hall : ∀ n < 32,
        (escapeChar (Char.ofNat n)).all (fun c => decide (32 ≤ c.toNat)) = true := by decide
    exact le_of_all (hall c.toNat hlow) d (by rwa [Char.ofNat_toNat])
  · by_cases hmark : c = '"' ∨ c = '\\'
    · rcases hmark with rfl | rfl
      · exact le_of_all (by decide) d h
      · exact le_of_all (by decide) d h
    · rw [not_or] at hmark
      rw [escapeChar_eq_self hmark.1 hmark.2 (Nat.le_of_not_lt hlow)] at h
      rw [List.mem_singleton.1 h]
      exact Nat.le_of_not_lt hlow

theorem le_of_mem_quote (s : List Char) : ∀ c ∈ quote s, 32 ≤ c.toNat := by
  have htail : ∀ c ∈ quoteTail s, 32 ≤ c.toNat := by
    induction s with
    | nil => exact le_of_all (by decide)
    | cons c s ih =>
        exact List.forall_mem_append.2 ⟨fun d hd => le_of_mem_escapeChar hd, ih⟩
  exact List.forall_mem_cons.2 ⟨by decide, htail⟩

theorem le_of_isNumChar {c : Char} (h : isNumChar c = true) : 32 ≤ c.toNat := by
  by_contra hlow
  have hall : ∀ n < 32, isNumChar (Char.ofNat n) = false := by decide
  have hc := hall c.toNat (Nat.lt_of_not_le hlow)
  rw [Char.ofNat_toNat, h] at hc
  cases hc

mutual

/-- A printed value has no control characters. -/
theorem le_of_mem_print : ∀ v : Json, Valid v → ∀ c ∈ print v, 32 ≤ c.toNat
  | .null, _ => le_of_all (by decide)
  | .bool true, _ => le_of_all (by decide)
  | .bool false, _ => le_of_all (by decide)
  | .num _, h => fun c hc => le_of_isNumChar (h.2 c hc)
  | .str s, _ => le_of_mem_quote s
  | .arr [], _ => le_of_all (by decide)
  | .arr (v :: vs), h =>
      List.forall_mem_cons.2 ⟨by decide,
        List.forall_mem_append.2 ⟨le_of_mem_print v h.1, le_of_mem_printItems vs h.2⟩⟩
  | .obj [], _ => le_of_all (by decide)
  | .obj ((k, v) :: ms), h =>
      List.forall_mem_cons.2 ⟨by decide, List.forall_mem_append.2 ⟨le_of_mem_quote k,
        List.forall_mem_cons.2 ⟨by decide,
          List.forall_mem_append.2 ⟨le_of_mem_print v h.1, le_of_mem_printMembers ms h.2⟩⟩⟩⟩

theorem le_of_mem_printItems : ∀ vs : List Json, ValidItems vs →
    ∀ c ∈ printItems vs, 32 ≤ c.toNat
  | [], _ => le_of_all (by decide)
  | v :: vs, h =>
      List.forall_mem_cons.2 ⟨by decide,
        List.forall_mem_append.2 ⟨le_of_mem_print v h.1, le_of_mem_printItems vs h.2⟩⟩

theorem le_of_mem_printMembers : ∀ ms : List (List Char × Json), ValidMembers ms →
    ∀ c ∈ printMembers ms, 32 ≤ c.toNat
  | [], _ => le_of_all (by decide)
  | (k, v) :: ms, h =>
      List.forall_mem_cons.2 ⟨by decide, List.forall_mem_append.2 ⟨le_of_mem_quote k,
        List.forall_mem_cons.2 ⟨by decide,
          List.forall_mem_append.2 ⟨le_of_mem_print v h.1, le_of_mem_printMembers ms h.2⟩⟩⟩⟩

end

end Json
end Lib
end Maju
