import Maju.Audit.Chain
import Maju.Lib.Fields
import Maju.Lib.Json
import Maju.Lib.Utf8

/-!
# Preimage — which audit entries are hashed as the same bytes

`compute_hash` feeds the fields of an entry to SHA-256 one after another.  The community and the
number have a fixed width, the time ends in its offset and the action at the first presence tag, so
these four can be read back.  The public key, the object id, the detail and the previous hash have
any length and nothing says where one ends.

* `canonicalJson_injOn` — the text of a detail fixes the detail up to the order of members;
* `header_of_hashInput` — equal preimages agree on the first four fields;
* `preimage_injective_iff` — two entries with the same first four fields have one preimage without
  being the same record exactly when text moves between object id, detail and previous hash, or one
  public key is the other and what follows it there.
-/

namespace Maju
namespace Audit

open Lib Core

/-! ## Details up to the order of members -/

/-- Insert a member by its key; a later member with the same key replaces the earlier one. -/
def insertByKey {α : Type} (key : String) (value : α) : List (String × α) → List (String × α)
  | [] => [(key, value)]
  | (key', value') :: rest =>
      if key = key' then (key, value) :: rest
      else if key < key' then (key, value) :: (key', value') :: rest
      else (key', value') :: insertByKey key value rest

def sortByKey {α : Type} (members : List (String × α)) : List (String × α) :=
  members.foldl (fun acc m => insertByKey m.1 m.2 acc) []

mutual

/-- The value with the members of every object in the order of their keys. -/
def Value.normal : Value → Value
  | .array values => .array (normalValues values)
  | .object members => .object (sortByKey (normalMembers members))
  | .null => .null
  | .bool b => .bool b
  | .number n => .number n
  | .string s => .string s

def normalValues : List Value → List Value
  | [] => []
  | value :: values => value.normal :: normalValues values

def normalMembers : List (String × Value) → List (String × Value)
  | [] => []
  | (key, value) :: members => (key, value.normal) :: normalMembers members

end

/-- The float is no infinity and no NaN. -/
def isFinite (bits : BitVec 64) : Bool := bits.extractLsb' 52 11 ≠ 2047#11

/-- A number that `serde_json` can hold: an integer of 64 bits with or without sign, or a finite
float. -/
def Number.Fits : Number → Prop
  | .int i => -2 ^ 63 ≤ i ∧ i < 2 ^ 64
  | .float bits => isFinite bits = true

mutual

/-- Every number of the value satisfies `p`. -/
def Value.Numbers (p : Number → Prop) : Value → Prop
  | .number n => p n
  | .array values => NumbersOfValues p values
  | .object members => NumbersOfMembers p members
  | .null => True
  | .bool _ => True
  | .string _ => True

def NumbersOfValues (p : Number → Prop) : List Value → Prop
  | [] => True
  | value :: values => value.Numbers p ∧ NumbersOfValues p values

def NumbersOfMembers (p : Number → Prop) : List (String × Value) → Prop
  | [] => True
  | (_, value) :: members => value.Numbers p ∧ NumbersOfMembers p members

end

section Syntax

variable (lib : Libraries)

def Number.token : Number → List Char
  | .int i => (toString i).toList
  | .float bits => (lib.floatText bits).toList

mutual

def Value.toJson : Value → Json
  | .null => .null
  | .bool b => .bool b
  | .number n => .num (n.token lib)
  | .string s => .str s.toList
  | .array values => .arr (toJsonValues values)
  | .object members => .obj (toJsonMembers members)

def toJsonValues : List Value → List Json
  | [] => []
  | value :: values => value.toJson :: toJsonValues values

def toJsonMembers : List (String × Value) → List (List Char × Json)
  | [] => []
  | (key, value) :: members => (key.toList, value.toJson) :: toJsonMembers members

end

end Syntax

/-! ## The canonical text is the printed normal form -/

theorem map_insertByKey {α β : Type} (f : α → β) (key : String) (value : α)
    (l : List (String × α)) :
    (insertByKey key value l).map (fun m => (m.1, f m.2)) =
      insertByKey key (f value) (l.map fun m => (m.1, f m.2)) := by
  induction l with
  | nil => rfl
  | cons m l ih =>
      simp only [insertByKey, List.map_cons]
      split
      · rfl
      · split
        · rfl
        · rw [List.map_cons, ih]

theorem map_sortByKey {α β : Type} (f : α → β) (members : List (String × α)) :
    (sortByKey members).map (fun m => (m.1, f m.2)) =
      sortByKey (members.map fun m => (m.1, f m.2)) := by
  have hfold : ∀ (l : List (String × α)) (acc : List (String × α)),
      (l.foldl (fun acc m => insertByKey m.1 m.2 acc) acc).map (fun m => (m.1, f m.2)) =
        (l.map fun m => (m.1, f m.2)).foldl (fun acc m => insertByKey m.1 m.2 acc)
          (acc.map fun m => (m.1, f m.2)) := by
    intro l
    induction l with
    | nil => exact fun _ => rfl
    | cons m l ih =>
        intro acc
        rw [List.foldl_cons, ih, map_insertByKey]
        rfl
  exact hfold members []

theorem insertMember_eq (key : String) (text : Bytes) (l : List (String × Bytes)) :
    insertMember key text l = insertByKey key text l := by
  induction l with
  | nil => rfl
  | cons m l ih => simp only [insertMember, insertByKey, ih]

/-- What is known of `serde_json::to_string` on strings: it writes a string literal with the
escapes of JSON. -/
def QuotesStrings (lib : Libraries) : Prop := ∀ s, lib.stringText s = encode (Json.quote s.toList)

/-- What is known of `serde_json::to_string` on finite floats: it writes a number with a point or an
exponent, and another number for another float. -/
structure PrintsFloats (lib : Libraries) : Prop where
  number : ∀ bits, isFinite bits = true → Json.isNumber (lib.floatText bits).toList = true
  chars : ∀ bits, isFinite bits = true → ∀ c ∈ (lib.floatText bits).toList, Json.isNumChar c = true
  point : ∀ bits, isFinite bits = true → ∃ c ∈ (lib.floatText bits).toList, c = '.' ∨ c = 'e'
  injective : ∀ x y, isFinite x = true → isFinite y = true → lib.floatText x = lib.floatText y →
    x = y

section Canonical

variable {lib : Libraries}

theorem utf8_eq_encode (s : String) : utf8 s = encode s.toList := rfl

theorem commaSeparated_items (v : Json) (vs : List Json) :
    commaSeparated ((v :: vs).map fun v => encode v.print) ++ utf8 "]" =
      encode (v.print ++ Json.printItems vs) := by
  induction vs generalizing v with
  | nil => simp [commaSeparated, Json.printItems, encode_append, utf8_eq_encode]
  | cons w vs ih =>
      have hrest := ih w
      simp only [List.map_cons, commaSeparated, List.append_assoc] at hrest ⊢
      rw [hrest, Json.printItems, encode_append v.print, encode_cons]
      rfl

theorem commaSeparated_members (m : List Char × Json) (ms : List (List Char × Json)) :
    commaSeparated ((m :: ms).map fun m =>
        encode (Json.quote m.1) ++ utf8 ":" ++ encode m.2.print) ++ utf8 "\x7d" =
      encode (Json.quote m.1 ++ ':' :: (m.2.print ++ Json.printMembers ms)) := by
  induction ms generalizing m with
  | nil =>
      simp only [List.map_cons, List.map_nil, commaSeparated, Json.printMembers, encode_append,
        encode_cons, List.append_assoc]
      rfl
  | cons m' ms ih =>
      have hrest := ih m'
      simp only [List.map_cons, commaSeparated, List.append_assoc] at hrest ⊢
      rw [hrest]
      obtain ⟨k, v⟩ := m'
      simp only [Json.printMembers, encode_append, encode_cons]
      rfl

theorem encode_print_arr (vs : List Json) :
    encode (Json.arr vs).print =
      utf8 "[" ++ commaSeparated (vs.map fun v => encode v.print) ++ utf8 "]" := by
  cases vs with
  | nil => decide
  | cons v vs =>
      rw [List.append_assoc, commaSeparated_items, Json.print, encode_cons]
      rfl

theorem encode_print_obj (ms : List (List Char × Json)) :
    encode (Json.obj ms).print =
      utf8 "\x7b" ++ commaSeparated (ms.map fun m =>
        encode (Json.quote m.1) ++ utf8 ":" ++ encode m.2.print) ++ utf8 "\x7d" := by
  cases ms with
  | nil => decide
  | cons m ms =>
      rw [List.append_assoc, commaSeparated_members]
      obtain ⟨k, v⟩ := m
      rw [Json.print, encode_cons]
      rfl

theorem toJsonValues_eq (values : List Value) :
    toJsonValues lib values = values.map (Value.toJson lib) := by
  induction values with
  | nil => rfl
  | cons value values ih => rw [toJsonValues, ih, List.map_cons]

theorem toJsonMembers_eq (members : List (String × Value)) :
    toJsonMembers lib members = members.map fun m => (m.1.toList, m.2.toJson lib) := by
  induction members with
  | nil => rfl
  | cons m members ih =>
      obtain ⟨key, value⟩ := m
      rw [toJsonMembers, ih, List.map_cons]

mutual

theorem canonicalJson_eq (hquote : QuotesStrings lib) : ∀ v : Value,
    canonicalJson lib v = encode (v.normal.toJson lib).print
  | .null => by rw [canonicalJson, Value.normal, Value.toJson, Json.print]; rfl
  | .bool b => by cases b <;> rfl
  | .number n => by
      rw [canonicalJson, Value.normal, Value.toJson, Json.print]
      cases n <;> rfl
  | .string s => by
      rw [canonicalJson, Value.normal, Value.toJson, Json.print]
      exact hquote s
  | .array values => by
      rw [canonicalJson, Value.normal, Value.toJson, toJsonValues_eq, encode_print_arr,
        canonicalValues_eq hquote values, List.map_map]
      rfl
  | .object members => by
      rw [canonicalJson, Value.normal, Value.toJson, toJsonMembers_eq, encode_print_obj,
        canonicalMembers_eq hquote members]
      have hsort := map_sortByKey (fun v : Value => encode (v.toJson lib).print) (normalMembers members)
      simp only [insertMember_eq]
      change utf8 "\x7b" ++ commaSeparated ((sortByKey _).map _) ++ _ = _
      rw [← hsort, List.map_map, List.map_map]
      congr 3
      apply List.map_congr_left
      intro m _
      simp only [Function.comp_apply, hquote m.1]

theorem canonicalValues_eq (hquote : QuotesStrings lib) : ∀ values : List Value,
    canonicalValues lib values = (normalValues values).map fun v => encode (v.toJson lib).print
  | [] => rfl
  | value :: values => by
      rw [canonicalValues, normalValues, List.map_cons, canonicalJson_eq hquote value,
        canonicalValues_eq hquote values]

theorem canonicalMembers_eq (hquote : QuotesStrings lib) : ∀ members : List (String × Value),
    canonicalMembers lib members =
      (normalMembers members).map fun m => (m.1, encode (m.2.toJson lib).print)
  | [] => rfl
  | (key, value) :: members => by
      rw [canonicalMembers, normalMembers, List.map_cons, canonicalJson_eq hquote value,
        canonicalMembers_eq hquote members]

end

/-! ## The numbers of a value -/

theorem mem_insertByKey {α : Type} {key : String} {value : α} {m : String × α}
    {l : List (String × α)} (h : m ∈ insertByKey key value l) : m = (key, value) ∨ m ∈ l := by
  induction l with
  | nil => exact Or.inl (List.mem_singleton.1 h)
  | cons e l ih =>
      simp only [insertByKey] at h
      split at h
      · rcases List.mem_cons.1 h with heq | hmem
        · exact Or.inl heq
        · exact Or.inr (List.mem_cons_of_mem _ hmem)
      · split at h
        · rcases List.mem_cons.1 h with heq | hmem
          · exact Or.inl heq
          · exact Or.inr hmem
        · rcases List.mem_cons.1 h with heq | hmem
          · exact Or.inr (heq ▸ List.mem_cons_self)
          · exact (ih hmem).imp id (List.mem_cons_of_mem _)

theorem mem_sortByKey {α : Type} {m : String × α} {members : List (String × α)}
    (h : m ∈ sortByKey members) : m ∈ members := by
  have hfold : ∀ (l : List (String × α)) (acc : List (String × α)),
      m ∈ l.foldl (fun acc m => insertByKey m.1 m.2 acc) acc → m ∈ acc ∨ m ∈ l := by
    intro l
    induction l with
    | nil => exact fun _ h => Or.inl h
    | cons e l ih =>
        intro acc h
        rcases ih _ h with hacc | hmem
        · rcases mem_insertByKey hacc with heq | hacc
          · exact Or.inr (heq ▸ List.mem_cons_self)
          · exact Or.inl hacc
        · exact Or.inr (List.mem_cons_of_mem _ hmem)
  exact (hfold members [] h).resolve_left List.not_mem_nil

theorem numbersOfMembers_iff {p : Number → Prop} {members : List (String × Value)} :
    NumbersOfMembers p members ↔ ∀ m ∈ members, m.2.Numbers p := by
  induction members with
  | nil => simp [NumbersOfMembers]
  | cons m members ih =>
      obtain ⟨key, value⟩ := m
      simp only [NumbersOfMembers, ih, List.forall_mem_cons]

mutual

theorem Value.numbers_normal {p : Number → Prop} : ∀ {v : Value}, v.Numbers p → v.normal.Numbers p
  | .null, h => h
  | .bool _, h => h
  | .number _, h => h
  | .string _, h => h
  | .array values, h => by
      rw [Value.normal, Value.Numbers]
      exact numbers_normalValues h
  | .object members, h => by
      rw [Value.normal, Value.Numbers, numbersOfMembers_iff]
      intro m hm
      exact numbersOfMembers_iff.1 (numbers_normalMembers h) m (mem_sortByKey hm)

theorem numbers_normalValues {p : Number → Prop} : ∀ {values : List Value},
    NumbersOfValues p values → NumbersOfValues p (normalValues values)
  | [], h => h
  | _ :: _, h => ⟨Value.numbers_normal h.1, numbers_normalValues h.2⟩

theorem numbers_normalMembers {p : Number → Prop} : ∀ {members : List (String × Value)},
    NumbersOfMembers p members → NumbersOfMembers p (normalMembers members)
  | [], h => h
  | (_, _) :: _, h => ⟨Value.numbers_normal h.1, numbers_normalMembers h.2⟩

end

/-! ## Tokens -/

theorem token_ofNat (n : Nat) : (Number.int (Int.ofNat n)).token lib = decimal n :=
  Nat.toList_repr

theorem token_negSucc (n : Nat) :
    (Number.int (Int.negSucc n)).token lib = '-' :: decimal (n + 1) := by
  change ("-" ++ (n + 1).repr).toList = _
  rw [String.toList_append, Nat.toList_repr]
  rfl

theorem Number.valid_token (hfloat : PrintsFloats lib) {n : Number} (h : n.Fits) :
    Json.isNumber (n.token lib) = true ∧ ∀ c ∈ n.token lib, Json.isNumChar c = true := by
  cases n with
  | float bits => exact ⟨hfloat.number bits h, hfloat.chars bits h⟩
  | int i =>
      cases i with
      | ofNat n =>
          rw [token_ofNat]
          exact ⟨Json.isNumber_decimal n, fun c hc => Json.isNumChar_of_mem_decimal hc⟩
      | negSucc n =>
          have hsign : (decimal (n + 1)).head? ≠ some '-' := by
            intro hhead
            exact not_mem_decimal (by decide) (n + 1) (List.mem_of_head? hhead)
          rw [token_negSucc, Json.isNumber_neg hsign]
          refine ⟨Json.isNumber_decimal _, ?_⟩
          intro c hc
          rcases List.mem_cons.1 hc with rfl | hc
          · decide
          · exact Json.isNumChar_of_mem_decimal hc

theorem not_mem_token_int {i : Int} {c : Char} (hc : c = '.' ∨ c = 'e') :
    c ∉ (Number.int i).token lib := by
  have hdigit : c.isDigit = false ∧ c ≠ '-' := by
    rcases hc with rfl | rfl <;> decide
  cases i with
  | ofNat n =>
      rw [token_ofNat]
      exact not_mem_decimal hdigit.1 n
  | negSucc n =>
      rw [token_negSucc]
      intro hmem
      rcases List.mem_cons.1 hmem with heq | hmem
      · exact hdigit.2 heq
      · exact not_mem_decimal hdigit.1 (n + 1) hmem

theorem token_int_injective {i j : Int}
    (h : (Number.int i).token lib = (Number.int j).token lib) : i = j := by
  have hminus : ∀ m n : Nat, decimal m ≠ '-' :: decimal n := by
    intro m n heq
    exact not_mem_decimal (by decide) m (heq ▸ List.mem_cons_self : '-' ∈ decimal m)
  cases i with
  | ofNat m =>
      cases j with
      | ofNat n =>
          rw [token_ofNat, token_ofNat] at h
          rw [decimal_injective h]
      | negSucc n =>
          rw [token_ofNat, token_negSucc] at h
          exact absurd h (hminus m (n + 1))
  | negSucc m =>
      cases j with
      | ofNat n =>
          rw [token_ofNat, token_negSucc] at h
          exact absurd h.symm (hminus n (m + 1))
      | negSucc n =>
          rw [token_negSucc, token_negSucc] at h
          have hsucc := decimal_injective (List.cons.inj h).2
          rw [Nat.succ.inj hsucc]

theorem Number.token_injOn (hfloat : PrintsFloats lib) {m n : Number} (hm : m.Fits) (hn : n.Fits)
    (h : m.token lib = n.token lib) : m = n := by
  cases m with
  | int i =>
      cases n with
      | int j => rw [token_int_injective h]
      | float y =>
          obtain ⟨c, hmem, hc⟩ := hfloat.point y hn
          exact absurd (h ▸ hmem : c ∈ (Number.int i).token lib) (not_mem_token_int hc)
  | float x =>
      cases n with
      | int j =>
          obtain ⟨c, hmem, hc⟩ := hfloat.point x hm
          exact absurd (h ▸ hmem : c ∈ (Number.int j).token lib) (not_mem_token_int hc)
      | float y => rw [hfloat.injective x y hm hn (String.toList_injective h)]

mutual

theorem Value.valid_toJson (hfloat : PrintsFloats lib) : ∀ {v : Value}, v.Numbers Number.Fits →
    (v.toJson lib).Valid
  | .null, _ => trivial
  | .bool _, _ => trivial
  | .number _, h => Number.valid_token hfloat h
  | .string _, _ => trivial
  | .array _, h => valid_toJsonValues hfloat h
  | .object _, h => valid_toJsonMembers hfloat h

theorem valid_toJsonValues (hfloat : PrintsFloats lib) : ∀ {values : List Value},
    NumbersOfValues Number.Fits values → Json.ValidItems (toJsonValues lib values)
  | [], _ => trivial
  | _ :: _, h => ⟨Value.valid_toJson hfloat h.1, valid_toJsonValues hfloat h.2⟩

theorem valid_toJsonMembers (hfloat : PrintsFloats lib) : ∀ {members : List (String × Value)},
    NumbersOfMembers Number.Fits members → Json.ValidMembers (toJsonMembers lib members)
  | [], _ => trivial
  | (_, _) :: _, h => ⟨Value.valid_toJson hfloat h.1, valid_toJsonMembers hfloat h.2⟩

end

mutual

theorem Value.toJson_injOn (hfloat : PrintsFloats lib) : ∀ {v w : Value}, v.Numbers Number.Fits →
    w.Numbers Number.Fits → v.toJson lib = w.toJson lib → v = w
  | .null, w, _, _, h => by cases w <;> simp_all [Value.toJson]
  | .bool _, w, _, _, h => by cases w <;> simp_all [Value.toJson]
  | .number m, w, hv, hw, h => by
      cases w with
      | number n =>
          simp only [Value.toJson, Json.num.injEq] at h
          rw [Number.token_injOn hfloat hv hw h]
      | _ => simp [Value.toJson] at h
  | .string s, w, _, _, h => by
      cases w with
      | string t =>
          simp only [Value.toJson, Json.str.injEq] at h
          rw [String.toList_injective h]
      | _ => simp [Value.toJson] at h
  | .array values, w, hv, hw, h => by
      cases w with
      | array values' =>
          simp only [Value.toJson, Json.arr.injEq] at h
          rw [toJsonValues_injOn hfloat hv hw h]
      | _ => simp [Value.toJson] at h
  | .object members, w, hv, hw, h => by
      cases w with
      | object members' =>
          simp only [Value.toJson, Json.obj.injEq] at h
          rw [toJsonMembers_injOn hfloat hv hw h]
      | _ => simp [Value.toJson] at h

theorem toJsonValues_injOn (hfloat : PrintsFloats lib) : ∀ {vs ws : List Value},
    NumbersOfValues Number.Fits vs → NumbersOfValues Number.Fits ws →
    toJsonValues lib vs = toJsonValues lib ws → vs = ws
  | [], [], _, _, _ => rfl
  | [], _ :: _, _, _, h => by simp [toJsonValues] at h
  | _ :: _, [], _, _, h => by simp [toJsonValues] at h
  | v :: vs, w :: ws, hv, hw, h => by
      simp only [toJsonValues, List.cons.injEq] at h
      rw [Value.toJson_injOn hfloat hv.1 hw.1 h.1, toJsonValues_injOn hfloat hv.2 hw.2 h.2]

theorem toJsonMembers_injOn (hfloat : PrintsFloats lib) : ∀ {ms ns : List (String × Value)},
    NumbersOfMembers Number.Fits ms → NumbersOfMembers Number.Fits ns →
    toJsonMembers lib ms = toJsonMembers lib ns → ms = ns
  | [], [], _, _, _ => rfl
  | [], (_, _) :: _, _, _, h => by simp [toJsonMembers] at h
  | (_, _) :: _, [], _, _, h => by simp [toJsonMembers] at h
  | (k, v) :: ms, (l, w) :: ns, hv, hw, h => by
      simp only [toJsonMembers, List.cons.injEq, Prod.mk.injEq] at h
      rw [String.toList_injective h.1.1, Value.toJson_injOn hfloat hv.1 hw.1 h.1.2,
        toJsonMembers_injOn hfloat hv.2 hw.2 h.2]

end

/-- The canonical text fixes a value up to the order of members. -/
theorem canonicalJson_injOn (hquote : QuotesStrings lib) (hfloat : PrintsFloats lib) {v w : Value}
    (hv : v.Numbers Number.Fits) (hw : w.Numbers Number.Fits)
    (h : canonicalJson lib v = canonicalJson lib w) : v.normal = w.normal := by
  rw [canonicalJson_eq hquote, canonicalJson_eq hquote] at h
  have hv' := Value.numbers_normal hv
  have hw' := Value.numbers_normal hw
  have hprint := Json.print_injOn (Value.valid_toJson hfloat hv') (Value.valid_toJson hfloat hw')
    (encode_injective h)
  exact Value.toJson_injOn hfloat hv' hw' hprint

theorem not_mem_canonicalJson (hquote : QuotesStrings lib) (hfloat : PrintsFloats lib) {v : Value}
    (hv : v.Numbers Number.Fits) {tag : UInt8} (htag : tag < 2) : tag ∉ canonicalJson lib v := by
  rw [canonicalJson_eq hquote]
  intro hmem
  have hlow := le_of_mem_encode
    (Json.le_of_mem_print _ (Value.valid_toJson hfloat (Value.numbers_normal hv))) hmem
  rw [UInt8.lt_iff_toNat_lt] at htag
  change tag.toNat < 2 at htag
  omega

end Canonical

/-! ## The fields that can be read back -/

/-- What is known of `DateTime::to_rfc3339` in UTC: different instants have different texts, and a
text ends in the offset, whose sign stands nowhere else but at the front of a large year. -/
structure Rfc3339 (text : Int → Bytes) : Prop where
  injective : Function.Injective text
  offset : ∀ t, ∃ year rest, text t = year :: rest ++ utf8 "+00:00" ∧ (43 : UInt8) ∉ rest

theorem Rfc3339.append_inj {text : Int → Bytes} (h : Rfc3339 text) {t t' : Int} {u v : Bytes}
    (heq : text t ++ u = text t' ++ v) : t = t' ∧ u = v := by
  obtain ⟨year, rest, htext, hrest⟩ := h.offset t
  obtain ⟨year', rest', htext', hrest'⟩ := h.offset t'
  have hoffset : utf8 "+00:00" = (43 : UInt8) :: utf8 "00:00" := by decide
  have hsplit : year :: (rest ++ 43 :: (utf8 "00:00" ++ u)) =
      year' :: (rest' ++ 43 :: (utf8 "00:00" ++ v)) := by
    simpa [htext, htext', hoffset] using heq
  obtain ⟨rfl, hmark⟩ := List.cons.inj hsplit
  obtain ⟨rfl, htail⟩ := append_mark_inj hrest hrest' hmark
  exact ⟨h.injective (htext.trans htext'.symm), List.append_cancel_left htail⟩

theorem action_append_inj {a b : AuditAction} {u v : Bytes}
    (hu : ∃ tag rest, u = tag :: rest ∧ tag < 2) (hv : ∃ tag rest, v = tag :: rest ∧ tag < 2)
    (h : utf8 a.asStr ++ u = utf8 b.asStr ++ v) : a = b ∧ u = v := by
  have hletters : ∀ a : AuditAction, ∀ c ∈ utf8 a.asStr, ¬ c < 2 := by
    intro a
    cases a <;> decide +kernel
  have htake : ∀ (a : AuditAction) (u : Bytes), (∃ tag rest, u = tag :: rest ∧ tag < 2) →
      (utf8 a.asStr ++ u).takeWhile (fun c => !decide (c < 2)) = utf8 a.asStr := by
    rintro a u ⟨tag, rest, rfl, htag⟩
    rw [List.takeWhile_append_of_pos (fun c hc => by simpa using hletters a c hc)]
    simp [htag]
  have htext : utf8 a.asStr = utf8 b.asStr := by
    rw [← htake a u hu, h, htake b v hv]
  have hname : a.asStr = b.asStr := String.toList_injective (encode_injective htext)
  have haction : a = b := by
    have hparse := congrArg AuditAction.fromStr hname
    rw [AuditAction.fromStr_asStr, AuditAction.fromStr_asStr] at hparse
    exact Option.some.inj hparse
  rw [htext] at h
  exact ⟨haction, List.append_cancel_left h⟩

/-! ## Entries -/

namespace AuditEntry

/-- The number fits its type, and so do the numbers of the detail. -/
structure WellFormed (a : AuditEntry) : Prop where
  seq : -2 ^ 63 ≤ a.seq ∧ a.seq < 2 ^ 63
  detail : a.detail.Numbers Number.Fits

/-- The same community, number, time to the microsecond and action. -/
structure SameHeader (a b : AuditEntry) : Prop where
  communityId : a.communityId = b.communityId
  seq : a.seq = b.seq
  createdAt : toStoragePrecision a.createdAt = toStoragePrecision b.createdAt
  action : a.action = b.action

/-- The same record. -/
structure Agrees (a b : AuditEntry) : Prop extends SameHeader a b where
  actorPubkey : a.actorPubkey = b.actorPubkey
  objectId : a.objectId = b.objectId
  detail : a.detail.normal = b.detail.normal
  prevHash : a.prevHash = b.prevHash

section Fields

variable (lib : Libraries) (a b : AuditEntry)

/-- The presence tag of the object id. -/
def objectTag : UInt8 := if a.objectId.isSome then 1 else 0

def objectBytes : Bytes := (a.objectId.map utf8).getD []

/-- The bytes that stand for the previous hash. -/
def prevBytes : Bytes := a.prevHash.getD genesisHash

/-- The fields behind the header, one after another. -/
def tail : Bytes :=
  tagged a.actorPubkey ++ (tagged (a.objectId.map utf8) ++ (canonicalJson lib a.detail ++ a.prevBytes))

/-- Two entries with one public key, both with or both without an object id, that are different and
whose object id, detail and previous hash are respelled. -/
structure TextMoves : Prop where
  actorPubkey : a.actorPubkey = b.actorPubkey
  present : a.objectId.isSome = b.objectId.isSome
  respelled : Respelled a.objectBytes (canonicalJson lib a.detail) a.prevBytes
    b.objectBytes (canonicalJson lib b.detail) b.prevBytes
  differ : ¬ (a.objectId = b.objectId ∧ canonicalJson lib a.detail = canonicalJson lib b.detail ∧
    a.prevHash = b.prevHash)

/-- The public key of `b` is that of `a` with the tag of the object id and more behind it: either
the front of the object id, where a character of it is the tag of `b`, or all of the object id, all
of the detail and the front of the previous hash, where the tag and the fields of `b` stand. -/
def KeyGrows : Prop :=
  ∃ key more, a.actorPubkey = some key ∧ b.actorPubkey = some (key ++ a.objectTag :: more) ∧
    ((∃ rest, a.objectBytes = more ++ b.objectTag :: rest ∧
        Respelled rest (canonicalJson lib a.detail) a.prevBytes
          b.objectBytes (canonicalJson lib b.detail) b.prevBytes) ∨
      ∃ front, more = a.objectBytes ++ (canonicalJson lib a.detail ++ front) ∧
        a.prevBytes = front ++ b.objectTag ::
          (b.objectBytes ++ (canonicalJson lib b.detail ++ b.prevBytes)))

end Fields

variable {lib : Libraries} {a b : AuditEntry}

theorem hashInput_eq : hashInput lib a =
    beBytes 16 a.communityId.toNat ++ (i64Bytes a.seq ++
      (lib.toRfc3339 (toStoragePrecision a.createdAt) ++ (utf8 a.action.asStr ++ a.tail lib))) :=
  rfl

theorem tail_head : ∃ tag rest, a.tail lib = tag :: rest ∧ tag < 2 := by
  unfold tail
  cases a.actorPubkey with
  | none => exact ⟨0, _, rfl, by decide⟩
  | some pk => exact ⟨1, _, rfl, by decide⟩

/-- The fields of the header can be read back from the preimage. -/
theorem header_of_hashInput (hrfc : Rfc3339 lib.toRfc3339) (ha : a.WellFormed) (hb : b.WellFormed)
    (h : hashInput lib a = hashInput lib b) : a.SameHeader b ∧ a.tail lib = b.tail lib := by
  rw [hashInput_eq, hashInput_eq] at h
  have hcommunity := List.append_inj h (by simp)
  have hseq := List.append_inj hcommunity.2 (by simp [i64Bytes])
  have htime := hrfc.append_inj hseq.2
  have haction := action_append_inj tail_head tail_head htime.2
  refine ⟨⟨?_, i64Bytes_injOn ha.seq hb.seq hseq.1, htime.1, haction.1⟩, haction.2⟩
  exact BitVec.eq_of_toNat_eq
    (beBytes_injOn (n := 16) a.communityId.isLt b.communityId.isLt hcommunity.1)

theorem hashInput_of_header (hheader : a.SameHeader b) (htail : a.tail lib = b.tail lib) :
    hashInput lib a = hashInput lib b := by
  rw [hashInput_eq, hashInput_eq, hheader.communityId, hheader.seq, hheader.createdAt,
    hheader.action, htail]

/-! ## The fields behind the header -/

/-- Two optional fields behind their tags are the same, or one of them takes what follows the
other. -/
theorem tagged_append_iff {f g : Option Bytes} {u v : Bytes} :
    tagged f ++ u = tagged g ++ v ↔ (f = g ∧ u = v) ∨
      (∃ key x, x ≠ [] ∧ f = some key ∧ g = some (key ++ x) ∧ u = x ++ v) ∨
        ∃ key x, x ≠ [] ∧ g = some key ∧ f = some (key ++ x) ∧ v = x ++ u := by
  cases f with
  | none => cases g <;> simp [tagged]
  | some p =>
      cases g with
      | none => simp [tagged]
      | some q =>
          simp only [tagged, List.cons_append, List.cons.injEq, true_and, append_eq_append_cases,
            Option.some.injEq]
          constructor
          · rintro (h | ⟨x, hx, hq, hu⟩ | ⟨x, hx, hp, hv⟩)
            · exact Or.inl h
            · exact Or.inr (Or.inl ⟨p, x, hx, rfl, hq, hu⟩)
            · exact Or.inr (Or.inr ⟨q, x, hx, rfl, hp, hv⟩)
          · rintro (h | ⟨key, x, hx, rfl, hq, hu⟩ | ⟨key, x, hx, rfl, hp, hv⟩)
            · exact Or.inl h
            · exact Or.inr (Or.inl ⟨x, hx, hq, hu⟩)
            · exact Or.inr (Or.inr ⟨x, hx, hp, hv⟩)

theorem tagged_objectId : tagged (a.objectId.map utf8) = a.objectTag :: a.objectBytes := by
  unfold objectTag objectBytes
  cases a.objectId <;> rfl

theorem objectTag_inj : a.objectTag = b.objectTag ↔ a.objectId.isSome = b.objectId.isSome := by
  unfold objectTag
  cases a.objectId <;> cases b.objectId <;> simp

theorem objectTag_lt : a.objectTag < 2 := by
  unfold objectTag
  split <;> decide

/-- A key that grows takes the tag of the object id and goes on to a place where the tag of the
other entry stands. -/
theorem keyGrows_iff (hquote : QuotesStrings lib) (hfloat : PrintsFloats lib) (ha : a.WellFormed) :
    a.KeyGrows lib b ↔ ∃ key x, x ≠ [] ∧ a.actorPubkey = some key ∧
      b.actorPubkey = some (key ++ x) ∧
        a.objectTag :: (a.objectBytes ++ (canonicalJson lib a.detail ++ a.prevBytes)) =
          x ++ b.objectTag :: (b.objectBytes ++ (canonicalJson lib b.detail ++ b.prevBytes)) := by
  have hmark := not_mem_canonicalJson hquote hfloat ha.detail (objectTag_lt (a := b))
  constructor
  · rintro ⟨key, more, hkey, hgrown, hmore⟩
    refine ⟨key, a.objectTag :: more, by simp, hkey, hgrown, ?_⟩
    rw [List.cons_append, (append_mark_iff hmark).2]
    rcases hmore with ⟨rest, hobject, hrest⟩ | hfront
    · exact Or.inl ⟨rest, hobject, respelled_iff.1 hrest⟩
    · exact Or.inr hfront
  · rintro ⟨key, x, hx, hkey, hgrown, heq⟩
    cases x with
    | nil => exact absurd rfl hx
    | cons tag more =>
        obtain ⟨rfl, hrest⟩ := List.cons.inj heq
        refine ⟨key, more, hkey, hgrown, ?_⟩
        rcases (append_mark_iff hmark).1 hrest with ⟨rest, hobject, hbody⟩ | hfront
        · exact Or.inl ⟨rest, hobject, respelled_iff.2 hbody⟩
        · exact Or.inr hfront

theorem tail_eq_iff (hquote : QuotesStrings lib) (hfloat : PrintsFloats lib) (ha : a.WellFormed)
    (hb : b.WellFormed) : a.tail lib = b.tail lib ↔
      (a.actorPubkey = b.actorPubkey ∧ a.objectId.isSome = b.objectId.isSome ∧
        Respelled a.objectBytes (canonicalJson lib a.detail) a.prevBytes
          b.objectBytes (canonicalJson lib b.detail) b.prevBytes) ∨
        a.KeyGrows lib b ∨ b.KeyGrows lib a := by
  unfold tail
  rw [tagged_append_iff, keyGrows_iff hquote hfloat ha, keyGrows_iff hquote hfloat hb,
    tagged_objectId, tagged_objectId, List.cons_append, List.cons_append, List.cons.injEq,
    objectTag_inj, respelled_iff]

/-- Two entries share a preimage only as the same record exactly when they do not, with the same
header, move text between object id, detail and previous hash or grow one public key by what follows
the other. -/
theorem preimage_injective_iff (lib : Libraries) (hrfc : Rfc3339 lib.toRfc3339)
    (hquote : QuotesStrings lib) (hfloat : PrintsFloats lib) (a b : AuditEntry) (ha : a.WellFormed)
    (hb : b.WellFormed) :
    (hashInput lib a = hashInput lib b → a.Agrees b) ↔
      ¬ (a.SameHeader b ∧ (a.TextMoves lib b ∨ a.KeyGrows lib b ∨ b.KeyGrows lib a)) := by
  have hkeys : ∀ {a b : AuditEntry}, a.KeyGrows lib b → a.actorPubkey ≠ b.actorPubkey := by
    rintro a b ⟨key, more, hkey, hgrown, -⟩ hsame
    rw [hkey, hgrown, Option.some.injEq] at hsame
    simpa using congrArg List.length hsame
  constructor
  · rintro hinj ⟨hheader, hcases⟩
    have htail : a.tail lib = b.tail lib := by
      rw [tail_eq_iff hquote hfloat ha hb]
      exact hcases.imp_left fun h => ⟨h.actorPubkey, h.present, h.respelled⟩
    have hagrees := hinj (hashInput_of_header hheader htail)
    rcases hcases with hmoves | hgrows | hgrows
    · -- members in another order have the same canonical text
      have htext : canonicalJson lib a.detail = canonicalJson lib b.detail := by
        rw [canonicalJson_eq hquote, canonicalJson_eq hquote, hagrees.detail]
      exact hmoves.differ ⟨hagrees.objectId, htext, hagrees.prevHash⟩
    · exact hkeys hgrows hagrees.actorPubkey
    · exact hkeys hgrows hagrees.actorPubkey.symm
  · intro hnot h
    obtain ⟨hheader, htail⟩ := header_of_hashInput hrfc ha hb h
    rcases (tail_eq_iff hquote hfloat ha hb).1 htail with ⟨hactor, hpresent, hrespelled⟩ | hgrows
    · by_contra hother
      refine hnot ⟨hheader, Or.inl ⟨hactor, hpresent, hrespelled, ?_⟩⟩
      rintro ⟨hobject, htext, hprev⟩
      exact hother ⟨hheader, hactor, hobject,
        canonicalJson_injOn hquote hfloat ha.detail hb.detail htext, hprev⟩
    · exact absurd ⟨hheader, Or.inr hgrows⟩ hnot

/-! ## Two records with one preimage -/

/-- A number for each instant, zero for the first. -/
def instantIndex (t : Int) : Nat := 2 * t.natAbs + if t < 0 then 1 else 0

/-- The bits of `-0.0`. -/
def negZero : BitVec 64 := 0x8000000000000000

/-- The bits of `1.5`. -/
def oneAndHalf : BitVec 64 := 0x3ff8000000000000

/-- Texts of floats, those of the two zeros and of `1.5` as `serde_json` prints them. -/
def sampleFloatText (bits : BitVec 64) : String :=
  if bits = negZero then "-0.0"
  else if bits = oneAndHalf then "1.5"
  else String.ofList ('0' :: '.' :: decimal bits.toNat)

def readFloat (text : List Char) : Option (BitVec 64) :=
  if text = "-0.0".toList then some negZero
  else if text = "1.5".toList then some oneAndHalf
  else (parseDigits (text.drop 2)).map (BitVec.ofNat 64)

/-- Libraries that print the first instant as chrono does, and the others as longer texts. -/
def preimageLib : Libraries where
  sha256 := id
  toRfc3339 := fun t =>
    utf8 "1970-01-01T00:00:00" ++ (List.replicate (instantIndex t) 48 ++ utf8 "+00:00")
  stringText := fun s => encode (Json.quote s.toList)
  floatText := sampleFloatText

theorem readFloat_sampleFloatText (bits : BitVec 64) :
    readFloat (sampleFloatText bits).toList = some bits := by
  unfold sampleFloatText
  split
  · next h => rw [h]; rfl
  · split
    · next h => rw [h]; rfl
    · rw [String.toList_ofList, readFloat, if_neg (by simp), if_neg (by simp)]
      change (parseDigits (decimal bits.toNat)).map (BitVec.ofNat 64) = some bits
      rw [parseDigits_decimal, Option.map_some, BitVec.ofNat_toNat, BitVec.setWidth_eq]

theorem printsFloats_preimageLib : PrintsFloats preimageLib := by
  have hshape : ∀ bits, sampleFloatText bits = "-0.0" ∨ sampleFloatText bits = "1.5" ∨
      (sampleFloatText bits).toList = '0' :: '.' :: decimal bits.toNat := by
    intro bits
    unfold sampleFloatText
    split
    · exact Or.inl rfl
    · split
      · exact Or.inr (Or.inl rfl)
      · exact Or.inr (Or.inr String.toList_ofList)
  refine ⟨fun bits _ => ?_, fun bits _ => ?_, fun bits _ => ?_, fun x y _ _ h => ?_⟩
  · rcases hshape bits with h | h | h <;> simp only [preimageLib, h]
    · decide
    · decide
    · exact Json.isNumber_fraction (decimal_ne_nil _) fun _ => isDigit_of_mem_decimal
  · rcases hshape bits with h | h | h <;> simp only [preimageLib, h]
    · exact List.all_eq_true.1 (by decide)
    · exact List.all_eq_true.1 (by decide)
    · exact List.forall_mem_cons.2 ⟨by decide, List.forall_mem_cons.2 ⟨by decide, fun _ =>
        Json.isNumChar_of_mem_decimal⟩⟩
  · refine ⟨'.', ?_, Or.inl rfl⟩
    rcases hshape bits with h | h | h <;> simp [preimageLib, h]
  · have htext : sampleFloatText x = sampleFloatText y := h
    have hread := readFloat_sampleFloatText x
    rw [htext, readFloat_sampleFloatText] at hread
    exact (Option.some.inj hread).symm

theorem rfc3339_preimageLib : Rfc3339 preimageLib.toRfc3339 where
  injective := by
    intro t t' h
    have hlength := congrArg List.length h
    simp only [preimageLib, List.length_append, List.length_replicate, instantIndex] at hlength
    split at hlength <;> split at hlength <;> omega
  offset := by
    intro t
    refine ⟨49, utf8 "970-01-01T00:00:00" ++ List.replicate (instantIndex t) 48, ?_, ?_⟩
    · rw [← List.cons_append, List.append_assoc]
      rfl
    · intro hmem
      rcases List.mem_append.1 hmem with hmem | hmem
      · revert hmem
        decide
      · exact absurd (List.eq_of_mem_replicate hmem) (by decide)

/-- An entry about an object, with a number as its detail. -/
def sampleEntry (objectId : String) (detail : Int) : AuditEntry where
  communityId := 1
  seq := 1
  hash := []
  prevHash := none
  action := .eventCreated
  actorPubkey := none
  objectId := some objectId
  detail := .number (.int detail)
  createdAt := 0

theorem wellFormed_sampleEntry (objectId : String) {detail : Int}
    (hfits : (Number.int detail).Fits) : (sampleEntry objectId detail).WellFormed :=
  ⟨⟨by simp [sampleEntry], by simp [sampleEntry]⟩, hfits⟩

/-- An object id that takes the first digit of the detail is hashed as the same bytes, and so has
the same digest under every hash function. -/
theorem digit_moved_shares_preimage :
    (∀ lib : Libraries,
      computeHash lib (sampleEntry "ev" 123) = computeHash lib (sampleEntry "ev1" 23)) ∧
      hashInput preimageLib (sampleEntry "ev" 123) = hashInput preimageLib (sampleEntry "ev1" 23) ∧
      ¬ (sampleEntry "ev" 123).Agrees (sampleEntry "ev1" 23) := by
  refine ⟨fun lib => rfl, rfl, ?_⟩
  intro h
  have hobject := h.objectId
  revert hobject
  decide

/-- Two entries with another object and the same detail have different preimages. -/
theorem other_object_other_preimage :
    ¬ (sampleEntry "ev" 1).Agrees (sampleEntry "ew" 1) ∧
      hashInput preimageLib (sampleEntry "ev" 1) ≠ hashInput preimageLib (sampleEntry "ew" 1) := by
  have hother : ¬ (sampleEntry "ev" 1).Agrees (sampleEntry "ew" 1) := by
    intro h
    have hobject := h.objectId
    revert hobject
    decide
  refine ⟨hother, fun heq => hother ?_⟩
  apply (preimage_injective_iff preimageLib rfc3339_preimageLib (fun _ => rfl)
    printsFloats_preimageLib _ _ (wellFormed_sampleEntry "ev" (by simp [Number.Fits]))
    (wellFormed_sampleEntry "ew" (by simp [Number.Fits]))).2 _ heq
  rintro ⟨-, hmoves | ⟨key, more, hkey, -⟩ | ⟨key, more, hkey, -⟩⟩
  · have hspelled := respelled_iff.1 hmoves.respelled
    revert hspelled
    decide
  · cases hkey
  · cases hkey

end AuditEntry

end Audit
end Maju
