import Maju.Audit.Preimage
import Maju.Lib.SortedMap
import Mathlib.Data.String.Basic

/-!
# Canonical — details up to the order of their members

`canonical_json` sorts the members of every object and prints the rest as it is.  Two values are the
same up to the order of members when one is reached from the other by permuting the members of
objects at any depth and replacing numbers by the same ones.

* `Value.Reorders` — that relation, as the equivalence the permutations generate;
* `Value.reorders_iff` — it is equality of the normal forms;
* `canonical_json_faithful` — equal text exactly for reordered values, and a text that `serde_json`
  reads, which it does to a limited depth, reads back.
-/

namespace Maju
namespace Audit

open Lib

/-! ## Values of `serde_json` -/

mutual

/-- No object has two members with one key. -/
def Value.Distinct : Value → Prop
  | .array values => DistinctValues values
  | .object members => (members.map Prod.fst).Nodup ∧ DistinctMembers members
  | .null => True
  | .bool _ => True
  | .number _ => True
  | .string _ => True

def DistinctValues : List Value → Prop
  | [] => True
  | value :: values => value.Distinct ∧ DistinctValues values

def DistinctMembers : List (String × Value) → Prop
  | [] => True
  | (_, value) :: members => value.Distinct ∧ DistinctMembers members

end

/-- A value as `serde_json` keeps it: its objects are maps and its numbers fit their types. -/
structure SerdeValue where
  value : Value
  fits : value.Numbers Number.Fits
  distinct : value.Distinct

/-- `PartialEq` of numbers, where finite floats are compared as such: the two zeros are equal. -/
def Number.eq : Number → Number → Bool
  | .int i, .int j => i = j
  | .float x, .float y => x = y || (x <<< 1 = 0#64 && y <<< 1 = 0#64)
  | _, _ => false

/-- The same value up to the order of members, at every depth, where numbers are the same by
`same`. -/
inductive Value.Reorders (same : Number → Number → Prop) : Value → Value → Prop where
  | refl (v : Value) : Reorders same v v
  | symm {v w : Value} : Reorders same v w → Reorders same w v
  | trans {u v w : Value} : Reorders same u v → Reorders same v w → Reorders same u w
  | number {m n : Number} : same m n → Reorders same (.number m) (.number n)
  | perm {ms ns : List (String × Value)} : ms.Perm ns → Reorders same (.object ms) (.object ns)
  | item {v w : Value} (l r : List Value) :
      Reorders same v w → Reorders same (.array (l ++ v :: r)) (.array (l ++ w :: r))
  | member {v w : Value} (l : List (String × Value)) (key : String) (r : List (String × Value)) :
      Reorders same v w →
        Reorders same (.object (l ++ (key, v) :: r)) (.object (l ++ (key, w) :: r))

theorem distinctValues_iff {values : List Value} :
    DistinctValues values ↔ ∀ v ∈ values, v.Distinct := by
  induction values with
  | nil => simp [DistinctValues]
  | cons v values ih => simp only [DistinctValues, ih, List.forall_mem_cons]

theorem distinctMembers_iff {members : List (String × Value)} :
    DistinctMembers members ↔ ∀ m ∈ members, m.2.Distinct := by
  induction members with
  | nil => simp [DistinctMembers]
  | cons m members ih =>
      obtain ⟨key, value⟩ := m
      simp only [DistinctMembers, ih, List.forall_mem_cons]

theorem normalValues_eq (values : List Value) : normalValues values = values.map Value.normal := by
  induction values with
  | nil => rfl
  | cons v values ih => rw [normalValues, ih, List.map_cons]

theorem normalMembers_eq (members : List (String × Value)) :
    normalMembers members = members.map fun m => (m.1, m.2.normal) := by
  induction members with
  | nil => rfl
  | cons m members ih =>
      obtain ⟨key, value⟩ := m
      rw [normalMembers, ih, List.map_cons]

/-! ## Members by key -/

section ByKey

variable {α : Type} {members ms ns : List (String × α)}

theorem insertByKey_eq (key : String) (value : α) (l : List (String × α)) :
    insertByKey key value l = SortedMap.insertEntry key value l := by
  induction l with
  | nil => rfl
  | cons e l ih =>
      obtain ⟨key', value'⟩ := e
      simp only [insertByKey, SortedMap.insertEntry, ih]
      by_cases heq : key = key'
      · simp [heq]
      · simp [heq]

theorem sortByKey_eq (members : List (String × α)) :
    sortByKey members = (SortedMap.empty.insertAll members).entries := by
  have hfold : ∀ (l : List (String × α)) (m : SortedMap String α),
      l.foldl (fun acc e => insertByKey e.1 e.2 acc) m.entries = (m.insertAll l).entries := by
    intro l
    induction l with
    | nil => exact fun _ => rfl
    | cons e l ih =>
        intro m
        rw [List.foldl_cons, insertByKey_eq]
        exact ih (m.insert e.1 e.2)
  exact hfold members SortedMap.empty

theorem sortByKey_perm (h : (members.map Prod.fst).Nodup) : (sortByKey members).Perm members := by
  rw [sortByKey_eq]
  have hperm := SortedMap.insertAll_perm (m := SortedMap.empty) h fun _ _ => List.not_mem_nil
  simpa [SortedMap.empty] using hperm

theorem sortByKey_congr (hperm : ms.Perm ns) (h : (ms.map Prod.fst).Nodup) :
    sortByKey ms = sortByKey ns := by
  have hn : (ns.map Prod.fst).Nodup := (hperm.map Prod.fst).nodup_iff.1 h
  have hsorted : (sortByKey ms).Perm (sortByKey ns) :=
    (sortByKey_perm h).trans (hperm.trans (sortByKey_perm hn).symm)
  rw [sortByKey_eq, sortByKey_eq] at hsorted ⊢
  exact hsorted.eq_of_pairwise (fun _ _ _ _ hab hba => absurd hba (lt_asymm hab))
    (SortedMap.sorted _) (SortedMap.sorted _)

theorem sortByKey_sortByKey (members : List (String × α)) :
    sortByKey (sortByKey members) = sortByKey members := by
  rw [sortByKey_eq, sortByKey_eq, SortedMap.insertAll_entries]

end ByKey

/-! ## Normal forms -/

namespace Value

theorem Reorders.preserves {v w : Value} (h : Reorders Eq v w) :
    (v.Distinct ↔ w.Distinct) ∧ (v.Distinct → v.normal = w.normal) := by
  induction h with
  | refl v => exact ⟨Iff.rfl, fun _ => rfl⟩
  | number hsame => exact ⟨Iff.rfl, fun _ => by rw [hsame]⟩
  | symm _ ih => exact ⟨ih.1.symm, fun hw => (ih.2 (ih.1.2 hw)).symm⟩
  | trans _ _ ihuv ihvw =>
      exact ⟨ihuv.1.trans ihvw.1, fun hu => (ihuv.2 hu).trans (ihvw.2 (ihuv.1.1 hu))⟩
  | @perm ms ns hperm =>
      constructor
      · simp only [Distinct, distinctMembers_iff, hperm.mem_iff, (hperm.map Prod.fst).nodup_iff]
      · intro hms
        have hkeys : ((normalMembers ms).map Prod.fst).Nodup := by
          rw [normalMembers_eq, List.map_map]
          exact hms.1
        rw [normal, normal, sortByKey_congr _ hkeys]
        rw [normalMembers_eq, normalMembers_eq]
        exact hperm.map _
  | item l r _ ih =>
      constructor
      · simp only [Distinct, distinctValues_iff, List.forall_mem_append, List.forall_mem_cons, ih.1]
      · intro hl
        simp only [Distinct, distinctValues_iff, List.forall_mem_append, List.forall_mem_cons] at hl
        simp only [normal, normalValues_eq, List.map_append, List.map_cons, ih.2 hl.2.1]
  | member l key r _ ih =>
      constructor
      · simp only [Distinct, distinctMembers_iff, List.forall_mem_append, List.forall_mem_cons, ih.1,
          List.map_append, List.map_cons]
      · intro hl
        simp only [Distinct, distinctMembers_iff, List.forall_mem_append, List.forall_mem_cons] at hl
        simp only [normal, normalMembers_eq, List.map_append, List.map_cons, ih.2 hl.2.2.1]

theorem Reorders.items {f : Value → Value} {vs : List Value} (h : ∀ v ∈ vs, Reorders Eq v (f v))
    (l : List Value) : Reorders Eq (.array (l ++ vs)) (.array (l ++ vs.map f)) := by
  induction vs generalizing l with
  | nil => exact .refl _
  | cons v vs ih =>
      have hrest := ih (fun w hw => h w (List.mem_cons_of_mem v hw)) (l ++ [f v])
      simp only [List.append_assoc, List.singleton_append] at hrest
      exact (Reorders.item l vs (h v List.mem_cons_self)).trans hrest

theorem Reorders.members {f : Value → Value} {ms : List (String × Value)}
    (h : ∀ m ∈ ms, Reorders Eq m.2 (f m.2)) (l : List (String × Value)) :
    Reorders Eq (.object (l ++ ms)) (.object (l ++ ms.map fun m => (m.1, f m.2))) := by
  induction ms generalizing l with
  | nil => exact .refl _
  | cons m ms ih =>
      have hrest := ih (fun n hn => h n (List.mem_cons_of_mem m hn)) (l ++ [(m.1, f m.2)])
      simp only [List.append_assoc, List.singleton_append] at hrest
      exact (Reorders.member l m.1 ms (h m List.mem_cons_self)).trans hrest

mutual

theorem reorders_normal : ∀ {v : Value}, v.Distinct → Reorders Eq v v.normal
  | .null, _ => .refl _
  | .bool _, _ => .refl _
  | .number _, _ => .refl _
  | .string _, _ => .refl _
  | .array values, h => by
      rw [normal, normalValues_eq]
      exact Reorders.items (reorders_normalValues h) []
  | .object members, h => by
      have hkeys : ((normalMembers members).map Prod.fst).Nodup := by
        rw [normalMembers_eq, List.map_map]
        exact h.1
      have hvalues := Reorders.members (reorders_normalMembers h.2) []
      rw [normal]
      rw [List.nil_append, List.nil_append, ← normalMembers_eq] at hvalues
      exact hvalues.trans (.perm (sortByKey_perm hkeys).symm)

theorem reorders_normalValues : ∀ {values : List Value}, DistinctValues values →
    ∀ v ∈ values, Reorders Eq v v.normal
  | [], _ => by simp
  | _ :: _, h => List.forall_mem_cons.2 ⟨reorders_normal h.1, reorders_normalValues h.2⟩

theorem reorders_normalMembers : ∀ {members : List (String × Value)}, DistinctMembers members →
    ∀ m ∈ members, Reorders Eq m.2 m.2.normal
  | [], _ => by simp
  | (_, _) :: _, h => List.forall_mem_cons.2 ⟨reorders_normal h.1, reorders_normalMembers h.2⟩

end

theorem reorders_iff {v w : Value} (hv : v.Distinct) (hw : w.Distinct) :
    Reorders Eq v w ↔ v.normal = w.normal := by
  constructor
  · exact fun h => h.preserves.2 hv
  · intro h
    have hnormal := reorders_normal hv
    rw [h] at hnormal
    exact hnormal.trans (reorders_normal hw).symm

end Value

/-! ## Reading a text back -/

mutual

/-- How many arrays and objects stand inside each other. -/
def Value.depth : Value → Nat
  | .array values => depthOfValues values + 1
  | .object members => depthOfMembers members + 1
  | .null => 0
  | .bool _ => 0
  | .number _ => 0
  | .string _ => 0

def depthOfValues : List Value → Nat
  | [] => 0
  | value :: values => max value.depth (depthOfValues values)

def depthOfMembers : List (String × Value) → Nat
  | [] => 0
  | (_, value) :: members => max value.depth (depthOfMembers members)

end

/-- `remaining_depth` of a new `Deserializer`. -/
def remainingDepth : Nat := 128

section Reading

variable (readNumber : List Char → Option Number)

mutual

/-- JSON syntax as a value: members by key, and of two with one key the later.  An array or an
object lowers the remaining depth, and is refused when that leaves none. -/
def Value.ofJson (remaining : Nat) : Json → Option Value
  | .null => some .null
  | .bool b => some (.bool b)
  | .num token => (readNumber token).map .number
  | .str s => some (.string (String.ofList s))
  | .arr items =>
      if remaining - 1 = 0 then none else (ofJsonItems (remaining - 1) items).map .array
  | .obj members =>
      if remaining - 1 = 0 then none
      else (ofJsonMembers (remaining - 1) members).map fun ms => .object (sortByKey ms)

def ofJsonItems (remaining : Nat) : List Json → Option (List Value)
  | [] => some []
  | item :: items =>
      (Value.ofJson remaining item).bind fun value =>
        (ofJsonItems remaining items).map (value :: ·)

def ofJsonMembers (remaining : Nat) : List (List Char × Json) → Option (List (String × Value))
  | [] => some []
  | (key, item) :: members =>
      (Value.ofJson remaining item).bind fun value =>
        (ofJsonMembers remaining members).map ((String.ofList key, value) :: ·)

end

/-- `serde_json::from_str`. -/
def parseValue (text : List Char) : Option Value :=
  (Json.decode text).bind (Value.ofJson readNumber remainingDepth)

/-- The reader gives the number back whose text it reads. -/
def ReadBack (lib : Libraries) (n : Number) : Prop := readNumber (n.token lib) = some n

variable {readNumber} {lib : Libraries}

theorem ofJsonItems_toJsonValues {remaining : Nat} {values : List Value}
    (h : ∀ v ∈ values, Value.ofJson readNumber remaining (v.toJson lib) = some v) :
    ofJsonItems readNumber remaining (toJsonValues lib values) = some values := by
  induction values with
  | nil => rfl
  | cons v values ih =>
      have hv := h v List.mem_cons_self
      have hvalues := ih fun w hw => h w (List.mem_cons_of_mem v hw)
      simp [toJsonValues, ofJsonItems, hv, hvalues]

theorem ofJsonMembers_toJsonMembers {remaining : Nat} {members : List (String × Value)}
    (h : ∀ m ∈ members, Value.ofJson readNumber remaining (m.2.toJson lib) = some m.2) :
    ofJsonMembers readNumber remaining (toJsonMembers lib members) = some members := by
  induction members with
  | nil => rfl
  | cons m members ih =>
      obtain ⟨key, value⟩ := m
      have hvalue := h (key, value) List.mem_cons_self
      have hmembers := ih fun n hn => h n (List.mem_cons_of_mem _ hn)
      simp [toJsonMembers, ofJsonMembers, hvalue, hmembers]

mutual

theorem Value.ofJson_normal : ∀ {v : Value} {remaining : Nat}, v.Numbers (ReadBack readNumber lib) →
    v.depth < remaining → Value.ofJson readNumber remaining (v.normal.toJson lib) = some v.normal
  | .null, _, _, _ => rfl
  | .bool _, _, _, _ => rfl
  | .number n, _, h, _ => by
      rw [Value.normal, Value.toJson, Value.ofJson, show readNumber (n.token lib) = some n from h]
      rfl
  | .string s, _, _, _ => by
      rw [Value.normal, Value.toJson, Value.ofJson, String.ofList_toList]
  | .array values, remaining, h, hdepth => by
      rw [Value.depth] at hdepth
      rw [Value.normal, Value.toJson, Value.ofJson, if_neg (by omega), normalValues_eq,
        ofJsonItems_toJsonValues]
      · rfl
      · intro v hv
        obtain ⟨w, hw, rfl⟩ := List.mem_map.1 hv
        exact ofJson_normalValues h (by omega) w hw
  | .object members, remaining, h, hdepth => by
      rw [Value.depth] at hdepth
      rw [Value.normal, Value.toJson, Value.ofJson, if_neg (by omega), ofJsonMembers_toJsonMembers]
      · rw [Option.map_some, sortByKey_sortByKey]
      · intro m hm
        rw [normalMembers_eq] at hm
        obtain ⟨n, hn, rfl⟩ := List.mem_map.1 (mem_sortByKey hm)
        exact ofJson_normalMembers h (by omega) n hn

theorem ofJson_normalValues : ∀ {values : List Value} {remaining : Nat},
    NumbersOfValues (ReadBack readNumber lib) values → depthOfValues values < remaining →
      ∀ v ∈ values, Value.ofJson readNumber remaining (v.normal.toJson lib) = some v.normal
  | [], _, _, _ => by simp
  | _ :: _, _, h, hdepth =>
      List.forall_mem_cons.2 ⟨Value.ofJson_normal h.1 (max_lt_iff.1 hdepth).1,
        ofJson_normalValues h.2 (max_lt_iff.1 hdepth).2⟩

theorem ofJson_normalMembers : ∀ {members : List (String × Value)} {remaining : Nat},
    NumbersOfMembers (ReadBack readNumber lib) members → depthOfMembers members < remaining →
      ∀ m ∈ members, Value.ofJson readNumber remaining (m.2.normal.toJson lib) = some m.2.normal
  | [], _, _, _ => by simp
  | _ :: _, _, h, hdepth =>
      List.forall_mem_cons.2 ⟨Value.ofJson_normal h.1 (max_lt_iff.1 hdepth).1,
        ofJson_normalMembers h.2 (max_lt_iff.1 hdepth).2⟩

end

theorem parseValue_canonical (hfloat : PrintsFloats lib) {v : Value} (hfits : v.Numbers Number.Fits)
    (hread : v.Numbers (ReadBack readNumber lib)) (hdepth : v.depth < remainingDepth) :
    parseValue readNumber (v.normal.toJson lib).print = some v.normal := by
  have hvalid := Value.valid_toJson hfloat (Value.numbers_normal hfits)
  rw [parseValue, Json.decode_print hvalid, Option.bind_some, Value.ofJson_normal hread hdepth]

end Reading

mutual

theorem Value.numbers_mp {p q r : Number → Prop} (hpq : ∀ n, p n → q n → r n) : ∀ {v : Value},
    v.Numbers p → v.Numbers q → v.Numbers r
  | .null, _, _ => trivial
  | .bool _, _, _ => trivial
  | .number n, hp, hq => hpq n hp hq
  | .string _, _, _ => trivial
  | .array _, hp, hq => numbersOfValues_mp hpq hp hq
  | .object _, hp, hq => numbersOfMembers_mp hpq hp hq

theorem numbersOfValues_mp {p q r : Number → Prop} (hpq : ∀ n, p n → q n → r n) :
    ∀ {values : List Value}, NumbersOfValues p values → NumbersOfValues q values →
      NumbersOfValues r values
  | [], _, _ => trivial
  | _ :: _, hp, hq => ⟨Value.numbers_mp hpq hp.1 hq.1, numbersOfValues_mp hpq hp.2 hq.2⟩

theorem numbersOfMembers_mp {p q r : Number → Prop} (hpq : ∀ n, p n → q n → r n) :
    ∀ {members : List (String × Value)}, NumbersOfMembers p members → NumbersOfMembers q members →
      NumbersOfMembers r members
  | [], _, _ => trivial
  | _ :: _, hp, hq => ⟨Value.numbers_mp hpq hp.1 hq.1, numbersOfMembers_mp hpq hp.2 hq.2⟩

end

/-- The reader gives a float back whose text it reads; nothing is asked of integers. -/
def FloatReadBack (readNumber : List Char → Option Number) (lib : Libraries) (n : Number) : Prop :=
  ∀ bits, n = .float bits → ReadBack readNumber lib n

/-- Two values have the same canonical text exactly when they are equal up to the order of members
and the sign of zeros is the same.  The text of a value that the reader's limit of depth allows, and
whose floats it reads back, gives such a value back. -/
theorem canonical_json_faithful (lib : Libraries) (hquote : QuotesStrings lib)
    (hfloat : PrintsFloats lib) (readNumber : List Char → Option Number)
    (hread : ∀ i : Int, (Number.int i).Fits → ReadBack readNumber lib (.int i)) (v w : SerdeValue) :
    (canonicalJson lib v.value = canonicalJson lib w.value ↔ Value.Reorders Eq v.value w.value) ∧
      (v.value.depth < remainingDepth → v.value.Numbers (FloatReadBack readNumber lib) →
        ∃ text u, canonicalJson lib v.value = encode text ∧ parseValue readNumber text = some u ∧
          Value.Reorders Eq u v.value) := by
  constructor
  · rw [Value.reorders_iff v.distinct w.distinct]
    constructor
    · exact canonicalJson_injOn hquote hfloat v.fits w.fits
    · intro h
      rw [canonicalJson_eq hquote, canonicalJson_eq hquote, h]
  · intro hdepth hfloats
    have hnumbers : v.value.Numbers (ReadBack readNumber lib) := by
      refine Value.numbers_mp ?_ v.fits hfloats
      intro n hfits hback
      cases n with
      | int i => exact hread i hfits
      | float bits => exact hback bits rfl
    exact ⟨_, v.value.normal, canonicalJson_eq hquote v.value,
      parseValue_canonical hfloat v.fits hnumbers hdepth, (Value.reorders_normal v.distinct).symm⟩

/-! ## A reader of numbers -/

/-- The digits of an integer, behind their sign. -/
def readInteger : List Char → Option Int
  | '-' :: digits => (parseDigits digits).map fun n => -Int.ofNat n
  | digits => (parseDigits digits).map Int.ofNat

/-- A token with a point or an exponent is a float, any other an integer. -/
def readToken (token : List Char) : Option Number :=
  if token.any fun c => c = '.' || c = 'e' then (AuditEntry.readFloat token).map .float
  else (readInteger token).map .int

theorem readInteger_token (lib : Libraries) (i : Int) :
    readInteger ((Number.int i).token lib) = some i := by
  cases i with
  | ofNat n =>
      rw [token_ofNat, readInteger]
      · rw [parseDigits_decimal]
        rfl
      · intro digits hminus
        exact not_mem_decimal (by decide) n (hminus ▸ List.mem_cons_self : '-' ∈ decimal n)
  | negSucc n =>
      rw [token_negSucc, readInteger, parseDigits_decimal]
      rfl

theorem readBack_int (lib : Libraries) (i : Int) : ReadBack readToken lib (.int i) := by
  have hany : ((Number.int i).token lib).any (fun c => c = '.' || c = 'e') = false := by
    rw [List.any_eq_false]
    intro c hmem hc
    exact not_mem_token_int (by simpa using hc) hmem
  rw [ReadBack, readToken, if_neg (by simp [hany]), readInteger_token]
  rfl

/-! ## Values that are equal or not -/

def nested : Nat → Value
  | 0 => .null
  | n + 1 => .array [nested n]

theorem fits_nested (n : Nat) : (nested n).Numbers Number.Fits := by
  induction n with
  | zero => trivial
  | succ n ih => exact ⟨ih, trivial⟩

theorem ofJson_nested (readNumber : List Char → Option Number) (lib : Libraries) {n remaining : Nat}
    (hpos : 0 < remaining) (h : remaining ≤ n) :
    Value.ofJson readNumber remaining ((nested n).normal.toJson lib) = none := by
  induction n generalizing remaining with
  | zero => omega
  | succ n ih =>
      change Value.ofJson readNumber remaining (.arr [(nested n).normal.toJson lib]) = none
      rw [Value.ofJson]
      split
      · rfl
      · next hrest => rw [ofJsonItems, ih (Nat.pos_of_ne_zero hrest) (by omega)]; rfl

/-- The two zeros are equal values with different texts, and the text of 128 nested arrays is not
read, whatever the reader of numbers. -/
theorem zeros_and_depth_not_faithful :
    (Value.Reorders (fun m n => m.eq n = true) (.number (.float 0))
        (.number (.float AuditEntry.negZero)) ∧
      canonicalJson AuditEntry.preimageLib (.number (.float 0)) ≠
        canonicalJson AuditEntry.preimageLib (.number (.float AuditEntry.negZero))) ∧
    ∀ readNumber, ∃ text, canonicalJson AuditEntry.preimageLib (nested 128) = encode text ∧
      parseValue readNumber text = none := by
  refine ⟨⟨.number (by decide), by decide⟩, fun readNumber => ?_⟩
  refine ⟨_, canonicalJson_eq (fun _ => rfl) (nested 128), ?_⟩
  have hvalid := Value.valid_toJson AuditEntry.printsFloats_preimageLib
    (Value.numbers_normal (fits_nested 128))
  rw [parseValue, Json.decode_print hvalid, Option.bind_some]
  exact ofJson_nested readNumber _ (by decide) (Nat.le_refl _)

/-- An object with a float and an array under two keys. -/
def sampleMembers (k l : String) : List (String × Value) :=
  [(k, .number (.float AuditEntry.oneAndHalf)),
    (l, .array [.number (.int 1), .number (.int (-2))])]

theorem fits_sampleMembers (k l : String) : NumbersOfMembers Number.Fits (sampleMembers k l) := by
  simp [sampleMembers, NumbersOfMembers, NumbersOfValues, Value.Numbers, Number.Fits]
  decide

def sampleValue (k l : String) (h : k ≠ l) : SerdeValue where
  value := .object (sampleMembers k l)
  fits := fits_sampleMembers k l
  distinct := ⟨by simpa [sampleMembers] using h, trivial, ⟨trivial, trivial, trivial⟩, trivial⟩

def reversedValue (k l : String) (h : k ≠ l) : SerdeValue where
  value := .object (sampleMembers k l).reverse
  fits := ⟨(fits_sampleMembers k l).2.1, (fits_sampleMembers k l).1, trivial⟩
  distinct := ⟨by simpa [sampleMembers] using h.symm, ⟨trivial, trivial, trivial⟩, trivial, trivial⟩

/-- Members in either order have one text, which reads back, and another value has another text. -/
theorem canonical_json_faithful_sample :
    canonicalJson AuditEntry.preimageLib (sampleValue "z" "a" (by decide)).value =
        canonicalJson AuditEntry.preimageLib (reversedValue "z" "a" (by decide)).value ∧
      (∃ text u, canonicalJson AuditEntry.preimageLib (sampleValue "z" "a" (by decide)).value =
        encode text ∧ parseValue readToken text = some u ∧
          Value.Reorders Eq u (sampleValue "z" "a" (by decide)).value) ∧
      ¬ Value.Reorders Eq (sampleValue "z" "a" (by decide)).value
        (sampleValue "a" "z" (by decide)).value := by
  have hfaithful := canonical_json_faithful AuditEntry.preimageLib (fun _ => rfl)
    AuditEntry.printsFloats_preimageLib readToken (fun i _ => readBack_int _ i)
    (sampleValue "z" "a" (by decide))
  refine ⟨(hfaithful (reversedValue "z" "a" (by decide))).1.2 (.perm (List.reverse_perm _).symm),
    (hfaithful (sampleValue "z" "a" (by decide))).2 (by decide) ?_, ?_⟩
  · refine ⟨fun bits hbits => ?_, ⟨fun _ h => ?_, fun _ h => ?_, trivial⟩, trivial⟩
    · rfl
    · cases h
    · cases h
  · intro h
    have htext := (hfaithful (sampleValue "a" "z" (by decide))).1.2 h
    revert htext
    decide

end Audit
end Maju
