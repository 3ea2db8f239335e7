import Maju.Lib.Json
import Maju.Lib.SortedMap
import Mathlib.Data.Char

/-!
# JsonValue — what a JSON text denotes

Two texts denote one value if they are the same up to whitespace, escapes and the order of members.

* `Json.normal` — objects as maps, at every depth;
* `Json.normal_normal`, `Json.valid_normal` — a normal form is its own normal form, and prints;
* `Json.parseChars_split` — where the body of a string literal ends;
* `Json.parseChars_self` — a text is the body of a literal that stands for that text only if it has
  nothing to escape.
-/

namespace Maju
namespace Lib
namespace Json

/-! ## Normal forms -/

/-- Members filled one after another into a map. -/
def sortMembers (members : List (List Char × Json)) : List (List Char × Json) :=
  (SortedMap.empty.insertAll members).entries

mutual

/-- The value with its objects as maps. -/
def normal : Json → Json
  | .arr items => .arr (normalItems items)
  | .obj members => .obj (sortMembers (normalMembers members))
  | .null => .null
  | .bool b => .bool b
  | .num token => .num token
  | .str s => .str s

def normalItems : List Json → List Json
  | [] => []
  | v :: vs => v.normal :: normalItems vs

def normalMembers : List (List Char × Json) → List (List Char × Json)
  | [] => []
  | (k, v) :: ms => (k, v.normal) :: normalMembers ms

end

theorem mem_insertEntry {k : List Char} {v : Json} {l : List (List Char × Json)}
    {e : List Char × Json} (h : e ∈ SortedMap.insertEntry k v l) : e = (k, v) ∨ e ∈ l := by
  induction l with
  | nil => exact Or.inl (List.mem_singleton.1 h)
  | cons d rest ih =>
      unfold SortedMap.insertEntry at h
      split_ifs at h with hlt heq
      · exact (List.mem_cons.1 h)
      · rcases List.mem_cons.1 h with hnew | hold
        · exact Or.inl hnew
        · exact Or.inr (List.mem_cons_of_mem _ hold)
      · rcases List.mem_cons.1 h with hfirst | hrest
        · exact Or.inr (hfirst ▸ List.mem_cons_self)
        · rcases ih hrest with hnew | hold
          · exact Or.inl hnew
          · exact Or.inr (List.mem_cons_of_mem _ hold)

/-- The map has no other members. -/
theorem mem_sortMembers {members : List (List Char × Json)} {e : List Char × Json}
    (h : e ∈ sortMembers members) : e ∈ members := by
  have hfold : ∀ (l : List (List Char × Json)) (m : SortedMap (List Char) Json),
      e ∈ (m.insertAll l).entries → e ∈ m.entries ∨ e ∈ l := by
    intro l
    induction l with
    | nil => exact fun m hm => Or.inl hm
    | cons d l ih =>
        intro m hm
        rcases ih (m.insert d.1 d.2) hm with hin | hin
        · rcases mem_insertEntry hin with hnew | hold
          · exact Or.inr (hnew ▸ List.mem_cons_self)
          · exact Or.inl hold
        · exact Or.inr (List.mem_cons_of_mem _ hin)
  rcases hfold members SortedMap.empty h with hempty | hin
  · cases hempty
  · exact hin

theorem sortMembers_sortMembers (members : List (List Char × Json)) :
    sortMembers (sortMembers members) = sortMembers members := by
  rw [sortMembers, sortMembers, SortedMap.insertAll_entries]

theorem normalMembers_eq_self {members : List (List Char × Json)}
    (h : ∀ e ∈ members, e.2.normal = e.2) : normalMembers members = members := by
  induction members with
  | nil => rfl
  | cons e ms ih =>
      obtain ⟨k, v⟩ := e
      rw [normalMembers, h (k, v) List.mem_cons_self,
        ih fun d hd => h d (List.mem_cons_of_mem _ hd)]

mutual

theorem normal_normal : ∀ v : Json, v.normal.normal = v.normal
  | .null => rfl
  | .bool _ => rfl
  | .num _ => rfl
  | .str _ => rfl
  | .arr items => by rw [normal, normal, normalItems_normalItems items]
  | .obj members => by
      have hself : ∀ e ∈ sortMembers (normalMembers members), e.2.normal = e.2 :=
        fun e he => normal_of_mem members e (mem_sortMembers he)
      rw [normal, normal, normalMembers_eq_self hself, sortMembers_sortMembers]

theorem normalItems_normalItems : ∀ vs : List Json, normalItems (normalItems vs) = normalItems vs
  | [] => rfl
  | v :: vs => by rw [normalItems, normalItems, normal_normal v, normalItems_normalItems vs]

theorem normal_of_mem : ∀ (ms : List (List Char × Json)), ∀ e ∈ normalMembers ms, e.2.normal = e.2
  | [], e, he => by cases he
  | (k, v) :: ms, e, he => by
      rcases List.mem_cons.1 he with rfl | hin
      · exact normal_normal v
      · exact normal_of_mem ms e hin

end

theorem validMembers_iff {ms : List (List Char × Json)} :
    ValidMembers ms ↔ ∀ e ∈ ms, Valid e.2 := by
  induction ms with
  | nil => simp [ValidMembers]
  | cons e ms ih =>
      obtain ⟨k, v⟩ := e
      simp only [ValidMembers, ih, List.forall_mem_cons]

mutual

theorem valid_normal : ∀ v : Json, Valid v → Valid v.normal
  | .null, h => h
  | .bool _, h => h
  | .num _, h => h
  | .str _, h => h
  | .arr items, h => validItems_normalItems items h
  | .obj members, h =>
      validMembers_iff.2 fun e he =>
        validMembers_iff.1 (validMembers_normalMembers members h) e (mem_sortMembers he)

theorem validItems_normalItems : ∀ vs : List Json, ValidItems vs → ValidItems (normalItems vs)
  | [], h => h
  | v :: vs, h => ⟨valid_normal v h.1, validItems_normalItems vs h.2⟩

theorem validMembers_normalMembers :
    ∀ ms : List (List Char × Json), ValidMembers ms → ValidMembers (normalMembers ms)
  | [], h => h
  | (_, v) :: ms, h => ⟨valid_normal v h.1, validMembers_normalMembers ms h.2⟩

end

/-! ## The body of a string literal -/

theorem not_mem_of_parseHex {digits : List Char} {n : Nat} (h : parseHex digits = some n) :
    '"' ∉ digits := by
  have hfold : ∀ (l : List Char) (acc : Nat), '"' ∈ l →
      l.foldlM (fun acc c => (hexValue c).map fun d => acc * 16 + d) acc = none := by
    intro l
    induction l with
    | nil => exact fun acc hmem => by cases hmem
    | cons c l ih =>
        intro acc hmem
        rw [List.foldlM_cons]
        rcases List.mem_cons.1 hmem with rfl | hmem
        · rfl
        · cases hc : hexValue c with
          | none => rfl
          | some d => exact ih _ hmem
  intro hmem
  rw [parseHex, hfold digits 0 hmem] at h
  cases h

/-- Four digits in front of what is left. -/
theorem parseUnit_split {text rest : List Char} {n : Nat} (h : parseUnit text = some (n, rest)) :
    ∃ digits, text = digits ++ rest ∧ '"' ∉ digits ∧ digits ≠ [] := by
  unfold parseUnit at h
  split at h
  · next a b c d tail =>
      obtain ⟨m, hm, heq⟩ := Option.map_eq_some_iff.1 h
      cases heq
      exact ⟨[a, b, c, d], rfl, not_mem_of_parseHex hm, nofun⟩
  · cases h

/-- An escape has at least one character behind the backslash, and a quotation mark among them
stands for itself. -/
theorem parseEscape_split {text rest : List Char} {d : Char}
    (h : parseEscape text = some (d, rest)) :
    ∃ c tail, text = c :: (tail ++ rest) ∧ '"' ∉ tail ∧ (c = '"' → d = '"') := by
  unfold parseEscape at h
  split at h
  case h_9 =>
      unfold parseUnicode at h
      split at h
      · cases h
      · next n behind hunit =>
          obtain ⟨digits, rfl, hquote, -⟩ := parseUnit_split hunit
          split_ifs at h with hhigh hlow
          · split at h
            · next low =>
                split at h
                · next m stop hlowUnit =>
                    obtain ⟨digits', rfl, hquote', -⟩ := parseUnit_split hlowUnit
                    obtain ⟨-, hpair⟩ := Option.ite_none_right_eq_some.1 h
                    obtain rfl : stop = rest := congrArg Prod.snd (Option.some.inj hpair)
                    refine ⟨'u', digits ++ '\\' :: 'u' :: digits', by simp, ?_, nofun⟩
                    simp [hquote, hquote']
                · cases h
            · cases h
          · cases h
            exact ⟨'u', digits, rfl, hquote, nofun⟩
  case h_10 => cases h
  all_goals
    cases h
    exact ⟨_, [], rfl, List.not_mem_nil, by simp⟩

/-- A literal that is read has a body up to its closing quotation mark.  The body is at least as
long as what it stands for, and as long only if nothing in it is escaped; a quotation mark in the
body stands for one that comes earlier in what is read. -/
theorem parseChars_split {n : Nat} {text s rest : List Char}
    (h : parseChars n text = some (s, rest)) :
    ∃ body : List Char, text = body ++ '"' :: rest ∧ s.length ≤ body.length ∧
      (body.length ≤ s.length → body = s ∧ ∀ c ∈ s, escapeChar c = [c]) ∧
      ∀ k : Nat, body[k]? = some '"' → ∃ j < k, s[j]? = some '"' := by
  induction n generalizing text s rest with
  | zero => cases h
  | succ n ih =>
      cases text with
      | nil => cases h
      | cons c text =>
          rw [parseChars] at h
          by_cases hquote : c = '"'
          · rw [if_pos hquote] at h
            cases h
            exact ⟨[], by rw [hquote]; rfl, Nat.le_refl _, fun _ => ⟨rfl, by simp⟩, by simp⟩
          · rw [if_neg hquote] at h
            by_cases hback : c = '\\'
            · rw [if_pos hback] at h
              cases hescape : parseEscape text with
              | none =>
                  rw [hescape] at h
                  cases h
              | some pair =>
                  obtain ⟨d, behind⟩ := pair
                  rw [hescape] at h
                  obtain ⟨⟨s', rest'⟩, hparse, heq⟩ := Option.map_eq_some_iff.1 h
                  cases heq
                  obtain ⟨first, tail, rfl, htail, hfirst⟩ := parseEscape_split hescape
                  obtain ⟨body, rfl, hlen, -, hmark⟩ := ih hparse
                  refine ⟨c :: first :: (tail ++ body), by simp, ?_, ?_, ?_⟩
                  · simp only [List.length_cons, List.length_append]
                    omega
                  · intro hle
                    simp only [List.length_cons, List.length_append] at hle
                    omega
                  · intro k hk
                    cases k with
                    | zero => exact absurd (Option.some.inj hk) hquote
                    | succ k =>
                        cases k with
                        | zero =>
                            have hd := hfirst (Option.some.inj hk)
                            exact ⟨0, by omega, congrArg some hd⟩
                        | succ k =>
                            rw [List.getElem?_cons_succ, List.getElem?_cons_succ] at hk
                            by_cases hin : k < tail.length
                            · rw [List.getElem?_append_left hin] at hk
                              exact absurd (List.mem_of_getElem? hk) htail
                            · rw [List.getElem?_append_right (Nat.le_of_not_lt hin)] at hk
                              obtain ⟨j, hj, hsj⟩ := hmark _ hk
                              exact ⟨j + 1, by omega, hsj⟩
            · rw [if_neg hback] at h
              by_cases hcontrol : c.toNat < 32
              · rw [if_pos hcontrol] at h
                cases h
              · rw [if_neg hcontrol] at h
                obtain ⟨⟨s', rest'⟩, hparse, heq⟩ := Option.map_eq_some_iff.1 h
                cases heq
                obtain ⟨body, rfl, hlen, hself, hmark⟩ := ih hparse
                have hplain : escapeChar c = [c] :=
                  escapeChar_eq_self hquote hback (Nat.le_of_not_lt hcontrol)
                refine ⟨c :: body, rfl, Nat.succ_le_succ hlen, ?_, ?_⟩
                · intro hle
                  obtain ⟨rfl, hrest⟩ := hself (Nat.le_of_succ_le_succ hle)
                  exact ⟨rfl, List.forall_mem_cons.2 ⟨hplain, hrest⟩⟩
                · intro k hk
                  cases k with
                  | zero => exact absurd (Option.some.inj hk) hquote
                  | succ k =>
                      obtain ⟨j, hj, hsj⟩ := hmark k hk
                      exact ⟨j + 1, Nat.succ_lt_succ hj, hsj⟩

theorem plain_of_escapeChar {c : Char} (h : escapeChar c = [c]) :
    c ≠ '"' ∧ c ≠ '\\' ∧ 32 ≤ c.toNat := by
  have hcontrol : ∀ n < 32, escapeChar (Char.ofNat n) ≠ [Char.ofNat n] := by decide
  refine ⟨?_, ?_, ?_⟩
  · rintro rfl
    exact absurd h (by decide)
  · rintro rfl
    exact absurd h (by decide)
  · by_contra hlow
    have hc := hcontrol c.toNat (Nat.lt_of_not_le hlow)
    rw [Char.ofNat_toNat] at hc
    exact hc h

/-- A text that is read as itself, up to the quotation mark behind it, has nothing to escape. -/
theorem parseChars_self {n : Nat} {s tail rest : List Char}
    (h : parseChars n (s ++ '"' :: tail) = some (s, rest)) : ∀ c ∈ s, escapeChar c = [c] := by
  obtain ⟨body, hsplit, -, hself, hmark⟩ := parseChars_split h
  rcases Nat.lt_or_ge s.length body.length with hlong | hshort
  · -- the mark behind the text is in the body, and so are earlier and earlier ones in the text
    have hsame : ∀ k ≤ s.length, body[k]? = (s ++ '"' :: tail)[k]? := by
      intro k hk
      rw [hsplit, List.getElem?_append_left (by omega)]
    have hnone : ∀ k ≤ s.length, body[k]? ≠ some '"' := by
      intro k
      induction k using Nat.strongRecOn with
      | ind k ih =>
          intro hk hbody
          obtain ⟨j, hj, hsj⟩ := hmark k hbody
          have hjs : j < s.length := (List.getElem?_eq_some_iff.1 hsj).1
          refine ih j hj (Nat.le_of_lt hjs) ?_
          rw [hsame j (Nat.le_of_lt hjs), List.getElem?_append_left hjs, hsj]
    refine absurd ?_ (hnone s.length (Nat.le_refl _))
    rw [hsame s.length (Nat.le_refl _), List.getElem?_append_right (Nat.le_refl _), Nat.sub_self]
    rfl
  · exact (hself hshort).2

/-! ## The length of a text -/

mutual

/-- The characters of all texts in a value. -/
def textSize : Json → Nat
  | .str s => s.length
  | .arr items => textSizeItems items
  | .obj members => textSizeMembers members
  | _ => 0

def textSizeItems : List Json → Nat
  | [] => 0
  | v :: vs => textSize v + textSizeItems vs

def textSizeMembers : List (List Char × Json) → Nat
  | [] => 0
  | (k, v) :: ms => k.length + (textSize v + textSizeMembers ms)

end

theorem length_skipSpace_le (text : List Char) : (skipSpace text).length ≤ text.length :=
  List.length_dropWhile_le _ _

theorem parseChars_length {n : Nat} {text s rest : List Char}
    (h : parseChars n text = some (s, rest)) : s.length + rest.length ≤ text.length := by
  obtain ⟨body, rfl, hlen, -⟩ := parseChars_split h
  simp only [List.length_append, List.length_cons]
  omega

theorem parseString_length {n : Nat} {text s rest : List Char}
    (h : parseString n text = some (s, rest)) : s.length + rest.length ≤ text.length := by
  have hskip := length_skipSpace_le text
  unfold parseString at h
  split at h
  · next tail heq =>
      have hlen := parseChars_length h
      rw [heq, List.length_cons] at hskip
      omega
  · cases h

theorem parseColon_length {text rest : List Char} (h : parseColon text = some rest) :
    rest.length ≤ text.length := by
  have hskip := length_skipSpace_le text
  unfold parseColon at h
  split at h
  · next tail heq =>
      cases h
      rw [heq, List.length_cons] at hskip
      omega
  · cases h

/-- A parser reads at least as many characters as the texts in its value have. -/
theorem parse_length (n : Nat) :
    (∀ text v rest, parse n text = some (v, rest) → textSize v + rest.length ≤ text.length) ∧
      (∀ text vs rest, parseItems n text = some (vs, rest) →
        textSizeItems vs + rest.length ≤ text.length) ∧
      ∀ text ms rest, parseMembers n text = some (ms, rest) →
        textSizeMembers ms + rest.length ≤ text.length := by
  induction n with
  | zero => exact ⟨nofun, nofun, nofun⟩
  | succ n ih =>
      obtain ⟨ihValue, ihItems, ihMembers⟩ := ih
      refine ⟨?_, ?_, ?_⟩
      · intro text v rest h
        have hskip := length_skipSpace_le text
        rw [parse] at h
        split at h
        -- the three words
        iterate 3
          · next tail heq =>
              cases h
              rw [heq] at hskip
              simp only [List.length_cons, textSize] at hskip ⊢
              omega
        · next tail heq =>
            obtain ⟨⟨s, behind⟩, hchars, hpair⟩ := Option.map_eq_some_iff.1 h
            cases hpair
            have hlen := parseChars_length hchars
            rw [heq, List.length_cons] at hskip
            simp only [textSize]
            omega
        · next tail heq =>
            have hinner := length_skipSpace_le tail
            rw [heq, List.length_cons] at hskip
            split at h
            · next behind hclose =>
                cases h
                rw [hclose, List.length_cons] at hinner
                simp only [textSize, textSizeItems]
                omega
            · obtain ⟨⟨w, behind⟩, hfirst, h⟩ := Option.bind_eq_some_iff.1 h
              obtain ⟨⟨vs, stop⟩, hvs, hpair⟩ := Option.map_eq_some_iff.1 h
              cases hpair
              have hone := ihValue _ _ _ hfirst
              have hmore := ihItems _ _ _ hvs
              simp only [textSize, textSizeItems]
              omega
        · next tail heq =>
            have hinner := length_skipSpace_le tail
            rw [heq, List.length_cons] at hskip
            split at h
            · next behind hclose =>
                cases h
                rw [hclose, List.length_cons] at hinner
                simp only [textSize, textSizeMembers]
                omega
            · obtain ⟨⟨k, afterKey⟩, hkey, h⟩ := Option.bind_eq_some_iff.1 h
              obtain ⟨afterColon, hcolon, h⟩ := Option.bind_eq_some_iff.1 h
              obtain ⟨⟨w, behind⟩, hfirst, h⟩ := Option.bind_eq_some_iff.1 h
              obtain ⟨⟨ms, stop⟩, hms, hpair⟩ := Option.map_eq_some_iff.1 h
              cases hpair
              have hname := parseString_length hkey
              have hmiddle := parseColon_length hcolon
              have hone := ihValue _ _ _ hfirst
              have hmore := ihMembers _ _ _ hms
              simp only [textSize, textSizeMembers]
              omega
        · unfold parseNumber at h
          split_ifs at h
          cases h
          have hrest := List.length_dropWhile_le isNumChar (skipSpace text)
          simp only [textSize]
          omega
      · intro text vs rest h
        have hskip := length_skipSpace_le text
        rw [parseItems] at h
        split at h
        · next tail heq =>
            cases h
            rw [heq, List.length_cons] at hskip
            simp only [textSizeItems]
            omega
        · next tail heq =>
            obtain ⟨⟨w, behind⟩, hfirst, h⟩ := Option.bind_eq_some_iff.1 h
            obtain ⟨⟨ws, stop⟩, hvs, hpair⟩ := Option.map_eq_some_iff.1 h
            cases hpair
            have hone := ihValue _ _ _ hfirst
            have hmore := ihItems _ _ _ hvs
            rw [heq, List.length_cons] at hskip
            simp only [textSizeItems]
            omega
        · cases h
      · intro text ms rest h
        have hskip := length_skipSpace_le text
        rw [parseMembers] at h
        split at h
        · next tail heq =>
            cases h
            rw [heq, List.length_cons] at hskip
            simp only [textSizeMembers]
            omega
        · next tail heq =>
            obtain ⟨⟨k, afterKey⟩, hkey, h⟩ := Option.bind_eq_some_iff.1 h
            obtain ⟨afterColon, hcolon, h⟩ := Option.bind_eq_some_iff.1 h
            obtain ⟨⟨w, behind⟩, hfirst, h⟩ := Option.bind_eq_some_iff.1 h
            obtain ⟨⟨more, stop⟩, hms, hpair⟩ := Option.map_eq_some_iff.1 h
            cases hpair
            have hname := parseString_length hkey
            have hmiddle := parseColon_length hcolon
            have hone := ihValue _ _ _ hfirst
            have hmore := ihMembers _ _ _ hms
            rw [heq, List.length_cons] at hskip
            simp only [textSizeMembers]
            omega
        · cases h

/-- A text is at least as long as the texts in the value that it denotes. -/
theorem textSize_le {text : List Char} {v : Json} (h : decode text = some v) :
    textSize v ≤ text.length := by
  unfold decode at h
  split at h
  · next w rest hparse =>
      split_ifs at h
      cases h
      have hlen := (parse_length _).1 _ _ _ hparse
      omega
  · cases h

end Json
end Lib
end Maju
