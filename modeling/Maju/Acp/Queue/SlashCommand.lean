import Maju.Lib.Loop
import Maju.Lib.Slice
import Mathlib.Data.List.Sort

/-!
# SlashCommand — the command behind the mentions of a message

A message reaches an agent by mentioning it, so a command that is meant for the agent stands behind
one or more mentions.  `extractSlashCommand` takes the mentions off the front of a message: names
that are known, single words behind an at sign, and references by key.

* `skipMention`, `extractSlashCommand` — one turn of the loop, and the loop;
* `IsMention`, `Mentions` — a mention, and mentions that are separated by white space;
* `extractSlashCommand_spec` — what is returned, and when something is returned.

A word ends at the first character that cannot be in it, which need not be white space.
-/

namespace Maju
namespace Acp

open Lib

/-! ## Text -/

/-- A slice at an offset that is no boundary of characters. -/
inductive Panic where
  | charBoundary
  deriving DecidableEq, Repr

/-- `&s[start..]`. -/
def sliceFrom (s : Text) (start : Nat) : Except Panic Text :=
  match splitAtByte s start with
  | some (_, rest) => .ok rest
  | none => .error .charBoundary

/-- `str::find` for the first character of a kind. -/
def findByte (p : Char → Bool) (s : Text) : Option Nat :=
  if s.any p then some (byteLen (s.takeWhile fun c => !p c)) else none

/-- `str::trim_start`. -/
def trimStart (s : Text) : Text := s.dropWhile isWhitespace

/-- `str::eq_ignore_ascii_case`. -/
def eqIgnoringCase (a b : Text) : Bool := decide (a.map Char.toLower = b.map Char.toLower)

/-! ## The loop -/

/-- The characters of a plain mention. -/
def isMentionChar (c : Char) : Bool := c.isAlphanum || c = '.' || c = '-' || c = '_'

/-- A known name at the front, with white space or nothing behind it. -/
def nameLen (afterAt name : Text) : Except Panic (Option Nat) :=
  match splitAtByte afterAt (byteLen name) with
  | none => .ok none
  | some (candidate, _) =>
      if !eqIgnoringCase candidate name then .ok none
      else do
        let tail ← sliceFrom afterAt (byteLen name)
        match tail.head? with
        | none => .ok (some (byteLen name))
        | some c => if isWhitespace c then .ok (some (byteLen name)) else .ok none

/-- `find_map` over the names. -/
def firstName (afterAt : Text) : List Text → Except Panic (Option Nat)
  | [] => .ok none
  | name :: names => do
      match ← nameLen afterAt name with
      | some len => .ok (some len)
      | none => firstName afterAt names

def wordLen (afterAt : Text) : Option Nat :=
  let len := (findByte (fun c => !isMentionChar c) afterAt).getD (byteLen afterAt)
  if 0 < len then some len else none

/-- A slash and an ASCII letter or digit. -/
def isCommand : Text → Bool
  | '/' :: c :: _ => c.isAlphanum
  | _ => false

/-- A text that begins with a reference by key. -/
def isReference (s : Text) : Bool :=
  "nostr:npub1".toList.isPrefixOf s || "nostr:nprofile1".toList.isPrefixOf s

/-- One turn: what is left behind a mention, or the answer. -/
def skipMention (names : List Text) (rest : Text) : Except Panic (Text ⊕ Option Text) :=
  if isReference rest then do
    let stop := (findByte isWhitespace rest).getD (byteLen rest)
    let tail ← sliceFrom rest stop
    .ok (.inl (trimStart tail))
  else
    match afterPrefix ['@'] rest with
    | some afterAt => do
        let name ← firstName afterAt names
        match name.or (wordLen afterAt) with
        | some len => do
            let tail ← sliceFrom afterAt len
            .ok (.inl (trimStart tail))
        | none => .ok (.inr none)
    | none => .ok (.inr (if isCommand rest then some rest else none))

/-- The names that are not blank, long ones first. -/
def sortedNames (knownNames : List Text) : List Text :=
  (knownNames.filter fun n => !(trim n).isEmpty).insertionSort fun a b => byteLen b ≤ byteLen a

/-! ## What a mention is -/

/-- A mention by key, by a known name or by a single word. -/
inductive IsMention (known : List Text) : Text → Prop
  | reference {token : Text} (h : isReference token = true)
      (hspace : ∀ c ∈ token, isWhitespace c = false) : IsMention known token
  | name {name token : Text} (hname : name ∈ known) (hblank : trim name ≠ [])
      (htoken : eqIgnoringCase token name = true) : IsMention known ('@' :: token)
  | word {token : Text} (hne : token ≠ []) (h : ∀ c ∈ token, isMentionChar c = true) :
      IsMention known ('@' :: token)

/-- Mentions with white space behind each of them. -/
inductive Mentions (known : List Text) : Text → Prop
  | space {ws : Text} (h : ∀ c ∈ ws, isWhitespace c = true) : Mentions known ws
  | snoc {front token ws : Text} (hfront : Mentions known front) (htoken : IsMention known token)
      (hne : ws ≠ []) (h : ∀ c ∈ ws, isWhitespace c = true) :
      Mentions known (front ++ (token ++ ws))

/-- A token ends in front of this text. -/
def Ends (s : Text) : Prop := ∀ c ∈ s.head?, isWhitespace c = true

/-- A token begins with this text, if it is not empty. -/
def Starts (s : Text) : Prop := ∀ c ∈ s.head?, isWhitespace c = false

/-- The first token of the text is a mention. -/
def BeginsMention (known : List Text) (s : Text) : Prop :=
  ∃ token tail, s = token ++ tail ∧ IsMention known token ∧ Ends tail

/-! ## One turn -/

theorem sliceFrom_find (p : Char → Bool) (s : Text) :
    (findByte p s).getD (byteLen s) = byteLen (s.takeWhile fun c => !p c) ∧
      sliceFrom s (byteLen (s.takeWhile fun c => !p c)) = .ok (s.dropWhile fun c => !p c) := by
  constructor
  · unfold findByte
    split_ifs with hany
    · rfl
    · have hall : s.takeWhile (fun c => !p c) = s := by
        refine List.takeWhile_eq_self_iff.2 fun c hc => ?_
        cases hp : p c with
        | false => rfl
        | true => exact absurd (List.any_eq_true.2 ⟨c, hc, hp⟩) hany
      rw [hall]
      rfl
  · have hsplit := splitAtByte_append (s.takeWhile fun c => !p c) (s.dropWhile fun c => !p c)
    rw [List.takeWhile_append_dropWhile] at hsplit
    rw [sliceFrom, hsplit]

theorem toLower_spec (c : Char) : c.toLower.utf8Size = c.utf8Size ∧
    isWhitespace c.toLower = isWhitespace c ∧ (c.toLower = '/' → c = '/') ∧
    c.toLower.isAlphanum = c.isAlphanum := by
  have hupper : ∀ n < 91, 65 ≤ n → (Char.ofNat n).toLower.utf8Size = (Char.ofNat n).utf8Size ∧
      isWhitespace (Char.ofNat n).toLower = isWhitespace (Char.ofNat n) ∧
      ((Char.ofNat n).toLower = '/' → Char.ofNat n = '/') ∧
      (Char.ofNat n).toLower.isAlphanum = (Char.ofNat n).isAlphanum := by decide
  by_cases hc : c.val ≥ 'A'.val ∧ c.val ≤ 'Z'.val
  · have hlow : 65 ≤ c.toNat := hc.1
    have hhigh : c.toNat ≤ 90 := hc.2
    have hchar := hupper c.toNat (by omega) hlow
    rwa [Char.ofNat_toNat] at hchar
  · have hsame : c.toLower = c := dif_neg hc
    rw [hsame]
    exact ⟨rfl, rfl, id, rfl⟩

theorem byteLen_of_eqIgnoringCase {a b : Text} (h : eqIgnoringCase a b = true) :
    byteLen a = byteLen b := by
  have hlower : ∀ s : Text, byteLen (s.map Char.toLower) = byteLen s := by
    intro s
    induction s with
    | nil => rfl
    | cons c s ih => rw [List.map_cons, byteLen_cons, byteLen_cons, ih, (toLower_spec c).1]
  rw [← hlower a, ← hlower b, of_decide_eq_true h]

theorem nameLen_spec (afterAt name : Text) : ∃ found, nameLen afterAt name = .ok found ∧
    ∀ len, found = some len ↔ ∃ token tail, afterAt = token ++ tail ∧
      eqIgnoringCase token name = true ∧ Ends tail ∧ len = byteLen token := by
  have hsplit : ∀ token tail, afterAt = token ++ tail → eqIgnoringCase token name = true →
      splitAtByte afterAt (byteLen name) = some (token, tail) := by
    intro token tail hat htoken
    rw [hat, ← byteLen_of_eqIgnoringCase htoken]
    exact splitAtByte_append token tail
  unfold nameLen
  cases hcut : splitAtByte afterAt (byteLen name) with
  | none =>
      refine ⟨none, rfl, fun len => iff_of_false (by simp) ?_⟩
      rintro ⟨token, tail, hat, htoken, _⟩
      rw [hsplit token tail hat htoken] at hcut
      cases hcut
  | some cut =>
      obtain ⟨candidate, rest⟩ := cut
      obtain ⟨hat, hlen⟩ := splitAtByte_eq_some_iff.1 hcut
      -- the name can only stand in one place
      have honly : ∀ len, (∃ token tail, afterAt = token ++ tail ∧
          eqIgnoringCase token name = true ∧ Ends tail ∧ len = byteLen token) ↔
            eqIgnoringCase candidate name = true ∧ Ends rest ∧ len = byteLen name := by
        intro len
        constructor
        · rintro ⟨token, tail, htail, htoken, hends, rfl⟩
          rw [hsplit token tail htail htoken] at hcut
          cases hcut
          exact ⟨htoken, hends, hlen⟩
        · rintro ⟨hcandidate, hends, rfl⟩
          exact ⟨candidate, rest, hat, hcandidate, hends, hlen.symm⟩
      have hslice : sliceFrom afterAt (byteLen name) = .ok rest := by rw [sliceFrom, hcut]
      simp only [honly]
      by_cases hcase : eqIgnoringCase candidate name = true
      · simp only [hcase, hslice, Bool.not_true, Bool.false_eq_true, if_false, bind, Except.bind]
        cases hhead : rest.head? with
        | none =>
            have hends : Ends rest := by
              intro c hc
              rw [hhead] at hc
              cases hc
            refine ⟨some (byteLen name), rfl, fun len => ?_⟩
            constructor
            · rintro ⟨⟩
              exact ⟨trivial, hends, rfl⟩
            · rintro ⟨_, _, rfl⟩
              rfl
        | some c =>
            dsimp only
            split_ifs with hspace
            · have hends : Ends rest := by
                intro d hd
                rw [hhead] at hd
                cases hd
                exact hspace
              refine ⟨some (byteLen name), rfl, fun len => ?_⟩
              constructor
              · rintro ⟨⟩
                exact ⟨trivial, hends, rfl⟩
              · rintro ⟨_, _, rfl⟩
                rfl
            · refine ⟨none, rfl, fun len => iff_of_false (by simp) ?_⟩
              rintro ⟨_, hends, _⟩
              exact hspace (hends c hhead)
      · refine ⟨none, by simp [hcase], fun len => ?_⟩
        simp [hcase]

theorem firstName_spec (afterAt : Text) (names : List Text) :
    ∃ found, firstName afterAt names = .ok found ∧
      (∀ len, found = some len → ∃ name ∈ names, ∃ token tail, afterAt = token ++ tail ∧
        eqIgnoringCase token name = true ∧ Ends tail ∧ len = byteLen token) ∧
      (found = none → ∀ name ∈ names, ∀ token tail, afterAt = token ++ tail →
        eqIgnoringCase token name = true → ¬ Ends tail) := by
  induction names with
  | nil => exact ⟨none, rfl, (fun len h => nomatch h), (fun _ name h => nomatch h)⟩
  | cons name names ih =>
      obtain ⟨found, hname, hiff⟩ := nameLen_spec afterAt name
      cases found with
      | some len =>
          refine ⟨some len, by simp [firstName, hname, bind, Except.bind], ?_, (fun h => nomatch h)⟩
          rintro other ⟨⟩
          exact ⟨name, List.mem_cons_self, (hiff len).1 rfl⟩
      | none =>
          obtain ⟨found, hrest, hsome, hnone⟩ := ih
          refine ⟨found, by simp [firstName, hname, hrest, bind, Except.bind], ?_, ?_⟩
          · intro len hlen
            obtain ⟨other, hother, hat⟩ := hsome len hlen
            exact ⟨other, List.mem_cons_of_mem name hother, hat⟩
          · intro hfound other hother token tail hat htoken hends
            rcases List.mem_cons.1 hother with rfl | hother
            · cases (hiff (byteLen token)).2 ⟨token, tail, hat, htoken, hends, rfl⟩
            · exact hnone hfound other hother token tail hat htoken hends

theorem wordLen_eq (afterAt : Text) :
    wordLen afterAt =
      if afterAt.takeWhile isMentionChar = [] then none
      else some (byteLen (afterAt.takeWhile isMentionChar)) := by
  have hfind := (sliceFrom_find (fun c => !isMentionChar c) afterAt).1
  simp only [Bool.not_not] at hfind
  unfold wordLen
  dsimp only
  rw [hfind]
  by_cases hnil : afterAt.takeWhile isMentionChar = []
  · rw [if_pos hnil, hnil]
    rfl
  · rw [if_neg hnil, if_pos (Nat.pos_of_ne_zero fun h => hnil (byteLen_eq_zero_iff.1 h))]

theorem skipMention_cases (names : List Text) (rest : Text) :
    (∃ token tail, rest = token ++ tail ∧ isReference token = true ∧
      (∀ c ∈ token, isWhitespace c = false) ∧ Ends tail ∧
      skipMention names rest = .ok (.inl (trimStart tail))) ∨
    (∃ name ∈ names, ∃ token tail, rest = '@' :: (token ++ tail) ∧
      eqIgnoringCase token name = true ∧ Ends tail ∧
      skipMention names rest = .ok (.inl (trimStart tail))) ∨
    ((∀ name ∈ names, ∀ token tail, rest = '@' :: (token ++ tail) →
        eqIgnoringCase token name = true → ¬ Ends tail) ∧
      ∃ token tail, rest = '@' :: (token ++ tail) ∧ token ≠ [] ∧
        (∀ c ∈ token, isMentionChar c = true) ∧ (∀ c ∈ tail.head?, isMentionChar c = false) ∧
        skipMention names rest = .ok (.inl (trimStart tail))) ∨
    ((∀ name ∈ names, ∀ token tail, rest = '@' :: (token ++ tail) →
        eqIgnoringCase token name = true → ¬ Ends tail) ∧
      (∃ tail, rest = '@' :: tail ∧ ∀ c ∈ tail.head?, isMentionChar c = false) ∧
        skipMention names rest = .ok (.inr none)) ∨
    (isReference rest = false ∧ rest.head? ≠ some '@' ∧
      skipMention names rest = .ok (.inr (if isCommand rest then some rest else none))) := by
  by_cases href : isReference rest = true
  · left
    obtain ⟨hstop, hslice⟩ := sliceFrom_find isWhitespace rest
    refine ⟨rest.takeWhile fun c => !isWhitespace c, rest.dropWhile fun c => !isWhitespace c,
      (List.takeWhile_append_dropWhile ..).symm, ?_, ?_, ?_, ?_⟩
    · have hreference : ∀ p : Text, (∀ c ∈ p, isWhitespace c = false) → p <+: rest →
          p <+: rest.takeWhile fun c => !isWhitespace c := by
        rintro p hp ⟨tail, rfl⟩
        rw [List.takeWhile_append_of_pos fun c hc => by simp [hp c hc]]
        exact List.prefix_append p _
      unfold isReference at href ⊢
      simp only [Bool.or_eq_true, List.isPrefixOf_iff_prefix] at href ⊢
      exact href.imp (hreference _ (by simp [isWhitespace])) (hreference _ (by simp [isWhitespace]))
    · intro c hc
      simpa using List.mem_takeWhile_imp hc
    · intro c hc
      have hhead := List.head?_dropWhile_not (fun c => !isWhitespace c) rest
      rw [Option.mem_def.1 hc] at hhead
      simpa using hhead
    · simp only [skipMention, if_pos href, hstop, hslice, bind, Except.bind]
  · right
    have hplain : isReference rest = false := by simpa using href
    cases hat : afterPrefix ['@'] rest with
    | none =>
        refine Or.inr (Or.inr (Or.inr ⟨hplain, ?_, ?_⟩))
        · intro hhead
          obtain ⟨afterAt, rfl⟩ := List.head?_eq_some_iff.1 hhead
          have hsome : afterPrefix ['@'] ('@' :: afterAt) = some afterAt :=
            afterPrefix_eq_some_iff.2 rfl
          rw [hsome] at hat
          cases hat
        · simp only [skipMention, hplain, hat, Bool.false_eq_true, if_false]
    | some afterAt =>
        obtain rfl : rest = '@' :: afterAt := afterPrefix_eq_some_iff.1 hat
        obtain ⟨found, hfirst, hsome, hnone⟩ := firstName_spec afterAt names
        have hcut : ∀ token tail, afterAt = token ++ tail →
            sliceFrom afterAt (byteLen token) = .ok tail := by
          rintro token tail rfl
          rw [sliceFrom, splitAtByte_append]
        cases found with
        | some len =>
            obtain ⟨name, hname, token, tail, hafter, hcase, hends, rfl⟩ := hsome len rfl
            refine Or.inl ⟨name, hname, token, tail, by rw [hafter], hcase, hends, ?_⟩
            simp only [skipMention, hplain, hat, hfirst, Option.some_or, hcut token tail hafter,
              Bool.false_eq_true, if_false, bind, Except.bind]
        | none =>
            have hnames : ∀ name ∈ names, ∀ token tail, '@' :: afterAt = '@' :: (token ++ tail) →
                eqIgnoringCase token name = true → ¬ Ends tail :=
              fun name hname token tail heq => hnone rfl name hname token tail (List.cons.inj heq).2
            have hword := wordLen_eq afterAt
            by_cases hnil : afterAt.takeWhile isMentionChar = []
            · rw [if_pos hnil] at hword
              refine Or.inr (Or.inr (Or.inl ⟨hnames, ⟨afterAt, rfl, fun c hc => ?_⟩, ?_⟩))
              · cases afterAt with
                | nil => cases hc
                | cons d rest =>
                    cases hc
                    cases hmention : isMentionChar c with
                    | false => rfl
                    | true => simp [hmention] at hnil
              · simp only [skipMention, hplain, hat, hfirst, hword, Option.none_or,
                  Bool.false_eq_true, if_false, bind, Except.bind]
            · rw [if_neg hnil] at hword
              have hsplit := (List.takeWhile_append_dropWhile (p := isMentionChar)
                (l := afterAt)).symm
              refine Or.inr (Or.inl ⟨hnames, afterAt.takeWhile isMentionChar,
                afterAt.dropWhile isMentionChar, congrArg _ hsplit, hnil,
                fun c hc => List.mem_takeWhile_imp hc, fun c hc => ?_, ?_⟩)
              · have hhead := List.head?_dropWhile_not isMentionChar afterAt
                rw [Option.mem_def.1 hc] at hhead
                simpa using hhead
              · simp only [skipMention, hplain, hat, hfirst, hword, Option.none_or,
                  hcut _ _ hsplit, Bool.false_eq_true, if_false, bind, Except.bind]

/-! ## The answer -/

theorem length_trimStart_le (s : Text) : (trimStart s).length ≤ s.length :=
  List.length_dropWhile_le _ _

theorem skipMention_descends (names : List Text) : Descends List.length (skipMention names) := by
  intro rest rest' hturn
  rcases skipMention_cases names rest with
    ⟨token, tail, rfl, href, _, _, hskip⟩ | ⟨_, _, token, tail, rfl, _, _, hskip⟩ |
      ⟨_, token, tail, rfl, _, _, _, hskip⟩ | ⟨_, _, hskip⟩ | ⟨_, _, hskip⟩
  · rw [hskip] at hturn
    cases hturn
    have hne : token ≠ [] := by
      rintro rfl
      cases href
    have hpos := List.length_pos_of_ne_nil hne
    have hle := length_trimStart_le tail
    rw [List.length_append]
    omega
  all_goals
    rw [hskip] at hturn
    cases hturn
  all_goals
    have hle := length_trimStart_le tail
    rw [List.length_cons, List.length_append]
    omega

def extractSlashCommand (content : Text) (knownNames : List Text) : Except Panic (Option Text) :=
  loop (skipMention (sortedNames knownNames)) List.length (skipMention_descends _)
    (trimStart content)

/-! ## What should be returned -/

/-- A word behind an at sign whose next character is neither part of it nor white space, where no
known name stands. -/
def Glued (known : List Text) (s : Text) : Prop :=
  (∃ token c tail, s = '@' :: (token ++ c :: tail) ∧ token ≠ [] ∧
    (∀ d ∈ token, isMentionChar d = true) ∧ isMentionChar c = false ∧ isWhitespace c = false) ∧
  ¬ BeginsMention known s

/-- No such word stands behind mentions. -/
def Separated (known : List Text) (content : Text) : Prop :=
  ∀ front s, content = front ++ s → Mentions known front → ¬ Glued known s

/-- Behind all mentions that are fewer there is one more. -/
def Unambiguous (known : List Text) (content front : Text) : Prop :=
  ∀ p s, content = p ++ s → Mentions known p → Starts s → p.length < front.length →
    BeginsMention known s

/-- What follows is the beginning of a token. -/
def BeforeToken (front : Text) : Prop :=
  front = [] ∨ ∃ c, front.getLast? = some c ∧ isWhitespace c = true

/-- A name with a command in it, behind white space. -/
def HidesCommand (name : Text) : Prop :=
  ∃ front c b rest, name = front ++ c :: '/' :: b :: rest ∧ isWhitespace c = true ∧
    b.isAlphanum = true

/-! ## Mentions -/

section

variable {known : List Text}

theorem Mentions.beforeToken {front : Text} (h : Mentions known front) : BeforeToken front := by
  have hlast : ∀ pre ws : Text, ws ≠ [] → (∀ c ∈ ws, isWhitespace c = true) →
      BeforeToken (pre ++ ws) := by
    intro pre ws hne hws
    refine Or.inr ⟨ws.getLast hne, ?_, hws _ (List.getLast_mem hne)⟩
    rw [List.getLast?_append_of_ne_nil _ hne, List.getLast?_eq_some_getLast hne]
  cases h with
  | space h =>
      by_cases hne : front = []
      · exact Or.inl hne
      · simpa using hlast [] front hne h
  | @snoc front token ws _ _ hne h =>
      rw [← List.append_assoc]
      exact hlast (front ++ token) ws hne h

theorem IsMention.ne_nil {token : Text} (h : IsMention known token) : token ≠ [] := by
  cases h with
  | reference href =>
      rintro rfl
      cases href
  | name => exact List.cons_ne_nil _ _
  | word => exact List.cons_ne_nil _ _

theorem isWhitespace_of_isMentionChar {c : Char} (h : isMentionChar c = true) :
    isWhitespace c = false := by
  have hall : ∀ n < 128, isMentionChar (Char.ofNat n) = true →
      isWhitespace (Char.ofNat n) = false := by decide
  have hlow : c.toNat < 128 := by
    simp only [isMentionChar, Bool.or_eq_true, decide_eq_true_eq] at h
    rcases h with ((halnum | rfl) | rfl) | rfl
    · exact toNat_lt_of_isAlphanum halnum
    all_goals decide
  have hchar := hall c.toNat hlow
  rw [Char.ofNat_toNat] at hchar
  exact hchar h

theorem eq_of_word {token token' tail tail' : Text} (h : token ++ tail = token' ++ tail')
    (htoken : ∀ c ∈ token, isMentionChar c = true) (htoken' : ∀ c ∈ token', isMentionChar c = true)
    (htail : ∀ c ∈ tail.head?, isMentionChar c = false)
    (htail' : ∀ c ∈ tail'.head?, isMentionChar c = false) : token = token' ∧ tail = tail' := by
  have hcut : ∀ token tail : Text, (∀ c ∈ token, isMentionChar c = true) →
      (∀ c ∈ tail.head?, isMentionChar c = false) →
      (token ++ tail).takeWhile isMentionChar = token := by
    intro token tail htoken htail
    rw [List.takeWhile_append_of_pos htoken]
    cases tail with
    | nil => simp
    | cons c tail => simp [htail c rfl]
  have heq : token = token' := by
    rw [← hcut token tail htoken htail, h, hcut token' tail' htoken' htail']
  exact ⟨heq, List.append_cancel_left (heq ▸ h)⟩

/-- How far the loop has come: mentions in front, and a token or nothing behind. -/
structure At (known : List Text) (content front rest : Text) : Prop where
  split : content = front ++ rest
  mentions : rest ≠ [] → Mentions known front
  starts : Starts rest

theorem starts_trimStart (s : Text) : Starts (trimStart s) := by
  intro c hc
  have hhead := List.head?_dropWhile_not isWhitespace s
  rw [trimStart, Option.mem_def] at hc
  rw [hc] at hhead
  simpa using hhead

theorem At.next {content front token tail : Text} (h : At known content front (token ++ tail))
    (htoken : IsMention known token) (hends : Ends tail) :
    At known content (front ++ (token ++ tail.takeWhile isWhitespace)) (trimStart tail) := by
  refine ⟨?_, ?_, starts_trimStart tail⟩
  · rw [h.split, List.append_assoc, List.append_assoc]
    exact congrArg _ (congrArg _ (List.takeWhile_append_dropWhile ..).symm)
  · intro hne
    have hspace : tail.takeWhile isWhitespace ≠ [] := by
      intro hnil
      cases tail with
      | nil => exact hne rfl
      | cons c tail => simp [hends c rfl] at hnil
    exact .snoc (h.mentions fun hnil => htoken.ne_nil (List.append_eq_nil_iff.1 hnil).1) htoken
      hspace fun c hc => List.mem_takeWhile_imp hc

theorem At.start (content : Text) :
    At known content (content.takeWhile isWhitespace) (trimStart content) :=
  ⟨(List.takeWhile_append_dropWhile ..).symm,
    fun _ => .space fun _ hc => List.mem_takeWhile_imp hc, starts_trimStart content⟩

/-! ## Turns -/

theorem mem_sortedNames {name : Text} :
    name ∈ sortedNames known ↔ name ∈ known ∧ trim name ≠ [] := by
  rw [sortedNames, List.mem_insertionSort, List.mem_filter]
  simp

theorem eq_of_answer {names : List Text} {rest r : Text} {result : Option Text}
    (hturn : skipMention names rest = .ok (.inr result)) (hr : r ∈ result) :
    r = rest ∧ isCommand rest = true := by
  rcases skipMention_cases names rest with
    ⟨_, _, _, _, _, _, hskip⟩ | ⟨_, _, _, _, _, _, _, hskip⟩ | ⟨_, _, _, _, _, _, _, hskip⟩ |
      ⟨_, _, hskip⟩ | ⟨_, _, hskip⟩
  all_goals
    rw [hskip] at hturn
    cases hturn
  · cases hr
  · cases hcommand : isCommand rest with
    | false =>
        rw [hcommand] at hr
        cases hr
    | true =>
        rw [hcommand] at hr
        cases hr
        exact ⟨rfl, rfl⟩

theorem skipMention_ne_error (names : List Text) (rest : Text) (e : Panic) :
    skipMention names rest ≠ .error e := by
  rcases skipMention_cases names rest with
    ⟨_, _, _, _, _, _, hskip⟩ | ⟨_, _, _, _, _, _, _, hskip⟩ | ⟨_, _, _, _, _, _, _, hskip⟩ |
      ⟨_, _, hskip⟩ | ⟨_, _, hskip⟩
  all_goals
    rw [hskip]
    exact nofun

theorem suffix_of_turn {names : List Text} {rest rest' : Text}
    (hturn : skipMention names rest = .ok (.inl rest')) : rest' <:+ rest := by
  have htrim : ∀ tail : Text, trimStart tail <:+ tail := fun tail => List.dropWhile_suffix _
  rcases skipMention_cases names rest with
    ⟨token, tail, rfl, _, _, _, hskip⟩ | ⟨_, _, token, tail, rfl, _, _, hskip⟩ |
      ⟨_, token, tail, rfl, _, _, _, hskip⟩ | ⟨_, _, hskip⟩ | ⟨_, _, hskip⟩
  all_goals
    rw [hskip] at hturn
    cases hturn
  · exact (htrim tail).trans (List.suffix_append _ _)
  all_goals exact ((htrim tail).trans (List.suffix_append _ _)).trans (List.suffix_cons _ _)

theorem head?_of_isReference {s : Text} (h : isReference s = true) : s.head? = some 'n' := by
  simp only [isReference, Bool.or_eq_true, List.isPrefixOf_iff_prefix] at h
  rcases h with ⟨tail, rfl⟩ | ⟨tail, rfl⟩
  · rfl
  · rfl

theorem not_beginsMention {token tail : Text}
    (hnames : ∀ name ∈ sortedNames known, ∀ token' tail',
      '@' :: (token ++ tail) = '@' :: (token' ++ tail') → eqIgnoringCase token' name = true →
        ¬ Ends tail')
    (hword : ∀ c ∈ token, isMentionChar c = true)
    (htail : ∀ c ∈ tail.head?, isMentionChar c = false) (hends : ¬ Ends tail) :
    ¬ BeginsMention known ('@' :: (token ++ tail)) := by
  rintro ⟨token', tail', heq, hmention, hends'⟩
  cases hmention with
  | reference href =>
      have hhead := congrArg List.head? heq
      rw [List.head?_append, head?_of_isReference href] at hhead
      cases hhead
  | name hname hblank hcase =>
      exact hnames _ (mem_sortedNames.2 ⟨hname, hblank⟩) _ tail' heq hcase hends'
  | word hne hword' =>
      have htail' : ∀ c ∈ tail'.head?, isMentionChar c = false := by
        intro c hc
        cases hmention : isMentionChar c with
        | false => rfl
        | true =>
            have hspace := hends' c hc
            rw [isWhitespace_of_isMentionChar hmention] at hspace
            cases hspace
      obtain ⟨_, rfl⟩ := eq_of_word (List.cons.inj heq).2 hword hword' htail htail'
      exact hends hends'

theorem mention_of_turn {rest rest' : Text}
    (hturn : skipMention (sortedNames known) rest = .ok (.inl rest')) :
    (∃ token tail, rest = token ++ tail ∧ IsMention known token ∧ Ends tail ∧
      rest' = trimStart tail ∧ ((∃ name, name ∈ known ∧ ∃ cand, token = '@' :: cand ∧
        eqIgnoringCase cand name = true) ∨ ∀ c ∈ token, isWhitespace c = false)) ∨
      Glued known rest := by
  rcases skipMention_cases (sortedNames known) rest with
    ⟨token, tail, rfl, href, hspace, hends, hskip⟩ |
      ⟨name, hname, token, tail, rfl, hcase, hends, hskip⟩ |
      ⟨hnames, token, tail, rfl, hne, hword, htail, hskip⟩ | ⟨_, _, hskip⟩ | ⟨_, _, hskip⟩
  all_goals
    rw [hskip] at hturn
    cases hturn
  · exact Or.inl ⟨token, tail, rfl, .reference href hspace, hends, rfl, Or.inr hspace⟩
  · obtain ⟨hknown, hblank⟩ := mem_sortedNames.1 hname
    exact Or.inl ⟨'@' :: token, tail, rfl, .name hknown hblank hcase, hends, rfl,
      Or.inl ⟨name, hknown, token, rfl, hcase⟩⟩
  · by_cases hends : Ends tail
    · refine Or.inl ⟨'@' :: token, tail, rfl, .word hne hword, hends, rfl, Or.inr ?_⟩
      rintro c hc
      rcases List.mem_cons.1 hc with rfl | hc
      · decide
      · exact isWhitespace_of_isMentionChar (hword c hc)
    · refine Or.inr ⟨?_, not_beginsMention hnames hword htail hends⟩
      cases tail with
      | nil => exact absurd (fun c hc => nomatch hc) hends
      | cons c tail =>
          refine ⟨token, c, tail, rfl, hne, hword, htail c rfl, ?_⟩
          cases hspace : isWhitespace c with
          | false => rfl
          | true =>
              refine absurd ?_ hends
              rintro d ⟨⟩
              exact hspace

/-! ## What is returned -/

theorem ne_nil_of_isCommand {r : Text} (h : isCommand r = true) : r ≠ [] := by
  rintro rfl
  cases h

theorem exists_of_isCommand {r : Text} (h : isCommand r = true) :
    ∃ b rest, r = '/' :: b :: rest ∧ b.isAlphanum = true := by
  unfold isCommand at h
  split at h
  · exact ⟨_, _, rfl, h⟩
  · cases h

theorem mentions_of_answer {content front rest : Text} {result : Option Text}
    (hseparated : Separated known content)
    (hok : loop (skipMention (sortedNames known)) List.length (skipMention_descends _) rest =
      .ok result) (hat : At known content front rest) :
    ∀ r ∈ result, ∃ front', content = front' ++ r ∧ Mentions known front' := by
  revert front
  refine loop_ok_induction (skipMention_descends (sortedNames known)) (fun rest result =>
    ∀ {front}, At known content front rest →
      ∀ r ∈ result, ∃ front', content = front' ++ r ∧ Mentions known front') ?_ ?_ hok
  · intro rest result hturn front hat r hr
    obtain ⟨rfl, hcommand⟩ := eq_of_answer hturn hr
    exact ⟨front, hat.split, hat.mentions (ne_nil_of_isCommand hcommand)⟩
  · intro rest rest' result hturn ih front hat
    rcases mention_of_turn hturn with ⟨token, tail, rfl, htoken, hends, rfl, _⟩ | hglued
    · exact ih (hat.next htoken hends)
    · have hne : rest ≠ [] := by
        obtain ⟨⟨_, _, _, rfl, _⟩, _⟩ := hglued
        exact List.cons_ne_nil _ _
      exact absurd hglued (hseparated front rest hat.split (hat.mentions hne))

theorem answer_of_command {names : List Text} {r : Text} (h : isCommand r = true) :
    skipMention names r = .ok (.inr (some r)) := by
  obtain ⟨b, rest, rfl, hb⟩ := exists_of_isCommand h
  rcases skipMention_cases names ('/' :: b :: rest) with
    ⟨token, tail, heq, href, _⟩ | ⟨_, _, _, _, heq, _⟩ | ⟨_, _, _, heq, _⟩ | ⟨_, ⟨_, heq, _⟩, _⟩ |
      ⟨_, _, hskip⟩
  · have hhead := congrArg List.head? heq
    rw [List.head?_append, head?_of_isReference href] at hhead
    cases hhead
  · cases heq
  · cases heq
  · cases heq
  · rw [hskip, if_pos h]

theorem next_of_beginsMention {rest : Text} (h : BeginsMention known rest) :
    ∃ rest', skipMention (sortedNames known) rest = .ok (.inl rest') := by
  rcases skipMention_cases (sortedNames known) rest with
    ⟨_, _, _, _, _, _, hskip⟩ | ⟨_, _, _, _, _, _, _, hskip⟩ | ⟨_, _, _, _, _, _, _, hskip⟩ |
      ⟨hnames, ⟨tail, rfl, htail⟩, _⟩ | ⟨href, hat, _⟩
  · exact ⟨_, hskip⟩
  · exact ⟨_, hskip⟩
  · exact ⟨_, hskip⟩
  · exfalso
    obtain ⟨token', tail', heq, hmention, hends'⟩ := h
    cases hmention with
    | reference href =>
        have hhead := congrArg List.head? heq
        rw [List.head?_append, head?_of_isReference href] at hhead
        cases hhead
    | name hname hblank hcase =>
        exact hnames _ (mem_sortedNames.2 ⟨hname, hblank⟩) _ tail' heq hcase hends'
    | @word word hne hword =>
        obtain ⟨c, word, rfl⟩ := List.exists_cons_of_ne_nil hne
        have hmention := hword c List.mem_cons_self
        rw [htail c (congrArg List.head? (List.cons.inj heq).2)] at hmention
        cases hmention
  · exfalso
    obtain ⟨token, tail, rfl, hmention, _⟩ := h
    cases hmention with
    | reference htoken =>
        have hreference : isReference (token ++ tail) = true := by
          simp only [isReference, Bool.or_eq_true, List.isPrefixOf_iff_prefix] at htoken ⊢
          exact htoken.imp (fun h => h.trans (List.prefix_append _ _))
            (fun h => h.trans (List.prefix_append _ _))
        rw [hreference] at href
        cases href
    | name => exact hat rfl
    | word => exact hat rfl

theorem hidesCommand_of_eq {cand name : Text} (hcase : eqIgnoringCase cand name = true)
    (h : HidesCommand cand) : HidesCommand name := by
  obtain ⟨front, c, b, rest, rfl, hspace, halnum⟩ := h
  have hlower := (of_decide_eq_true hcase).symm
  simp only [List.map_append, List.map_cons] at hlower
  obtain ⟨front', tail, rfl, _, htail⟩ := List.map_eq_append_iff.1 hlower
  obtain ⟨c', tail, rfl, hc, htail⟩ := List.map_eq_cons_iff.1 htail
  obtain ⟨slash, tail, rfl, hslash, htail⟩ := List.map_eq_cons_iff.1 htail
  obtain ⟨b', tail, rfl, hb, _⟩ := List.map_eq_cons_iff.1 htail
  have hslash' : slash = '/' := (toLower_spec slash).2.2.1 (hslash.trans (by decide))
  refine ⟨front', c', b', tail, by rw [hslash'], ?_, ?_⟩
  · rw [← (toLower_spec c').2.1, hc, (toLower_spec c).2.1, hspace]
  · rw [← (toLower_spec b').2.2.2, hb, (toLower_spec b).2.2.2, halnum]

theorem length_takeWhile_le (a : Text) {r : Text} (hr : isCommand r = true) :
    ((a ++ r).takeWhile isWhitespace).length ≤ a.length := by
  obtain ⟨b, r', rfl, _⟩ := exists_of_isCommand hr
  have hslash : isWhitespace '/' = false := by decide
  rw [List.takeWhile_append]
  split_ifs
  · simp [hslash]
  · exact (List.takeWhile_prefix _).length_le

theorem length_le_of_mention {pre r front token tail : Text}
    (heq : pre ++ r = front ++ (token ++ tail)) (hlt : front.length < pre.length)
    (hpre : BeforeToken pre) (hr : isCommand r = true) (hends : Ends tail)
    (htoken : (∃ name, name ∈ known ∧ ∃ cand, token = '@' :: cand ∧
      eqIgnoringCase cand name = true) ∨ ∀ c ∈ token, isWhitespace c = false)
    (hnames : ∀ name ∈ known, ¬ HidesCommand name) :
    (front ++ (token ++ tail.takeWhile isWhitespace)).length ≤ pre.length := by
  obtain ⟨b, r', rfl, hb⟩ := exists_of_isCommand hr
  rcases List.append_eq_append_iff.1 heq with ⟨a, rfl, _⟩ | ⟨d, rfl, hrest⟩
  · rw [List.length_append] at hlt
    omega
  have hd : ∃ d' c, d = d' ++ [c] ∧ isWhitespace c = true := by
    have hne : d ≠ [] := by
      rintro rfl
      simp at hlt
    rcases hpre with hnil | ⟨c, hlast, hspace⟩
    · exact absurd (List.append_eq_nil_iff.1 hnil).2 hne
    · rw [List.getLast?_append_of_ne_nil _ hne] at hlast
      obtain ⟨d', rfl⟩ := List.getLast?_eq_some_iff.1 hlast
      exact ⟨d', c, rfl, hspace⟩
  rcases List.append_eq_append_iff.1 hrest with ⟨a, rfl, rfl⟩ | ⟨a, rfl, hcommand⟩
  · -- the mention ends in front of the command, and so does the white space behind it
    have hspace := length_takeWhile_le a hr
    simp only [List.length_append] at hspace ⊢
    omega
  · exfalso
    -- the mention reaches into the command, and has white space in front of it
    obtain ⟨d', c, rfl, hspace⟩ := hd
    have hslash : isWhitespace '/' = false := by decide
    cases a with
    | nil =>
        have hhead := hends '/' (congrArg List.head? hcommand).symm
        rw [hslash] at hhead
        cases hhead
    | cons x a =>
        obtain ⟨rfl, hbehind⟩ := List.cons.inj hcommand
        cases a with
        | nil =>
            have hhead := hends b (congrArg List.head? hbehind).symm
            rw [isWhitespace_of_isMentionChar (by simp [isMentionChar, hb])] at hhead
            cases hhead
        | cons y a =>
            obtain ⟨rfl, rfl⟩ := List.cons.inj hbehind
            rcases htoken with ⟨name, hname, cand, htoken, hcase⟩ | hnone
            · cases d' with
              | nil =>
                  obtain ⟨rfl, _⟩ := List.cons.inj htoken
                  cases hspace
              | cons z d' =>
                  obtain ⟨_, rfl⟩ := List.cons.inj htoken
                  refine hnames name hname (hidesCommand_of_eq hcase ?_)
                  exact ⟨d', c, b, a, by simp, hspace, hb⟩
            · have hc := hnone c (by simp)
              rw [hspace] at hc
              cases hc

theorem answer_of_unambiguous {content pre r front rest : Text} {result : Option Text}
    (hcontent : content = pre ++ r) (hpre : Mentions known pre) (hr : isCommand r = true)
    (hone : Unambiguous known content pre) (hnames : ∀ name ∈ known, ¬ HidesCommand name)
    (hok : loop (skipMention (sortedNames known)) List.length (skipMention_descends _) rest =
      .ok result) (hat : At known content front rest) (hle : front.length ≤ pre.length) :
    result = some r := by
  have hbehind : ∀ {front rest}, At known content front rest → front.length ≤ pre.length →
      (rest = r ∧ front = pre) ∨ (BeginsMention known rest ∧ front.length < pre.length) := by
    intro front rest hat hle
    rcases Nat.lt_or_eq_of_le hle with hlt | heq
    · right
      have hne : rest ≠ [] := by
        rintro rfl
        have hlength := congrArg List.length (hcontent.symm.trans hat.split)
        have hpos := List.length_pos_of_ne_nil (ne_nil_of_isCommand hr)
        rw [List.length_append, List.length_append, List.length_nil] at hlength
        omega
      exact ⟨hone front rest hat.split (hat.mentions hne) hat.starts hlt, hlt⟩
    · left
      obtain ⟨hfront, hrest⟩ := List.append_inj (hat.split.symm.trans hcontent) heq
      exact ⟨hrest, hfront⟩
  revert front
  refine loop_ok_induction (skipMention_descends (sortedNames known)) (fun rest result =>
    ∀ {front}, At known content front rest → front.length ≤ pre.length → result = some r) ?_ ?_ hok
  · intro rest result hturn front hat hle
    rcases hbehind hat hle with ⟨rfl, _⟩ | ⟨hbegins, _⟩
    · rw [answer_of_command hr] at hturn
      cases hturn
      rfl
    · obtain ⟨rest', hnext⟩ := next_of_beginsMention hbegins
      rw [hnext] at hturn
      cases hturn
  · intro rest rest' result hturn ih front hat hle
    rcases hbehind hat hle with ⟨rfl, _⟩ | ⟨hbegins, hlt⟩
    · rw [answer_of_command hr] at hturn
      cases hturn
    · rcases mention_of_turn hturn with ⟨token, tail, rfl, htoken, hends, rfl, hkind⟩ | hglued
      · refine ih (hat.next htoken hends) ?_
        exact length_le_of_mention (hcontent.symm.trans hat.split) hlt hpre.beforeToken hr hends
          hkind hnames
      · exact absurd hbegins hglued.2

/-- The loop ends without a cut inside a character.  What it returns is a command at the end of the
text; if no word behind mentions has something directly behind it, there is nothing but mentions in
front of it.  Where there is but one way to read the mentions and no command in a name, it is
returned. -/
theorem extractSlashCommand_spec (content : Text) (known : List Text) :
    ∃ result, extractSlashCommand content known = .ok result ∧
      (∀ r ∈ result, r <:+ content ∧ isCommand r = true ∧ (Separated known content →
        ∃ front, content = front ++ r ∧ BeforeToken front ∧ Mentions known front)) ∧
      ∀ front r, content = front ++ r → Mentions known front → isCommand r = true →
        Unambiguous known content front → (∀ name ∈ known, ¬ HidesCommand name) →
        result = some r := by
  have hdescends := skipMention_descends (sortedNames known)
  cases hok : loop (skipMention (sortedNames known)) List.length hdescends (trimStart content) with
  | error e =>
      refine absurd hok (loop_ne_error hdescends (fun _ => True) (fun _ _ _ _ => trivial) ?_
        trivial)
      exact fun rest _ => skipMention_ne_error _ rest e
  | ok result =>
      refine ⟨result, hok, ?_, ?_⟩
      · intro r hr
        have hcommand : r <:+ trimStart content ∧ isCommand r = true := by
          revert r
          refine loop_ok_induction hdescends (fun rest result =>
            ∀ r ∈ result, r <:+ rest ∧ isCommand r = true) ?_ ?_ hok
          · intro rest result hturn r hr
            obtain ⟨rfl, hcommand⟩ := eq_of_answer hturn hr
            exact ⟨List.suffix_refl _, hcommand⟩
          · intro rest rest' result hturn ih r hr
            exact ⟨(ih r hr).1.trans (suffix_of_turn hturn), (ih r hr).2⟩
        refine ⟨hcommand.1.trans (List.dropWhile_suffix _), hcommand.2, fun hseparated => ?_⟩
        obtain ⟨front, hfront, hmentions⟩ :=
          mentions_of_answer hseparated hok (At.start content) r hr
        exact ⟨front, hfront, hmentions.beforeToken, hmentions⟩
      · intro front r hcontent hfront hr hone hnames
        refine answer_of_unambiguous hcontent hfront hr hone hnames hok (At.start content) ?_
        rw [hcontent]
        exact length_takeWhile_le front hr

end

/-! ## Two messages -/

namespace Toy

def package : Text := "@scope/package".toList

theorem extract_package : extractSlashCommand package [] = .ok (some "/package".toList) := by
  have hnext : skipMention (sortedNames []) (trimStart package) = .ok (.inl "/package".toList) := by
    decide
  have hdone : skipMention (sortedNames []) "/package".toList =
      .ok (.inr (some "/package".toList)) := by decide
  rw [extractSlashCommand, loop_of_next _ hnext, loop_of_done _ hdone]

def message : Text := "@Eva /goal".toList

def names : List Text := ["Eva /goal".toList]

theorem extract_message : extractSlashCommand message names = .ok none := by
  have hnext : skipMention (sortedNames names) (trimStart message) = .ok (.inl []) := by
    decide
  have hdone : skipMention (sortedNames names) [] = .ok (.inr none) := by decide
  rw [extractSlashCommand, loop_of_next _ hnext, loop_of_done _ hdone]

theorem isMention_eva : IsMention names "@Eva".toList :=
  @IsMention.word _ "Eva".toList (by simp) (by simp [isMentionChar])

theorem mentions_eva : Mentions names "@Eva ".toList :=
  @Mentions.snoc _ [] "@Eva".toList [' '] (.space fun c hc => nomatch hc) isMention_eva (by simp)
    (by simp [isWhitespace])

theorem unambiguous_message : Unambiguous names message "@Eva ".toList := by
  intro p s heq hmentions _ hlt
  have hp : p = message.take p.length := by
    rw [heq, List.take_left]
  have hlast : ∀ n < 5, 0 < n → ¬ ((message.take n).getLast?.any isWhitespace) = true := by
    decide
  rcases hmentions.beforeToken with rfl | ⟨c, hc, hspace⟩
  · obtain rfl : s = message := heq.symm
    have hends : Ends " /goal".toList := by
      rintro c ⟨⟩
      decide
    exact ⟨"@Eva".toList, " /goal".toList, rfl, isMention_eva, hends⟩
  · exfalso
    have hpos : 0 < p.length := by
      cases p with
      | nil => cases hc
      | cons c p => simp
    refine hlast p.length hlt hpos ?_
    rw [← hp, hc]
    exact hspace

end Toy

/-- A package name is handed over as a command although there are no mentions in front of it, and a
name may take the command that stands behind a mention. -/
theorem package_is_command :
    (¬ ∀ (content : Text) (known : List Text) (r : Text),
      extractSlashCommand content known = .ok (some r) →
      ∃ front, content = front ++ r ∧ BeforeToken front ∧ Mentions known front) ∧
    ¬ ∀ (content : Text) (known : List Text) (front r : Text), content = front ++ r →
      Mentions known front → isCommand r = true → Unambiguous known content front →
      ∃ r', extractSlashCommand content known = .ok (some r') := by
  constructor
  · intro h
    obtain ⟨front, heq, hbefore, _⟩ := h _ _ _ Toy.extract_package
    obtain rfl : front = "@scope".toList :=
      List.append_cancel_right (heq.symm : front ++ _ = "@scope".toList ++ "/package".toList)
    rcases hbefore with hnil | ⟨c, hc, hspace⟩
    · cases hnil
    · cases hc
      cases hspace
  · intro h
    obtain ⟨r', hr'⟩ := h Toy.message Toy.names "@Eva ".toList "/goal".toList rfl Toy.mentions_eva
      rfl Toy.unambiguous_message
    rw [Toy.extract_message] at hr'
    cases hr'

end Acp
end Maju
