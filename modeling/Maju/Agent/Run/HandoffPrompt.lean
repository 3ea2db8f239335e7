import Maju.Agent.Run.History
import Maju.Lib.Slice

/-!
# HandoffPrompt — the prompt a summary is asked for with

The prompt has a fixed frame (the task, the tools, the instructions) and as much of the history as
its budget leaves room for.  The history is gone through from the newest item; an item that does not
fit is left out and counted, and the first of them is shortened if nothing has been taken yet.

* `clampBytes` — a text cut at a boundary of characters; nothing stands where Rust would panic;
* `keep` — the loop over the history;
* `Ok` — the ceiling of the prompt, and that it holds the newest items;
* `handoffPrompt_ok_iff` — this fails exactly where the line that counts the omitted items does not
  fit as well, or where an item older than an omitted one is taken.

Sizes are those of values in memory, so that no sum of them saturates.
-/

namespace Maju
namespace Agent

open Lib

/-! ## Texts -/

def ToolResultContent.asTextLossy : ToolResultContent → Text
  | .text s => s
  | .image data mimeType =>
      "[image: ".toList ++ mimeType ++ ", ".toList ++ decimal (byteLen data) ++
        " base64 bytes]".toList

def ToolResult.text (r : ToolResult) : Text :=
  ("\n".toList).intercalate (r.content.map ToolResultContent.asTextLossy)

namespace Handoff

def clampBytes (s : Text) (maxBytes : Nat) : Option Text :=
  if byteLen s ≤ maxBytes then some s
  else if maxBytes < 4 then
    (splitAtByte s (floorBoundary s (min maxBytes (byteLen s)))).map Prod.fst
  else
    let target := maxBytes - byteLen "…".toList
    (splitAtByte s (floorBoundary s target)).map fun e => e.1 ++ "…".toList

/-- What `push_history_snippet` pushes for an item. -/
def historySnippet : HistoryItem → Text
  | .user s => "[user] ".toList ++ s ++ "\n".toList
  | .assistant text toolCalls _ =>
      "[assistant] ".toList ++ text ++
        (toolCalls.flatMap fun c => " tool:".toList ++ c.name) ++ "\n".toList
  | .toolResult r =>
      (if r.isError then "[tool_err] ".toList else "[tool] ".toList) ++ r.text ++ "\n".toList

/-! ## The frame -/

inductive Provider where
  | anthropic
  | openAi
  | databricks
  | databricksV2
  | openRouter
  deriving DecidableEq, Repr

def handoffMaxOutputTokens : Nat := 8192

def handoffOriginalTaskMaxBytes : Nat := 16 * 1024

def handoffMaxToolNames : Nat := 20

def conservativeBytesPerToken : Nat := 1

/-- `summary_completion_cap`, in `u32`. -/
def summaryCompletionCap (provider : Provider) (maxOutputTokens : Nat) : Nat :=
  match provider with
  | .openRouter => min (maxOutputTokens * 2) (2 ^ 32 - 1)
  | .anthropic | .openAi | .databricks | .databricksV2 => maxOutputTokens

/-- What the prompt is made from. -/
structure Ctx where
  handoffCount : Nat
  originalTask : Option Text
  tools : List Text
  history : History
  maxContextTokens : Nat
  provider : Provider

def toolsLine (tools : List Text) : Text :=
  if tools.length = 0 then "(none)\n".toList
  else
    let shown := min tools.length handoffMaxToolNames
    (", ".toList).intercalate (tools.take shown) ++
      (if shown < tools.length then
        ", … (+".toList ++ decimal (tools.length - shown) ++ " more)".toList
      else []) ++
      "\n".toList

/-- What stands in front of the history. -/
def Ctx.head (c : Ctx) : Option Text :=
  (clampBytes (c.originalTask.getD "(unknown)".toList) handoffOriginalTaskMaxBytes).map fun task =>
    "[Internal handoff #".toList ++ decimal (c.handoffCount + 1) ++
      " — context reset]\n\n".toList ++ "# Original Task\n".toList ++ task ++
      "\n\n# Available Tools\n".toList ++ toolsLine c.tools

def historyHeader : Text := "\n# Session History (oldest first)\n".toList

def tail : Text :=
  "\n# Instructions\n".toList ++
    "Produce a context handoff summary covering: (1) original task, ".toList ++
    "(2) what was accomplished, (3) key decisions, (4) what remains, ".toList ++
    "(5) one concrete next step. Be concise but thorough. Plain text.\n".toList

def fixedBytes (head : Text) : Nat := byteLen head + byteLen historyHeader + byteLen tail

def handoffPromptBudgetBytes (maxContextTokens maxOutputTokens fixedPromptBytes : Nat) : Nat :=
  (maxContextTokens - maxOutputTokens) * conservativeBytesPerToken - fixedPromptBytes

/-- The tokens that the answer may use. -/
def Ctx.completionCap (c : Ctx) : Nat := summaryCompletionCap c.provider handoffMaxOutputTokens

/-- `prompt_budget`: the bytes that are left for the history. -/
def Ctx.promptBudget (c : Ctx) (historyBudgetBytes : Option Nat) (head : Text) : Nat :=
  match historyBudgetBytes with
  | some explicit => explicit - fixedBytes head
  | none => handoffPromptBudgetBytes c.maxContextTokens c.completionCap (fixedBytes head)

/-! ## The loop over the history -/

/-- A text of the prompt, with the item that it stands for. -/
structure Snippet where
  item : HistoryItem
  text : Text

def Snippet.whole (item : HistoryItem) : Snippet := ⟨item, historySnippet item⟩

/-- The variables of the loop.  The vector `snippets` is kept as it stands after its reversal. -/
structure Kept where
  snippets : List Snippet
  snippetsBytes : Nat
  dropped : Nat

def Kept.visit (budget : Nat) (item : HistoryItem) (k : Kept) : Option Kept :=
  let snippet := historySnippet item
  if budget < k.snippetsBytes + byteLen snippet then
    if k.snippets.isEmpty then
      (clampBytes snippet budget).map fun cut => ⟨[⟨item, cut⟩], budget, k.dropped + 1⟩
    else some { k with dropped := k.dropped + 1 }
  else some ⟨⟨item, snippet⟩ :: k.snippets, k.snippetsBytes + byteLen snippet, k.dropped⟩

/-- The loop over `history.iter().rev()`. -/
def keepOnto (budget : Nat) (k : Kept) : History → Option Kept
  | [] => some k
  | item :: newer => (keepOnto budget k newer).bind (Kept.visit budget item)

def keep (budget : Nat) (history : History) : Option Kept := keepOnto budget ⟨[], 0, 0⟩ history

/-- The line that counts the omitted items. -/
def omissionLine (dropped : Nat) : Text :=
  "(… ".toList ++ decimal dropped ++ " older items omitted)\n".toList

/-- The part of the prompt that the history makes up. -/
def Kept.text (k : Kept) : Text :=
  (if 0 < k.dropped then omissionLine k.dropped else []) ++ k.snippets.flatMap Snippet.text

/-- The two parts of the prompt. -/
structure Prompt where
  head : Text
  kept : Kept

def Prompt.text (p : Prompt) : Text := p.head ++ historyHeader ++ p.kept.text ++ tail

def Ctx.parts (c : Ctx) (historyBudgetBytes : Option Nat) : Option Prompt :=
  c.head.bind fun head =>
    (keep (c.promptBudget historyBudgetBytes head) c.history).map (Prompt.mk head)

def Ctx.buildHandoffPrompt (c : Ctx) (historyBudgetBytes : Option Nat) : Option Text :=
  (c.parts historyBudgetBytes).map Prompt.text

/-! ## The statement -/

/-- The text is the whole of the item, or its front with or without the dots. -/
def Snippet.Shortened (s : Snippet) : Prop :=
  s.text = historySnippet s.item ∨
    ∃ front back, historySnippet s.item = front ++ back ∧
      (s.text = front ∨ s.text = front ++ "…".toList)

/-- The items are the newest ones, in order, and only the oldest of them may be shortened. -/
structure Kept.Newest (k : Kept) (history : History) : Prop where
  suffix : k.snippets.map Snippet.item <:+ history
  shortened : ∀ s ∈ k.snippets, s.Shortened
  whole : ∀ s ∈ k.snippets.tail, s.text = historySnippet s.item

def Ctx.Within (c : Ctx) (historyBudgetBytes : Option Nat) (p : Prompt) : Prop :=
  match historyBudgetBytes with
  | some explicit => byteLen p.text ≤ max explicit (fixedBytes p.head)
  | none =>
      fixedBytes p.head + c.completionCap ≤ c.maxContextTokens →
        byteLen p.text + c.completionCap ≤ c.maxContextTokens

/-- A prompt is built of its parts, is within the ceiling and holds the newest items. -/
def Ctx.Ok (c : Ctx) (historyBudgetBytes : Option Nat) : Prop :=
  ∃ p, c.parts historyBudgetBytes = some p ∧
    c.buildHandoffPrompt historyBudgetBytes = some p.text ∧ c.Within historyBudgetBytes p ∧
    p.kept.Newest c.history

def total (items : History) : Nat := (items.map fun item => byteLen (historySnippet item)).sum

/-- All items fit; or some newest ones fit with the line for the others, and each of the others is
larger than the room that is left without that line. -/
def Fits (budget : Nat) (history : History) : Prop :=
  total history ≤ budget ∨
    ∃ older newest, older ≠ [] ∧ newest ≠ [] ∧ history = older ++ newest ∧
      total newest + byteLen (omissionLine older.length) ≤ budget ∧
      ∀ item ∈ older, budget < total newest + byteLen (historySnippet item)

/-! ## Cutting a text -/

theorem exists_boundary_near (s : Text) {cut : Nat} (h : cut ≤ byteLen s) :
    ∃ b, isCharBoundary s b = true ∧ b ≤ cut ∧ cut < b + 4 := by
  induction s generalizing cut with
  | nil =>
      have hzero : cut = 0 := Nat.le_zero.1 h
      exact ⟨0, isCharBoundary_iff.2 ⟨[], [], rfl, rfl⟩, Nat.zero_le cut, by omega⟩
  | cons c s ih =>
      by_cases hfirst : cut < c.utf8Size
      · have hsize := c.utf8Size_le_four
        exact ⟨0, isCharBoundary_iff.2 ⟨[], c :: s, rfl, rfl⟩, Nat.zero_le cut, by omega⟩
      · have hrest : cut - c.utf8Size ≤ byteLen s := by
          rw [byteLen_cons] at h
          omega
        obtain ⟨b, hat, hle, hnear⟩ := ih hrest
        obtain ⟨pre, post, rfl, rfl⟩ := isCharBoundary_iff.1 hat
        refine ⟨byteLen (c :: pre), isCharBoundary_iff.2 ⟨c :: pre, post, rfl, rfl⟩, ?_⟩
        rw [byteLen_cons]
        omega

theorem le_floorBoundary {s : Text} {b cut : Nat} (hat : isCharBoundary s b = true) (h : b ≤ cut) :
    b ≤ floorBoundary s cut := by
  induction cut with
  | zero => exact h
  | succ cut ih =>
      rw [floorBoundary]
      split
      · exact h
      · next hnot =>
          -- the offset itself is no boundary
          have hne : b ≠ cut + 1 := by
            rintro rfl
            exact hnot hat
          exact ih (Nat.le_of_lt_succ (Nat.lt_of_le_of_ne h hne))

theorem lt_floorBoundary_add (s : Text) {cut : Nat} (h : cut ≤ byteLen s) :
    cut < floorBoundary s cut + 4 := by
  obtain ⟨b, hat, hle, hnear⟩ := exists_boundary_near s h
  have hb := le_floorBoundary hat hle
  omega

theorem clampBytes_spec (s : Text) (max : Nat) :
    ∃ out, clampBytes s max = some out ∧ byteLen out ≤ max ∧
      (out = s ∨ ∃ front back, s = front ++ back ∧ (out = front ∨ out = front ++ "…".toList)) ∧
      (max < byteLen s → max < byteLen out + 4) := by
  have hdots : byteLen "…".toList = 3 := by decide
  unfold clampBytes
  split_ifs with hfits hsmall
  · exact ⟨s, rfl, hfits, Or.inl rfl, fun h => absurd h (Nat.not_lt.2 hfits)⟩
  · obtain ⟨front, back, hs, hcut, hlen⟩ := exists_floor_split s (min max (byteLen s))
    rw [hcut]
    have hle : byteLen front ≤ max := Nat.le_trans hlen (Nat.min_le_left max (byteLen s))
    exact ⟨front, rfl, hle, Or.inr ⟨front, back, hs, Or.inl rfl⟩, fun _ => by omega⟩
  · obtain ⟨front, back, hs, hcut, hlen⟩ := exists_floor_split s (max - 3)
    simp only [hdots, hcut, Option.map_some]
    have hfront : byteLen front = floorBoundary s (max - 3) := (splitAtByte_eq_some_iff.1 hcut).2
    have hnear : max - 3 < byteLen front + 4 := by
      rw [hfront]
      exact lt_floorBoundary_add s (by omega)
    have hout : byteLen (front ++ "…".toList) = byteLen front + 3 := by rw [byteLen_append, hdots]
    refine ⟨front ++ "…".toList, rfl, ?_, Or.inr ⟨front, back, hs, Or.inr rfl⟩, fun _ => ?_⟩
    · omega
    · omega

/-! ## The loop -/

theorem snippet_eq_line (item : HistoryItem) :
    ∃ front, historySnippet item = front ++ "\n".toList := by
  cases item with
  | user s => exact ⟨_, rfl⟩
  | assistant text toolCalls reasoningDetails => exact ⟨_, rfl⟩
  | toolResult r => exact ⟨_, rfl⟩

theorem snippet_pos (item : HistoryItem) : 0 < byteLen (historySnippet item) := by
  obtain ⟨front, h⟩ := snippet_eq_line item
  have hnewline : 0 < byteLen "\n".toList := by decide
  rw [h, byteLen_append]
  exact Nat.lt_add_left (byteLen front) hnewline

@[simp] theorem total_nil : total [] = 0 := rfl

@[simp] theorem total_cons (item : HistoryItem) (items : History) :
    total (item :: items) = byteLen (historySnippet item) + total items := by
  simp [total]

@[simp] theorem total_append (older newer : History) :
    total (older ++ newer) = total older + total newer := by
  simp [total]

theorem keepOnto_append (budget : Nat) (k : Kept) (older newer : History) :
    keepOnto budget k (older ++ newer) =
      (keepOnto budget k newer).bind fun k => keepOnto budget k older := by
  induction older with
  | nil => simp [keepOnto]
  | cons item older ih =>
      rw [List.cons_append, keepOnto, ih, Option.bind_assoc]
      rfl

/-- What the loop has done when it has taken some more items and left out others. -/
def Kept.extend (k : Kept) (more : History) (omitted : Nat) : Kept :=
  ⟨more.map Snippet.whole ++ k.snippets, k.snippetsBytes + total more, k.dropped + omitted⟩

variable {budget : Nat} {k : Kept}

theorem visit_fits {item : HistoryItem}
    (h : k.snippetsBytes + byteLen (historySnippet item) ≤ budget) :
    k.visit budget item = some (k.extend [item] 0) := by
  simp [Kept.visit, Kept.extend, Snippet.whole, Nat.not_lt.2 h]

theorem visit_over {item : HistoryItem} (hk : k.snippets ≠ [])
    (h : budget < k.snippetsBytes + byteLen (historySnippet item)) :
    k.visit budget item = some (k.extend [] 1) := by
  simp [Kept.visit, Kept.extend, h, hk]

theorem extend_extend (more newer : History) (m n : Nat) :
    (k.extend newer n).extend more m = k.extend (more ++ newer) (n + m) := by
  simp [Kept.extend, Nat.add_assoc, Nat.add_comm (total newer)]

theorem keepOnto_fits {items : History} (h : k.snippetsBytes + total items ≤ budget) :
    keepOnto budget k items = some (k.extend items 0) := by
  induction items with
  | nil => simp [keepOnto, Kept.extend]
  | cons item items ih =>
      rw [total_cons] at h
      have hnewer : keepOnto budget k items = some (k.extend items 0) := ih (by omega)
      have hroom : k.snippetsBytes + total items + byteLen (historySnippet item) ≤ budget := by
        omega
      have htake : (k.extend items 0).visit budget item = _ := visit_fits hroom
      rw [keepOnto, hnewer, Option.bind_some, htake, extend_extend]
      rfl

theorem keepOnto_over {items : History} (hk : k.snippets ≠ [])
    (h : ∀ item ∈ items, budget < k.snippetsBytes + byteLen (historySnippet item)) :
    keepOnto budget k items = some (k.extend [] items.length) := by
  induction items with
  | nil => simp [keepOnto, Kept.extend]
  | cons item items ih =>
      have hnewer := ih fun i hi => h i (List.mem_cons_of_mem item hi)
      have hleave : (k.extend [] items.length).visit budget item = _ :=
        visit_over (by simpa [Kept.extend] using hk) (h item List.mem_cons_self)
      rw [keepOnto, hnewer, Option.bind_some, hleave, extend_extend]
      rfl

/-- Once an item has been taken, the loop takes others whole or leaves them out.  It takes no more
than the budget, and if it takes none then none would have fit. -/
theorem keepOnto_extends (items : History) (hk : k.snippets ≠ [])
    (hbytes : k.snippetsBytes ≤ budget) :
    ∃ more omitted, keepOnto budget k items = some (k.extend more omitted) ∧
      k.snippetsBytes + total more ≤ budget ∧
      (more = [] → omitted = items.length ∧
        ∀ item ∈ items, budget < k.snippetsBytes + byteLen (historySnippet item)) := by
  induction items with
  | nil => exact ⟨[], 0, by simp [keepOnto, Kept.extend], by simpa using hbytes, by simp⟩
  | cons item items ih =>
      obtain ⟨more, omitted, hnewer, hroom, hnone⟩ := ih
      rw [keepOnto, hnewer, Option.bind_some]
      by_cases htake : k.snippetsBytes + total more + byteLen (historySnippet item) ≤ budget
      · have hvisit : (k.extend more omitted).visit budget item = _ := visit_fits htake
        refine ⟨item :: more, omitted, ?_, ?_, fun h => absurd h (List.cons_ne_nil item more)⟩
        · rw [hvisit, extend_extend]
          rfl
        · rw [total_cons]
          omega
      · have hvisit : (k.extend more omitted).visit budget item = _ :=
          visit_over (by simp [Kept.extend, hk]) (Nat.lt_of_not_le htake)
        refine ⟨more, omitted + 1, ?_, hroom, fun h => ?_⟩
        · rw [hvisit, extend_extend]
          rfl
        · obtain ⟨homitted, hover⟩ := hnone h
          subst h
          refine ⟨by rw [homitted, List.length_cons], fun i hi => ?_⟩
          rcases List.mem_cons.1 hi with rfl | hi
          · simpa using htake
          · exact hover i hi

theorem keep_cut (older : History) {item : HistoryItem}
    (h : budget < byteLen (historySnippet item)) :
    ∃ cut, clampBytes (historySnippet item) budget = some cut ∧
      keep budget (older ++ [item]) = some ⟨[⟨item, cut⟩], budget, older.length + 1⟩ := by
  obtain ⟨cut, hcut, -⟩ := clampBytes_spec (historySnippet item) budget
  refine ⟨cut, hcut, ?_⟩
  have hfirst : keepOnto budget ⟨[], 0, 0⟩ [item] = some ⟨[⟨item, cut⟩], budget, 1⟩ := by
    simp [keepOnto, Kept.visit, h, hcut]
  have hfull : ∀ i ∈ older, budget < budget + byteLen (historySnippet i) :=
    fun i _ => Nat.lt_add_of_pos_right (snippet_pos i)
  rw [keep, keepOnto_append, hfirst, Option.bind_some, keepOnto_over (by simp) hfull, Kept.extend]
  simp [Nat.add_comm]

/-! ## What is kept -/

def Kept.start : Kept := ⟨[], 0, 0⟩

theorem byteLen_wholes (items : History) :
    byteLen ((items.map Snippet.whole).flatMap Snippet.text) = total items := by
  induction items with
  | nil => rfl
  | cons item items ih =>
      rw [List.map_cons, List.flatMap_cons, byteLen_append, ih, total_cons]
      rfl

theorem newest_of_suffix {items history : History} (omitted : Nat) (h : items <:+ history) :
    (Kept.start.extend items omitted).Newest history := by
  have hwhole : ∀ s ∈ (Kept.start.extend items omitted).snippets,
      s.text = historySnippet s.item := by
    intro s hs
    simp only [Kept.extend, Kept.start, List.append_nil, List.mem_map] at hs
    obtain ⟨item, -, rfl⟩ := hs
    rfl
  have hitems : (Kept.start.extend items omitted).snippets.map Snippet.item = items := by
    simp [Kept.extend, Kept.start, Snippet.whole, Function.comp_def]
  exact
    { suffix := by rw [hitems]; exact h
      shortened := fun s hs => Or.inl (hwhole s hs)
      whole := fun s hs => hwhole s (List.mem_of_mem_tail hs) }

theorem newest_cut (older : History) {item : HistoryItem} {cut : Text} {bytes dropped max : Nat}
    (h : clampBytes (historySnippet item) max = some cut) :
    (Kept.mk [⟨item, cut⟩] bytes dropped).Newest (older ++ [item]) := by
  obtain ⟨out, hout, -, hshort, -⟩ := clampBytes_spec (historySnippet item) max
  obtain rfl : out = cut := Option.some.inj (hout.symm.trans h)
  exact
    { suffix := List.suffix_append older [item]
      shortened := fun s hs => by
        rw [List.mem_singleton.1 hs]
        exact hshort
      whole := fun s hs => absurd hs List.not_mem_nil }

theorem exists_overflow {history : History} (h : budget < total history) :
    ∃ older item newest, history = older ++ item :: newest ∧ total newest ≤ budget ∧
      budget < total newest + byteLen (historySnippet item) := by
  induction history with
  | nil => exact absurd h (Nat.not_lt_zero budget)
  | cons item newer ih =>
      by_cases hfits : total newer ≤ budget
      · refine ⟨[], item, newer, rfl, hfits, ?_⟩
        rw [total_cons] at h
        rwa [Nat.add_comm]
      · obtain ⟨older, x, newest, rfl, hroom, hover⟩ := ih (Nat.lt_of_not_le hfits)
        exact ⟨item :: older, x, newest, rfl, hroom, hover⟩

theorem four_le_omissionLine (n : Nat) : 4 ≤ byteLen (omissionLine n) := by
  have hopen : byteLen "(… ".toList = 5 := by decide
  rw [omissionLine, byteLen_append, byteLen_append, hopen]
  omega

theorem byteLen_extend (items : History) (omitted : Nat) :
    byteLen (Kept.start.extend items omitted).text =
      (if 0 < omitted then byteLen (omissionLine omitted) else 0) + total items := by
  rw [Kept.text, byteLen_append]
  simp only [Kept.extend, Kept.start, List.append_nil, Nat.zero_add, byteLen_wholes]
  split <;> rfl

theorem keep_append {older newest : History} (hroom : total newest ≤ budget) :
    keep budget (older ++ newest) = keepOnto budget (Kept.start.extend newest 0) older := by
  have htaken : keepOnto budget ⟨[], 0, 0⟩ newest = some (Kept.start.extend newest 0) :=
    keepOnto_fits (by simpa using hroom)
  rw [keep, keepOnto_append, htaken, Option.bind_some]

/-- If what stands before some newest items is all that is taken, none of it is the item that
overflowed. -/
theorem eq_nil_of_suffix {older newest more : History} {item : HistoryItem}
    (hsuffix : more ++ newest <:+ older ++ item :: newest)
    (hroom : total newest + total more ≤ budget)
    (hover : budget < total newest + byteLen (historySnippet item)) : more = [] := by
  rcases List.eq_nil_or_concat more with hnil | ⟨front, last, rfl⟩
  · exact hnil
  · obtain ⟨lost, hlost⟩ := hsuffix
    have hcancel : lost ++ front ++ [last] = older ++ [item] :=
      (List.append_left_inj newest).1 (by simpa using hlost)
    have hlast : last = item := by
      have hend := congrArg List.getLast? hcancel
      simpa using hend
    subst hlast
    simp only [List.concat_eq_append, total_append, total_cons, total_nil] at hroom
    omega

theorem keep_ok_iff (history : History) :
    (∃ k, keep budget history = some k ∧ byteLen k.text ≤ budget ∧ k.Newest history) ↔
      Fits budget history := by
  constructor
  · rintro ⟨k, hkeep, hlen, hnewest⟩
    by_cases hall : total history ≤ budget
    · exact Or.inl hall
    · obtain ⟨older, item, newest, rfl, hroom, hover⟩ :=
        exists_overflow (Nat.lt_of_not_le hall)
      by_cases hnone : newest = []
      · -- the newest item is cut, and the line for the others is longer than what the cut wasted
        subst hnone
        rw [total_nil, Nat.zero_add] at hover
        obtain ⟨cut, hcut, hkept⟩ := keep_cut older hover
        obtain rfl : _ = k := Option.some.inj (hkept.symm.trans hkeep)
        obtain ⟨out, hout, -, -, hnear⟩ := clampBytes_spec (historySnippet item) budget
        obtain rfl : out = cut := Option.some.inj (hout.symm.trans hcut)
        have hline := four_le_omissionLine (older.length + 1)
        have hwaste := hnear hover
        have htext : byteLen (omissionLine (older.length + 1)) + byteLen out ≤ budget := by
          simpa [Kept.text] using hlen
        omega
      · -- the overflowing item is left out, and an older one that is taken would leave a gap
        have hsplit : older ++ item :: newest = (older ++ [item]) ++ newest := by simp
        obtain ⟨more, omitted, hrest, hmore, hleft⟩ :=
          @keepOnto_extends budget (Kept.start.extend newest 0) (older ++ [item])
            (by simp [Kept.extend, hnone]) (by simpa [Kept.extend, Kept.start] using hroom)
        rw [hsplit, keep_append hroom, hrest, extend_extend] at hkeep
        obtain rfl := Option.some.inj hkeep
        have hsuffix : more ++ newest <:+ older ++ item :: newest := by
          simpa [Kept.extend, Kept.start, Snippet.whole, Function.comp_def] using hnewest.suffix
        have hnil : more = [] :=
          eq_nil_of_suffix hsuffix (by simpa [Kept.extend, Kept.start] using hmore) hover
        obtain ⟨homitted, hall⟩ := hleft hnil
        subst hnil homitted
        refine Or.inr ⟨older ++ [item], newest, by simp, hnone, hsplit, ?_, ?_⟩
        · rw [byteLen_extend] at hlen
          simpa [Nat.add_comm] using hlen
        · simpa [Kept.extend, Kept.start] using hall
  · rintro (hall | ⟨older, newest, hne, hnew, rfl, hlen, hover⟩)
    · have hkeep : keep budget history = some (Kept.start.extend history 0) :=
        keepOnto_fits (by simpa using hall)
      refine ⟨_, hkeep, ?_, newest_of_suffix 0 (List.suffix_refl history)⟩
      rw [byteLen_extend]
      simpa using hall
    · have hroom : total newest ≤ budget := Nat.le_trans (Nat.le_add_right _ _) hlen
      have hkeep : keep budget (older ++ newest) =
          some (Kept.start.extend newest older.length) := by
        rw [keep_append hroom, keepOnto_over (by simp [Kept.extend, hnew])
          (by simpa [Kept.extend, Kept.start] using hover), extend_extend]
        simp
      refine ⟨_, hkeep, ?_, newest_of_suffix _ (List.suffix_append older newest)⟩
      rw [byteLen_extend, if_pos (List.length_pos_of_ne_nil hne)]
      omega

theorem keep_zero (history : History) :
    ∃ k, keep 0 history = some k ∧ k.Newest history := by
  rcases List.eq_nil_or_concat history with rfl | ⟨older, item, rfl⟩
  · exact ⟨_, rfl, newest_of_suffix 0 List.nil_suffix⟩
  · rw [List.concat_eq_append]
    obtain ⟨cut, hcut, hkept⟩ := keep_cut older (snippet_pos item)
    exact ⟨_, hkept, newest_cut older hcut⟩

/-! ## The prompt -/

theorem exists_head (c : Ctx) : ∃ head, c.head = some head := by
  obtain ⟨task, htask, -⟩ :=
    clampBytes_spec (c.originalTask.getD "(unknown)".toList) handoffOriginalTaskMaxBytes
  exact ⟨_, by rw [Ctx.head, htask]; rfl⟩

theorem byteLen_prompt (p : Prompt) :
    byteLen p.text = fixedBytes p.head + byteLen p.kept.text := by
  simp only [Prompt.text, fixedBytes, byteLen_append]
  omega

/-- The frame and the answer do not fit into the window. -/
def Ctx.Hopeless (c : Ctx) (historyBudgetBytes : Option Nat) (head : Text) : Prop :=
  historyBudgetBytes = none ∧ c.maxContextTokens < fixedBytes head + c.completionCap

theorem within_iff (c : Ctx) (historyBudgetBytes : Option Nat) (p : Prompt) :
    c.Within historyBudgetBytes p ↔
      c.Hopeless historyBudgetBytes p.head ∨
        byteLen p.kept.text ≤ c.promptBudget historyBudgetBytes p.head := by
  cases historyBudgetBytes with
  | some explicit =>
      simp only [Ctx.Within, Ctx.Hopeless, Ctx.promptBudget, byteLen_prompt, reduceCtorEq,
        false_and, false_or]
      omega
  | none =>
      simp only [Ctx.Within, Ctx.Hopeless, Ctx.promptBudget, byteLen_prompt, true_and,
        handoffPromptBudgetBytes, conservativeBytesPerToken, Nat.mul_one]
      omega

/-- The prompt is within its ceiling and holds the newest items exactly if all items fit, or some
newest ones together with the line for the others while none of the others would fit without it; or
if there was no room for the frame. -/
theorem handoffPrompt_ok_iff (c : Ctx) (historyBudgetBytes : Option Nat) :
    ∃ head, c.head = some head ∧
      (c.Ok historyBudgetBytes ↔
        c.Hopeless historyBudgetBytes head ∨
          Fits (c.promptBudget historyBudgetBytes head) c.history) := by
  obtain ⟨head, hhead⟩ := exists_head c
  refine ⟨head, hhead, ?_⟩
  have hparts : c.parts historyBudgetBytes =
      (keep (c.promptBudget historyBudgetBytes head) c.history).map (Prompt.mk head) := by
    rw [Ctx.parts, hhead, Option.bind_some]
  have hbuilt : ∀ p, c.parts historyBudgetBytes = some p →
      c.buildHandoffPrompt historyBudgetBytes = some p.text := by
    intro p hp
    rw [Ctx.buildHandoffPrompt, hp, Option.map_some]
  rw [← keep_ok_iff]
  constructor
  · rintro ⟨p, hp, -, hwithin, hnewest⟩
    obtain ⟨k, hkeep, rfl⟩ := Option.map_eq_some_iff.1 (hparts.symm.trans hp)
    rcases (within_iff c historyBudgetBytes ⟨head, k⟩).1 hwithin with hhopeless | hlen
    · exact Or.inl hhopeless
    · exact Or.inr ⟨k, hkeep, hlen, hnewest⟩
  · rintro (hhopeless | ⟨k, hkeep, hlen, hnewest⟩)
    · have hzero : c.promptBudget historyBudgetBytes head = 0 := by
        obtain ⟨rfl, hsmall⟩ := hhopeless
        simp only [Ctx.promptBudget, handoffPromptBudgetBytes, conservativeBytesPerToken]
        omega
      obtain ⟨k, hkeep, hnewest⟩ := keep_zero c.history
      have hp : c.parts historyBudgetBytes = some ⟨head, k⟩ := by
        rw [hparts, hzero, hkeep]
        rfl
      exact ⟨_, hp, hbuilt _ hp, (within_iff _ _ _).2 (Or.inl hhopeless), hnewest⟩
    · have hp : c.parts historyBudgetBytes = some ⟨head, k⟩ := by
        rw [hparts, hkeep]
        rfl
      exact ⟨_, hp, hbuilt _ hp, (within_iff _ _ _).2 (Or.inr hlen), hnewest⟩

/-! ## A gap and a ceiling that is passed -/

def plainCtx (history : History) : Ctx where
  handoffCount := 0
  originalTask := some "task".toList
  tools := []
  history := history
  maxContextTokens := 200000
  provider := .openRouter

theorem plainCtx_frame {history : History} {head : Text} (h : (plainCtx history).head = some head) :
    fixedBytes head = 330 := by
  have hframe : (plainCtx []).head.map fixedBytes = some 330 := by decide +kernel
  have hsame : (plainCtx []).head = some head := h
  rw [hsame] at hframe
  exact Option.some.inj hframe

theorem not_ok_of_not_fits {history : History} {explicit : Nat}
    (h : ¬ Fits (explicit - 330) history) : ¬ (plainCtx history).Ok (some explicit) := by
  intro hok
  obtain ⟨head, hhead, hiff⟩ := handoffPrompt_ok_iff (plainCtx history) (some explicit)
  rcases hiff.1 hok with hhopeless | hfits
  · exact absurd hhopeless.1 (Option.some_ne_none explicit)
  · rw [Ctx.promptBudget, plainCtx_frame hhead] at hfits
    exact h hfits

theorem not_fits_gap {a b c : HistoryItem}
    (hover : budget < byteLen (historySnippet b) + byteLen (historySnippet c))
    (hfits : byteLen (historySnippet a) + byteLen (historySnippet c) ≤ budget) :
    ¬ Fits budget [a, b, c] := by
  rintro (hall | ⟨older, newest, hne, hnew, heq, hlen, hleft⟩)
  · simp only [total_cons, total_nil] at hall
    omega
  · match older, heq with
    | [], _ => exact hne rfl
    | [_], rfl =>
        simp only [total_cons, total_nil] at hlen
        omega
    | [_, _], rfl =>
        have hold := hleft a List.mem_cons_self
        simp only [total_cons, total_nil] at hold
        omega
    | _ :: _ :: _ :: rest, hlong =>
        obtain ⟨-, -, -, -, hend⟩ : _ ∧ _ ∧ _ ∧ rest = [] ∧ newest = [] := by simpa using hlong
        exact hnew hend

theorem not_fits_line {a b : HistoryItem}
    (hover : budget < byteLen (historySnippet a) + byteLen (historySnippet b))
    (hfull : budget < byteLen (historySnippet b) + 4) : ¬ Fits budget [a, b] := by
  rintro (hall | ⟨older, newest, hne, hnew, heq, hlen, -⟩)
  · simp only [total_cons, total_nil] at hall
    omega
  · have hline := four_le_omissionLine older.length
    match older, heq with
    | [], _ => exact hne rfl
    | [_], rfl =>
        simp only [total_cons, total_nil] at hlen
        omega
    | _ :: _ :: rest, hlong =>
        obtain ⟨-, -, -, hend⟩ : _ ∧ _ ∧ rest = [] ∧ newest = [] := by simpa using hlong
        exact hnew hend

/-- With 100 bytes for the history an item between two others is left out; with 10 bytes the line
that says so makes the prompt longer than its budget. -/
theorem prompt_has_gap_and_passes_ceiling :
    ¬ (plainCtx [.user "a".toList, .user (List.replicate 100 'b'), .user "c".toList]).Ok
        (some 430) ∧
      ¬ (plainCtx [.user "ab".toList, .user "c".toList]).Ok (some 340) :=
  ⟨not_ok_of_not_fits (not_fits_gap (by decide +kernel) (by decide +kernel)),
    not_ok_of_not_fits (not_fits_line (by decide) (by decide))⟩

end Handoff
end Agent
end Maju
