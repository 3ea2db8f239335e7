import Mathlib.Data.List.Forall2
import Maju.Lib.Decimal
import Maju.Lib.Slice

/-!
# ToolResult — a tool result under two budgets

The blocks of a result are gone through once.  Text is collected until an image or the end, then
written in what is left of the budgets, with its middle taken out if it does not fit; an image that
does not fit is replaced by a line of text.

* `toolResultContent` — the loop; nothing stands where Rust would panic;
* `Entry` — what a flush was given and what it kept, or an image;
* `Faithful` — both budgets, the order of the blocks, and a marker for every text that was cut;
* `toolResultContent_faithful_iff` — this fails exactly where a text is cut with at most 128 bytes
  left.

Sizes are those of values in memory, so that no sum of them saturates.
-/

namespace Maju
namespace Agent
namespace Mcp

open Lib

/-! ## Blocks -/

inductive RawContent where
  | text (text : Text)
  | image (data mimeType : Text)
  | audio (data mimeType : Text)
  | resourceLink (uri : Text)
  | resource
  deriving DecidableEq, Repr

inductive ToolResultContent where
  | text (text : Text)
  | image (data mimeType : Text)
  deriving DecidableEq, Repr

/-- The bytes that count for the budget of the whole result. -/
def ToolResultContent.size : ToolResultContent → Nat
  | .text t => byteLen t
  | .image data mimeType => byteLen data + byteLen mimeType

/-- The bytes that count for the budget of the text. -/
def ToolResultContent.textSize : ToolResultContent → Nat
  | .text t => byteLen t
  | .image _ _ => 0

/-! ## Cutting a text -/

def markerFieldMax : Nat := 256

def elisionMarkerAllowance : Nat := 128

def truncateAtBoundary (s : Text) (max : Nat) : Option Text :=
  if byteLen s ≤ max then some s else (splitAtByte s (floorBoundary s max)).map Prod.fst

/-- The line that stands for what was taken out. -/
def elisionMarker (elided total : Nat) : Text :=
  "\n[... ".toList ++ decimal elided ++ " of ".toList ++ decimal total ++
    " bytes elided from tool result ...]\n".toList

def truncateMiddle (s : Text) (max : Nat) : Option Text :=
  if byteLen s ≤ max then some s
  else
    let keep := max - elisionMarkerAllowance
    -- too small for a head, the marker and a tail
    if keep = 0 then truncateAtBoundary s max
    else do
      let head ← truncateAtBoundary s ((keep + 1) / 2)
      let tail ← (splitAtByte s (ceilBoundary s (byteLen s - keep / 2))).map Prod.snd
      let elided := byteLen s - byteLen head - byteLen tail
      some (head ++ elisionMarker elided (byteLen s) ++ tail)

/-! ## The loop -/

/-- What a flush was given, what was left of the budgets and what it kept; or an image. -/
inductive Entry where
  | text (full : Text) (budget : Nat) (kept : Text)
  | image (data mimeType : Text)
  deriving DecidableEq, Repr

/-- The variables of the loop, and a log of its flushes and images for the statements below. -/
structure Assembly where
  out : List ToolResultContent
  text : Text
  used : Nat
  textUsed : Nat
  log : List Entry
  deriving DecidableEq, Repr

/-- The closure `append`. -/
def appendText (text s : Text) : Text := if text = [] then s else text ++ '\n' :: s

/-- The closure `short`. -/
def short (s : Text) : Option Text := truncateAtBoundary s markerFieldMax

/-- The line for an image that does not fit. -/
def imageMarker (mimeType : Text) (bytes : Nat) : Text :=
  "[image elided: ".toList ++ mimeType ++ ", ".toList ++ decimal bytes ++
    " base64 bytes exceeds remaining tool-result budget]".toList

def audioMarker (mimeType : Text) (bytes : Nat) : Text :=
  "[audio elided: ".toList ++ mimeType ++ ", ".toList ++ decimal bytes ++ " bytes]".toList

namespace Assembly

def start : Assembly where
  out := []
  text := []
  used := 0
  textUsed := 0
  log := []

variable (maxBytes maxTextBytes : Nat)

def budget (s : Assembly) : Nat := min (maxTextBytes - s.textUsed) (maxBytes - s.used)

/-- The closure `flush_text`. -/
def flushText (s : Assembly) : Option Assembly :=
  if s.text = [] then some s
  else
    (truncateMiddle s.text (s.budget maxBytes maxTextBytes)).map fun kept =>
      { out := if kept = [] then s.out else s.out ++ [.text kept]
        text := []
        used := s.used + byteLen kept
        textUsed := s.textUsed + byteLen kept
        log := s.log ++ [.text s.text (s.budget maxBytes maxTextBytes) kept] }

/-- An image fits into what is left, or its line is collected. -/
def putImage (s : Assembly) (data mimeType : Text) : Option Assembly :=
  if s.used + (byteLen data + byteLen mimeType) ≤ maxBytes then
    some { s with
      out := s.out ++ [.image data mimeType]
      used := s.used + (byteLen data + byteLen mimeType)
      log := s.log ++ [.image data mimeType] }
  else
    (short mimeType).map fun mime =>
      { s with text := appendText s.text (imageMarker mime (byteLen data)) }

def step (s : Assembly) : RawContent → Option Assembly
  | .text text => some { s with text := appendText s.text text }
  | .image data mimeType =>
      (s.flushText maxBytes maxTextBytes).bind fun s => s.putImage maxBytes data mimeType
  | .audio data mimeType =>
      (short mimeType).map fun mime =>
        { s with text := appendText s.text (audioMarker mime (byteLen data)) }
  | .resourceLink uri =>
      (short uri).map fun uri =>
        { s with text := appendText s.text ("[resource: ".toList ++ uri ++ "]".toList) }
  | .resource => some { s with text := appendText s.text "[resource elided]".toList }

def run (s : Assembly) : List RawContent → Option Assembly
  | [] => s.flushText maxBytes maxTextBytes
  | block :: blocks => (s.step maxBytes maxTextBytes block).bind fun s => s.run blocks

end Assembly

def toolResultContent (blocks : List RawContent) (maxBytes maxTextBytes : Nat) :
    Option (List ToolResultContent) :=
  (Assembly.start.run maxBytes maxTextBytes blocks).map Assembly.out

/-! ## What is kept of a text -/

theorem truncateAtBoundary_spec (s : Text) (max : Nat) :
    ∃ pre post, s = pre ++ post ∧ truncateAtBoundary s max = some pre ∧ byteLen pre ≤ max := by
  by_cases hfits : byteLen s ≤ max
  · exact ⟨s, [], (List.append_nil s).symm, by rw [truncateAtBoundary, if_pos hfits], hfits⟩
  · obtain ⟨pre, post, hs, hsplit, hle⟩ := exists_floor_split s max
    exact ⟨pre, post, hs, by rw [truncateAtBoundary, if_neg hfits, hsplit]; rfl, hle⟩

theorem byteLen_elisionMarker {elided total : Nat} (hle : elided ≤ total)
    (htotal : total < 10 ^ 41) : byteLen (elisionMarker elided total) ≤ elisionMarkerAllowance := by
  have helided := length_decimal_le (by decide : 0 < 41) (Nat.lt_of_le_of_lt hle htotal)
  have htotal' := length_decimal_le (by decide : 0 < 41) htotal
  have hsum : ∀ a b c : Text, byteLen a = 6 → byteLen b = 4 → byteLen c = 36 →
      byteLen (a ++ decimal elided ++ b ++ decimal total ++ c) ≤ 128 := by
    intro a b c ha hb hc
    rw [byteLen_append, byteLen_append, byteLen_append, byteLen_append, ha, hb, hc, byteLen_decimal,
      byteLen_decimal]
    omega
  exact hsum "\n[... ".toList " of ".toList " bytes elided from tool result ...]\n".toList
    (by decide) (by decide) (by decide)

/-- The text without its middle, and a marker that says how much of it there was. -/
def Elides (full kept : Text) : Prop :=
  ∃ pre mid post, full = pre ++ mid ++ post ∧
    kept = pre ++ elisionMarker (byteLen mid) (byteLen full) ++ post

theorem truncateMiddle_elides {s : Text} {max : Nat} (hlong : max < byteLen s)
    (hroom : elisionMarkerAllowance < max) (hmemory : byteLen s < 10 ^ 41) :
    ∃ kept, truncateMiddle s max = some kept ∧ Elides s kept ∧ byteLen kept ≤ max := by
  have hkeep : max - elisionMarkerAllowance ≠ 0 := by omega
  obtain ⟨pre, rest, hpre, hhead, hprelen⟩ :=
    truncateAtBoundary_spec s ((max - elisionMarkerAllowance + 1) / 2)
  obtain ⟨front, post, hfront, hsplit, hfrontlen⟩ :=
    exists_ceil_split s (Nat.sub_le (byteLen s) ((max - elisionMarkerAllowance) / 2))
  have hbefore : byteLen pre ≤ byteLen front := by omega
  -- the head ends before the tail begins
  obtain ⟨mid, hmid⟩ : ∃ mid, front = pre ++ mid := by
    rcases List.append_eq_append_iff.1 (hpre.symm.trans hfront) with ⟨mid, hmid, _⟩ | ⟨z, hz, _⟩
    · exact ⟨mid, hmid⟩
    · have hzero : byteLen z = 0 := by
        have hlen := congrArg byteLen hz
        rw [byteLen_append] at hlen
        omega
      rw [byteLen_eq_zero_iff.1 hzero, List.append_nil] at hz
      exact ⟨[], by rw [hz, List.append_nil]⟩
  have hs : s = pre ++ mid ++ post := by rw [hfront, hmid]
  have hlen : byteLen s = byteLen pre + byteLen mid + byteLen post := by
    rw [hs, byteLen_append, byteLen_append]
  have helided : byteLen s - byteLen pre - byteLen post = byteLen mid := by omega
  refine ⟨pre ++ elisionMarker (byteLen mid) (byteLen s) ++ post, ?_, ⟨pre, mid, post, hs, rfl⟩, ?_⟩
  · simp only [truncateMiddle, if_neg (Nat.not_le.2 hlong), if_neg hkeep, hhead, hsplit,
      Option.map_some, bind, Option.bind, helided]
  · have hmarker := byteLen_elisionMarker (by omega : byteLen mid ≤ byteLen s) hmemory
    have hpost : byteLen post ≤ (max - elisionMarkerAllowance) / 2 := by
      have hsum := congrArg byteLen hfront
      rw [byteLen_append] at hsum
      omega
    rw [byteLen_append, byteLen_append]
    omega

theorem truncateMiddle_cuts {s : Text} {max : Nat} (hlong : max < byteLen s)
    (hroom : ¬ elisionMarkerAllowance < max) : truncateMiddle s max = truncateAtBoundary s max := by
  have hkeep : max - elisionMarkerAllowance = 0 := by omega
  simp only [truncateMiddle, if_neg (Nat.not_le.2 hlong), if_pos hkeep]

theorem truncateMiddle_spec (s : Text) (max : Nat) (hmemory : byteLen s < 10 ^ 41) :
    ∃ kept, truncateMiddle s max = some kept ∧ byteLen kept ≤ max := by
  by_cases hlong : max < byteLen s
  · by_cases hroom : elisionMarkerAllowance < max
    · obtain ⟨kept, hkept, _, hle⟩ := truncateMiddle_elides hlong hroom hmemory
      exact ⟨kept, hkept, hle⟩
    · obtain ⟨pre, _, _, hpre, hle⟩ := truncateAtBoundary_spec s max
      exact ⟨pre, (truncateMiddle_cuts hlong hroom).trans hpre, hle⟩
  · have hfits : byteLen s ≤ max := Nat.le_of_not_lt hlong
    exact ⟨s, by rw [truncateMiddle, if_pos hfits], hfits⟩

/-! ## Blocks as text -/

/-- `short` of a text. -/
def shortened (s : Text) : Text := (short s).getD []

/-- What a block is as text; an image is its line. -/
def RawContent.shown : RawContent → Text
  | .text t => t
  | .image data mimeType => imageMarker (shortened mimeType) (byteLen data)
  | .audio data mimeType => audioMarker (shortened mimeType) (byteLen data)
  | .resourceLink uri => "[resource: ".toList ++ shortened uri ++ "]".toList
  | .resource => "[resource elided]".toList

/-- Blocks as one text, a line break between two of them. -/
def joined (blocks : List RawContent) : Text :=
  blocks.foldl (fun text block => appendText text block.shown) []

theorem joined_concat (blocks : List RawContent) (block : RawContent) :
    joined (blocks ++ [block]) = appendText (joined blocks) block.shown := by
  rw [joined, List.foldl_append]
  rfl

/-- The bytes that a block takes in memory. -/
def RawContent.bytes : RawContent → Nat
  | .text t => byteLen t
  | .image data mimeType => byteLen data + byteLen mimeType
  | .audio data mimeType => byteLen data + byteLen mimeType
  | .resourceLink uri => byteLen uri
  | .resource => 0

/-- Blocks that fit into an address space of 64 bits. -/
structure InMemory (blocks : List RawContent) : Prop where
  length : blocks.length < 2 ^ 64
  bytes : (blocks.map RawContent.bytes).sum < 2 ^ 64

theorem short_eq (s : Text) : short s = some (shortened s) ∧ byteLen (shortened s) ≤ 256 := by
  obtain ⟨pre, _, _, hpre, hle⟩ := truncateAtBoundary_spec s markerFieldMax
  have hshort : short s = some pre := hpre
  rw [shortened, hshort]
  exact ⟨rfl, hle⟩

theorem byteLen_shown (block : RawContent) (h : block.bytes < 2 ^ 64) :
    byteLen block.shown ≤ block.bytes + 400 := by
  have hline : ∀ a b c mime : Text, ∀ n, byteLen a ≤ 15 → byteLen b ≤ 2 → byteLen c ≤ 51 →
      byteLen mime ≤ 256 → n < 2 ^ 64 →
      byteLen (a ++ mime ++ b ++ decimal n ++ c) ≤ 400 := by
    intro a b c mime n ha hb hc hmime hn
    have hdigits := length_decimal_le (by decide : 0 < 20) (Nat.lt_trans hn (by decide))
    rw [byteLen_append, byteLen_append, byteLen_append, byteLen_append, byteLen_decimal]
    omega
  cases block with
  | text t => exact Nat.le_add_right _ _
  | image data mimeType =>
      have hdata : byteLen data < 2 ^ 64 := Nat.lt_of_le_of_lt (Nat.le_add_right _ _) h
      have hle := hline "[image elided: ".toList ", ".toList
        " base64 bytes exceeds remaining tool-result budget]".toList (shortened mimeType)
        (byteLen data) (by decide) (by decide) (by decide)
        (short_eq mimeType).2 hdata
      exact Nat.le_trans hle (Nat.le_add_left _ _)
  | audio data mimeType =>
      have hdata : byteLen data < 2 ^ 64 := Nat.lt_of_le_of_lt (Nat.le_add_right _ _) h
      have hle := hline "[audio elided: ".toList ", ".toList " bytes]".toList (shortened mimeType)
        (byteLen data) (by decide) (by decide) (by decide)
        (short_eq mimeType).2 hdata
      exact Nat.le_trans hle (Nat.le_add_left _ _)
  | resourceLink uri =>
      have hlink : ∀ a b : Text, byteLen a ≤ 15 → byteLen b ≤ 2 →
          byteLen (a ++ shortened uri ++ b) ≤ 400 := by
        intro a b ha hb
        have huri := (short_eq uri).2
        rw [byteLen_append, byteLen_append]
        omega
      exact Nat.le_trans (hlink "[resource: ".toList "]".toList (by decide)
        (by decide)) (Nat.le_add_left _ _)
  | resource =>
      have hle : byteLen "[resource elided]".toList ≤ 400 := by decide
      exact Nat.le_trans hle (Nat.le_add_left _ _)

theorem byteLen_appendText (text s : Text) :
    byteLen (appendText text s) ≤ byteLen text + 1 + byteLen s := by
  unfold appendText
  split
  · omega
  · rw [byteLen_append, byteLen_cons]
    have hnewline : '\n'.utf8Size = 1 := rfl
    omega

theorem byteLen_joined (blocks : List RawContent) (h : (blocks.map RawContent.bytes).sum < 2 ^ 64) :
    byteLen (joined blocks) ≤ (blocks.map RawContent.bytes).sum + 401 * blocks.length := by
  induction blocks using List.reverseRecOn with
  | nil => exact Nat.le_refl 0
  | append_singleton blocks block ih =>
      simp only [List.map_append, List.map_cons, List.map_nil, List.sum_append, List.sum_cons,
        List.sum_nil, Nat.add_zero, List.length_append, List.length_cons, List.length_nil] at h ⊢
      have hblock := byteLen_shown block (by omega)
      have hbefore := ih (by omega)
      have happend := byteLen_appendText (joined blocks) block.shown
      rw [joined_concat]
      omega

theorem InMemory.joined_lt {before group after : List RawContent}
    (h : InMemory (before ++ group ++ after)) : byteLen (joined group) < 10 ^ 41 := by
  have hlength := h.length
  have hbytes := h.bytes
  simp only [List.map_append, List.sum_append, List.length_append] at hlength hbytes
  have hgroup := byteLen_joined group (by omega)
  have hlarge : 402 * 2 ^ 64 < 10 ^ 41 := by decide
  omega

/-! ## Groups of blocks -/

/-- What an entry stands for: a text for the blocks that were joined to it, an image for itself and
blocks without text before it. -/
def Represents (group : List RawContent) : Entry → Prop
  | .text full budget kept => full = joined group ∧ truncateMiddle full budget = some kept
  | .image data mimeType =>
      ∃ blanks, group = blanks ++ [.image data mimeType] ∧ joined blanks = []

def Entry.output : Entry → Option ToolResultContent
  | .text _ _ kept => if kept = [] then none else some (.text kept)
  | .image data mimeType => some (.image data mimeType)

/-- The blocks are grouped from left to right, each group is one entry, and the result has the
entries in this order. -/
def InOrder (blocks : List RawContent) (log : List Entry) (out : List ToolResultContent) : Prop :=
  ∃ groups blanks, blocks = groups.flatten ++ blanks ∧ joined blanks = [] ∧
    List.Forall₂ Represents groups log ∧ out = log.filterMap Entry.output

section

variable {maxBytes maxTextBytes : Nat}

/-- Between two blocks: the blocks so far are the entries and the collected text, and the counters
are the sizes of the result. -/
structure Laid (maxBytes maxTextBytes : Nat) (done : List RawContent) (s : Assembly) : Prop where
  groups : ∃ groups openGroup, done = groups.flatten ++ openGroup ∧ s.text = joined openGroup ∧
    List.Forall₂ Represents groups s.log
  out : s.out = s.log.filterMap Entry.output
  used : (s.out.map ToolResultContent.size).sum = s.used
  textUsed : (s.out.map ToolResultContent.textSize).sum = s.textUsed
  total : s.used ≤ maxBytes
  text : s.textUsed ≤ maxTextBytes

theorem Laid.start (maxBytes maxTextBytes : Nat) :
    Laid maxBytes maxTextBytes [] Assembly.start where
  groups := ⟨[], [], rfl, rfl, List.Forall₂.nil⟩
  out := rfl
  used := rfl
  textUsed := rfl
  total := Nat.zero_le _
  text := Nat.zero_le _

theorem forall₂_concat {groups : List (List RawContent)} {log : List Entry}
    {group : List RawContent} {e : Entry} (h : List.Forall₂ Represents groups log)
    (he : Represents group e) :
    List.Forall₂ Represents (groups ++ [group]) (log ++ [e]) :=
  List.rel_append h (List.Forall₂.cons he List.Forall₂.nil)

theorem Laid.flushText {done : List RawContent} {s : Assembly}
    (h : Laid maxBytes maxTextBytes done s) (hmemory : InMemory done) :
    ∃ s', s.flushText maxBytes maxTextBytes = some s' ∧ s'.text = [] ∧
      Laid maxBytes maxTextBytes done s' := by
  by_cases hempty : s.text = []
  · exact ⟨s, by rw [Assembly.flushText, if_pos hempty], hempty, h⟩
  obtain ⟨groups, openGroup, hdone, htext, hgroups⟩ := h.groups
  have hlt : byteLen s.text < 10 ^ 41 := by
    have hsplit : InMemory (groups.flatten ++ openGroup ++ []) := by
      rw [List.append_nil, ← hdone]
      exact hmemory
    rw [htext]
    exact hsplit.joined_lt
  obtain ⟨kept, hkept, hle⟩ := truncateMiddle_spec s.text (s.budget maxBytes maxTextBytes) hlt
  have hbudget : byteLen kept ≤ maxTextBytes - s.textUsed ∧ byteLen kept ≤ maxBytes - s.used :=
    ⟨Nat.le_trans hle (Nat.min_le_left _ _), Nat.le_trans hle (Nat.min_le_right _ _)⟩
  have htotal := h.total
  have htextUsed := h.text
  refine ⟨_, by rw [Assembly.flushText, if_neg hempty, hkept]; rfl, rfl, ?_⟩
  have hrepresents : Represents openGroup
      (.text s.text (s.budget maxBytes maxTextBytes) kept) := ⟨htext, hkept⟩
  refine ⟨⟨groups ++ [openGroup], [], ?_, rfl, forall₂_concat hgroups hrepresents⟩, ?_, ?_, ?_,
    ?_, ?_⟩
  · rw [hdone, List.flatten_append, List.append_nil]
    simp
  · by_cases hnil : kept = []
    · simp [hnil, Entry.output, h.out]
    · simp [hnil, Entry.output, h.out]
  · by_cases hnil : kept = []
    · simp [hnil, h.used]
    · simp [hnil, h.used, ToolResultContent.size]
  · by_cases hnil : kept = []
    · simp [hnil, h.textUsed]
    · simp [hnil, h.textUsed, ToolResultContent.textSize]
  · show s.used + byteLen kept ≤ maxBytes
    omega
  · show s.textUsed + byteLen kept ≤ maxTextBytes
    omega

theorem Laid.append {done : List RawContent} {s : Assembly} (h : Laid maxBytes maxTextBytes done s)
    (block : RawContent) :
    Laid maxBytes maxTextBytes (done ++ [block])
      { s with text := appendText s.text block.shown } := by
  obtain ⟨groups, openGroup, hdone, htext, hgroups⟩ := h.groups
  refine ⟨⟨groups, openGroup ++ [block], ?_, ?_, hgroups⟩, h.out, h.used, h.textUsed, h.total,
    h.text⟩
  · rw [hdone, List.append_assoc]
  · rw [joined_concat, ← htext]

theorem Laid.putImage {done : List RawContent} {s : Assembly}
    (h : Laid maxBytes maxTextBytes done s) (hflushed : s.text = []) (data mimeType : Text) :
    ∃ s', s.putImage maxBytes data mimeType = some s' ∧
      Laid maxBytes maxTextBytes (done ++ [.image data mimeType]) s' := by
  by_cases hfits : s.used + (byteLen data + byteLen mimeType) ≤ maxBytes
  · obtain ⟨groups, openGroup, hdone, htext, hgroups⟩ := h.groups
    have hrepresents : Represents (openGroup ++ [.image data mimeType]) (.image data mimeType) :=
      ⟨openGroup, rfl, htext.symm.trans hflushed⟩
    refine ⟨_, by rw [Assembly.putImage, if_pos hfits], ?_⟩
    refine ⟨⟨groups ++ [openGroup ++ [.image data mimeType]], [], ?_, hflushed,
      forall₂_concat hgroups hrepresents⟩, ?_, ?_, ?_, hfits, h.text⟩
    · rw [hdone, List.flatten_append, List.append_nil]
      simp
    · simp [Entry.output, h.out]
    · simp [h.used, ToolResultContent.size]
    · simp [h.textUsed, ToolResultContent.textSize]
  · refine ⟨_, by rw [Assembly.putImage, if_neg hfits, (short_eq mimeType).1]; rfl, ?_⟩
    exact h.append (.image data mimeType)

theorem Laid.step {done : List RawContent} {s : Assembly} (h : Laid maxBytes maxTextBytes done s)
    (hmemory : InMemory done) (block : RawContent) :
    ∃ s', s.step maxBytes maxTextBytes block = some s' ∧
      Laid maxBytes maxTextBytes (done ++ [block]) s' := by
  cases block with
  | text t => exact ⟨_, rfl, h.append (.text t)⟩
  | image data mimeType =>
      obtain ⟨flushed, hflush, hempty, hlaid⟩ := h.flushText hmemory
      obtain ⟨s', hput, hlaid'⟩ := hlaid.putImage hempty data mimeType
      exact ⟨s', by rw [Assembly.step, hflush, Option.bind_some, hput], hlaid'⟩
  | audio data mimeType =>
      refine ⟨_, by rw [Assembly.step, (short_eq mimeType).1]; rfl, ?_⟩
      exact h.append (.audio data mimeType)
  | resourceLink uri =>
      refine ⟨_, by rw [Assembly.step, (short_eq uri).1]; rfl, ?_⟩
      exact h.append (.resourceLink uri)
  | resource => exact ⟨_, rfl, h.append .resource⟩

theorem Laid.run {done blocks : List RawContent} {s : Assembly}
    (h : Laid maxBytes maxTextBytes done s) (hmemory : InMemory (done ++ blocks)) :
    ∃ final, s.run maxBytes maxTextBytes blocks = some final ∧ final.text = [] ∧
      Laid maxBytes maxTextBytes (done ++ blocks) final := by
  induction blocks generalizing done s with
  | nil =>
      rw [List.append_nil] at hmemory ⊢
      exact h.flushText hmemory
  | cons block blocks ih =>
      have hdone : InMemory done := by
        have hlength := hmemory.length
        have hbytes := hmemory.bytes
        simp only [List.map_append, List.sum_append, List.length_append] at hlength hbytes
        exact ⟨by omega, by omega⟩
      obtain ⟨s', hstep, hlaid⟩ := h.step hdone block
      have hassoc : done ++ block :: blocks = (done ++ [block]) ++ blocks := by simp
      rw [hassoc] at hmemory ⊢
      obtain ⟨final, hrun, hfinal⟩ := ih hlaid hmemory
      exact ⟨final, by rw [Assembly.run, hstep, Option.bind_some, hrun], hfinal⟩

end

/-! ## Markers -/

/-- What was kept of a text is all of it, or it says how much was taken out of the middle. -/
def Entry.SaysSo : Entry → Prop
  | .text full _ kept => kept = full ∨ Elides full kept
  | .image _ _ => True

/-- The text fits into what is left, or more than the allowance is left; else its first bytes must
happen to read as the very marker that is missing. -/
def Entry.Roomy : Entry → Prop
  | .text full budget _ => byteLen full ≤ budget ∨ elisionMarkerAllowance < budget ∨
      ∃ head, truncateAtBoundary full budget = some head ∧ Elides full head
  | .image _ _ => True

/-- What is promised of a result. -/
structure Faithful (blocks : List RawContent) (maxBytes maxTextBytes : Nat) (final : Assembly) :
    Prop where
  result : toolResultContent blocks maxBytes maxTextBytes = some final.out
  total : (final.out.map ToolResultContent.size).sum ≤ maxBytes
  text : (final.out.map ToolResultContent.textSize).sum ≤ maxTextBytes
  order : InOrder blocks final.log final.out
  marked : ∀ e ∈ final.log, e.SaysSo

theorem saysSo_iff_roomy {group : List RawContent} {e : Entry} (h : Represents group e)
    (hmemory : byteLen (joined group) < 10 ^ 41) : e.SaysSo ↔ e.Roomy := by
  cases e with
  | image data mimeType => exact Iff.rfl
  | text full budget kept =>
      obtain ⟨hfull, hkept⟩ := h
      rw [← hfull] at hmemory
      simp only [Entry.SaysSo, Entry.Roomy]
      by_cases hlong : budget < byteLen full
      · by_cases hroom : elisionMarkerAllowance < budget
        · obtain ⟨kept', hkept', helides, _⟩ := truncateMiddle_elides hlong hroom hmemory
          cases hkept.symm.trans hkept'
          exact iff_of_true (Or.inr helides) (Or.inr (Or.inl hroom))
        · -- the head cut: it is no longer the text
          have hcut := (truncateMiddle_cuts hlong hroom).symm.trans hkept
          obtain ⟨pre, _, _, hpre, hle⟩ := truncateAtBoundary_spec full budget
          cases hcut.symm.trans hpre
          have hshorter : kept ≠ full := by
            rintro rfl
            exact absurd hle (Nat.not_le.2 hlong)
          constructor
          · rintro (heq | helides)
            · exact absurd heq hshorter
            · exact Or.inr (Or.inr ⟨kept, hcut, helides⟩)
          · rintro (hfits | hlarge | ⟨head, hhead, helides⟩)
            · exact absurd hfits (Nat.not_le.2 hlong)
            · exact absurd hlarge hroom
            · cases hcut.symm.trans hhead
              exact Or.inr helides
      · have hfits : byteLen full ≤ budget := Nat.le_of_not_lt hlong
        have hall : truncateMiddle full budget = some full := by
          rw [truncateMiddle, if_pos hfits]
        cases hkept.symm.trans hall
        exact iff_of_true (Or.inl rfl) (Or.inl hfits)

theorem exists_group {R : List RawContent → Entry → Prop} {groups : List (List RawContent)}
    {log : List Entry} (h : List.Forall₂ R groups log) {e : Entry} (he : e ∈ log) :
    ∃ before group after, groups = before ++ group :: after ∧ R group e := by
  induction h with
  | nil => cases he
  | @cons group e' groups log hfirst _ ih =>
      rcases List.mem_cons.1 he with rfl | hin
      · exact ⟨[], group, groups, rfl, hfirst⟩
      · obtain ⟨before, group', after, hsplit, hrep⟩ := ih hin
        exact ⟨group :: before, group', after, by rw [hsplit, List.cons_append], hrep⟩

/-- The loop gives a result within both budgets and in the order of the blocks; every text that was
cut says so exactly when each flush had room for its text or for more than the allowance. -/
theorem toolResultContent_faithful_iff (blocks : List RawContent) (maxBytes maxTextBytes : Nat)
    (hmemory : InMemory blocks) :
    ∃ final, Assembly.start.run maxBytes maxTextBytes blocks = some final ∧
      (Faithful blocks maxBytes maxTextBytes final ↔ ∀ e ∈ final.log, e.Roomy) := by
  obtain ⟨final, hrun, hempty, hlaid⟩ :=
    (Laid.start maxBytes maxTextBytes).run ((List.nil_append blocks).symm ▸ hmemory)
  rw [List.nil_append] at hlaid
  obtain ⟨groups, openGroup, hblocks, htext, hgroups⟩ := hlaid.groups
  have hroomy : ∀ e ∈ final.log, (e.SaysSo ↔ e.Roomy) := by
    intro e he
    obtain ⟨before, group, after, hsplit, hrep⟩ := exists_group hgroups he
    have hpart : InMemory (before.flatten ++ group ++ (after.flatten ++ openGroup)) := by
      rw [hblocks, hsplit, List.flatten_append, List.flatten_cons] at hmemory
      simpa using hmemory
    exact saysSo_iff_roomy hrep hpart.joined_lt
  refine ⟨final, hrun, fun h e he => (hroomy e he).1 (h.marked e he), fun h => ?_⟩
  exact {
    result := by rw [toolResultContent, hrun]; rfl
    total := hlaid.used ▸ hlaid.total
    text := hlaid.textUsed ▸ hlaid.text
    order := ⟨groups, openGroup, hblocks, htext.symm.trans hempty, hgroups, hlaid.out⟩
    marked := fun e he => (hroomy e he).2 (h e he) }

/-- An image of 13 bytes and a text of 140 behind it. -/
def imageAndLongText : List RawContent :=
  [.image "aW1n".toList "image/png".toList, .text (List.replicate 140 'a')]

/-- The image stays, and of the text the first and the last letter around a marker. -/
theorem toolResultContent_faithful_elided :
    ∃ final, Assembly.start.run 1000 130 imageAndLongText = some final ∧
      Faithful imageAndLongText 1000 130 final ∧
      final.out = [.image "aW1n".toList "image/png".toList,
        .text ("a".toList ++ elisionMarker 138 140 ++ "a".toList)] := by
  obtain ⟨final, hrun, hiff⟩ := toolResultContent_faithful_iff imageAndLongText 1000 130
    ⟨by decide, by decide +kernel⟩
  have hlog : Assembly.start.run 1000 130 imageAndLongText = some
      { out := [.image "aW1n".toList "image/png".toList,
          .text ("a".toList ++ elisionMarker 138 140 ++ "a".toList)]
        text := []
        used := 67
        textUsed := 54
        log := [.image "aW1n".toList "image/png".toList, .text (List.replicate 140 'a') 130
          ("a".toList ++ elisionMarker 138 140 ++ "a".toList)] } := by
    decide +kernel
  cases hrun.symm.trans hlog
  refine ⟨_, hlog, hiff.2 ?_, rfl⟩
  intro e he
  rcases List.mem_cons.1 he with rfl | htext
  · exact trivial
  · -- more than the allowance is left for the text
    rw [List.mem_singleton.1 htext]
    exact Or.inr (Or.inl (by decide))

/-- An image of 13 bytes and a text behind it. -/
def imageAndText : List RawContent :=
  [.image "aW1n".toList "image/png".toList, .text "hello".toList]

/-- An image that uses up the budget makes the text behind it disappear without a word. -/
theorem text_dropped_silently :
    ¬ ∀ (blocks : List RawContent) (maxBytes maxTextBytes : Nat), InMemory blocks →
      ∃ final, Assembly.start.run maxBytes maxTextBytes blocks = some final ∧
        Faithful blocks maxBytes maxTextBytes final := by
  intro h
  obtain ⟨final, hrun, hfaithful⟩ := h imageAndText 13 100 ⟨by decide, by decide⟩
  have hlog : Assembly.start.run 13 100 imageAndText = some
      { out := [.image "aW1n".toList "image/png".toList]
        text := []
        used := 13
        textUsed := 0
        log := [.image "aW1n".toList "image/png".toList, .text "hello".toList 0 []] } := by
    decide
  cases hrun.symm.trans hlog
  rcases hfaithful.marked (.text "hello".toList 0 []) (by simp) with
    hall | ⟨pre, mid, post, _, hkept⟩
  · cases hall
  · have hnonempty : elisionMarker (byteLen mid) (byteLen "hello".toList) = [] := by
      rw [List.append_assoc] at hkept
      exact (List.append_eq_nil_iff.1 (List.append_eq_nil_iff.1 hkept.symm).2).1
    have hopen : ∀ a b c d e : Text, a ++ b ++ c ++ d ++ e = [] → a = [] := by
      intro a b c d e hnil
      simp only [List.append_eq_nil_iff] at hnil
      exact hnil.1.1.1.1
    exact absurd (hopen _ _ _ _ _ hnonempty) (by simp)

end Mcp
end Agent
end Maju
