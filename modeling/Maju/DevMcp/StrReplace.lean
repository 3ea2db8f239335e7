import Maju.Lib.Search

/-!
# StrReplace — the edit of a file by search and replacement

One run of the tool on one file.  The file is read, the occurrences of `old_str` are counted, the
size of the result is checked, and the result is written to a temporary file that then takes the
place of the target.

* `Os` — which calls of the operating system fail, and the size the file had when it was looked at;
* `Similar` — the comparison of texts and the floating point numbers of the hint and the diff;
* `run` — the tool; nothing stands where Rust would panic;
* `Ok` — what an edit is to do; `Hidden` — occurrences that all overlap the first;
* `strReplace_ok_iff` — an edit does it unless it succeeds on such a file.

The permissions of the target, which are put back after the write, are left out.
-/

namespace Maju
namespace DevMcp

open Lib

/-! ## The file -/

def maxFileBytes : Nat := 10 * 1024 * 1024

def maxInputBytes : Nat := 1024 * 1024

/-- The target of an edit and the temporary file beside it. -/
structure Disk where
  isFile : Bool
  bytes : Bytes
  temp : Option Bytes
  deriving DecidableEq, Repr

inductive Call where
  | canonicalize
  | metadata
  | openFile
  | read
  | createTemp
  | write
  | flush
  | persist
  deriving DecidableEq, Repr

/-- What the operating system does during one run. -/
structure Os where
  fails : Call → Bool
  metaLen : Nat

inductive ReadError where
  | notAccessible
  | cannotStat
  | notRegular
  | tooLarge (len : Nat)
  | cannotOpen
  | grew
  | cannotRead
  | notUtf8
  deriving DecidableEq, Repr

def readTextFile (os : Os) (disk : Disk) : Except ReadError Text :=
  if os.fails .canonicalize then .error .notAccessible
  else if os.fails .metadata then .error .cannotStat
  else if disk.isFile = false then .error .notRegular
  else if maxFileBytes < os.metaLen then .error (.tooLarge os.metaLen)
  else if os.fails .openFile then .error .cannotOpen
  else if os.fails .read then .error .cannotRead
  else
    let buf := disk.bytes.take (maxFileBytes + 1)
    if maxFileBytes < buf.length then .error .grew
    else match decodeUtf8 buf with
      | none => .error .notUtf8
      | some content => .ok content

namespace Disk

/-- The temporary file is deleted when its handle is dropped. -/
def dropTemp (disk : Disk) : Disk := { disk with temp := none }

def writeTemp (disk : Disk) (bytes : Bytes) : Disk := { disk with temp := some bytes }

/-- The rename of the temporary file over the target. -/
def persist (disk : Disk) : Disk :=
  { disk with bytes := disk.temp.getD disk.bytes, temp := none }

end Disk

/-- `atomic_write`, with what has been written when a call fails. -/
def atomicWrite (os : Os) (disk : Disk) (content : Text) : Bool × Disk :=
  if os.fails .createTemp then (false, disk)
  else
    let created := disk.writeTemp []
    if os.fails .write then (false, created.dropTemp)
    else
      let written := created.writeTemp (encode content)
      if os.fails .flush then (false, written.dropTemp)
      else if os.fails .persist then (false, written.dropTemp)
      else (true, written.persist)

/-! ## The hint and the diff -/

/-- The numbers of the hint, and the diff of two texts. -/
structure Similar (Score : Type) where
  one : Score
  zero : Score
  ratio : Text → Text → Score
  above : Score → Bool
  compare : Score → Score → Ordering
  hint : Nat → Score → Text → Text → Text
  hunks : Text → Text → List Text

variable {Score : Type} (sim : Similar Score)

def truncateStr (s : Text) (max : Nat) : Option Text :=
  if byteLen s ≤ max then some s else (splitAtByte s (floorBoundary s max)).map Prod.fst

def similarity (a b : Text) : Option Score :=
  if a = b then some sim.one
  else if a = [] ∨ b = [] then some sim.zero
  else do
    let a ← truncateStr a 512
    let b ← truncateStr b 512
    some (sim.ratio a b)

def hintScanLineLimit : Nat := 200

/-- `max_by`: the last of the largest. -/
def maxBy (l : List (Nat × Score × Text)) : Option (Nat × Score × Text) :=
  l.foldl (fun best e =>
    match best with
    | none => some e
    | some b => if sim.compare b.2.1 e.2.1 = .gt then some b else some e) none

def nearestLineHint (content pattern : Text) : Option (Option Text) :=
  match (lines pattern).head? with
  | none => some none
  | some line =>
      let first := trim line
      if first = [] then some none
      else do
        let scored ← ((lines content).take hintScanLineLimit).zipIdx.mapM fun e =>
          (similarity sim (trim e.1) first).map fun score => (e.2, score, e.1)
        match maxBy sim (scored.filter fun e => sim.above e.2.1) with
        | none => some none
        | some best => some (some (sim.hint (best.1 + 1) best.2.1 (trim best.2.2) first))

def maxDiffBytes : Nat := 64 * 1024

/-- The hunks that fit, and a line for the others. -/
def pushHunks (out : Text) : List Text → Text
  | [] => out
  | h :: hunks =>
      if maxDiffBytes < byteLen out + byteLen h then out ++ "\n[diff truncated]\n".toList
      else pushHunks (out ++ h) hunks

def unifiedDiff (old new display : Text) : Text :=
  pushHunks ("--- a/".toList ++ display ++ "\n+++ b/".toList ++ display ++ "\n".toList)
    (sim.hunks old new)

/-! ## The edit -/

structure StrReplaceParams where
  oldStr : Text
  newStr : Text
  replaceAll : Bool

inductive EditError where
  | emptyOldStr
  | inputTooLong
  | read (error : ReadError)
  | notFound (oldStr : Text) (hint : Option Text)
  | multiple
  | resultTooLarge (projected : Int)
  | writeFailed
  deriving DecidableEq

/-- `str::find`, as an offset in bytes. -/
def find (s pattern : Text) : Option Nat := (firstAt pattern s).map fun e => byteLen e.1

/-- The loop of `count_occurrences_capped`. -/
def countLoop (text pattern : Text) (start count : Nat) : Option Nat :=
  (splitAtByte text start).bind fun e =>
    match find e.2 pattern with
    | none => some count
    | some pos =>
        if 2 ≤ count + 1 then some (count + 1)
        else countLoop text pattern (start + (pos + byteLen pattern)) (count + 1)
termination_by 2 - count

def countOccurrencesCapped (text pattern : Text) : Option Nat :=
  if pattern = [] then some 0 else countLoop text pattern 0 0

/-- `content.matches(pattern).count()`. -/
def matchCount (content pattern : Text) : Nat := (splitAll pattern content).length - 1

/-- `str::replace`. -/
def replace (content old new : Text) : Text := new.intercalate (splitAll old content)

/-- `content.replacen(old, new, 1)`. -/
def replaceFirst (content old new : Text) : Text :=
  match firstAt old content with
  | none => content
  | some (x, y) => x ++ (new ++ y)

/-- A result in `i64` that saturates. -/
def saturate (n : Int) : Int := max (-2 ^ 63) (min n (2 ^ 63 - 1))

/-- `projected`. -/
def projectedSize (content : Text) (p : StrReplaceParams) (count : Nat) : Int :=
  let sizeDelta : Int := (byteLen p.newStr : Int) - byteLen p.oldStr
  saturate ((byteLen content : Int) + saturate (sizeDelta * count))

def truncate (s : Text) (maxChars : Nat) : Text :=
  if s.length ≤ maxChars then s else s.take maxChars ++ "…".toList

def StrReplaceParams.count (p : StrReplaceParams) (content : Text) : Option Nat :=
  if p.replaceAll then some (matchCount content p.oldStr)
  else countOccurrencesCapped content p.oldStr

def StrReplaceParams.newContent (p : StrReplaceParams) (content : Text) : Text :=
  if p.replaceAll then replace content p.oldStr p.newStr
  else replaceFirst content p.oldStr p.newStr

def answer (count : Nat) (display diff : Text) : Text :=
  "Replaced ".toList ++
    (if count = 1 then "1 occurrence".toList else decimal count ++ " occurrence(s)".toList) ++
    " in ".toList ++ display ++ ".\n\n".toList ++ diff

/-- The tool after the file has been read. -/
def edit (os : Os) (display : Text) (p : StrReplaceParams) (disk : Disk) (content : Text) :
    Option (Except EditError Text × Disk) := do
  let count ← p.count content
  if count = 0 then
    let hint ← nearestLineHint sim content p.oldStr
    some (.error (.notFound (truncate p.oldStr 80) hint), disk)
  else if p.replaceAll = false ∧ 1 < count then some (.error .multiple, disk)
  else
    let projected := projectedSize content p count
    if projected < 0 ∨ (maxFileBytes : Int) < projected then
      some (.error (.resultTooLarge projected), disk)
    else
      let newContent := p.newContent content
      match atomicWrite os disk newContent with
      | (false, disk) => some (.error .writeFailed, disk)
      | (true, disk) =>
          some (.ok (answer count display (unifiedDiff sim content newContent display)), disk)

def run (os : Os) (display : Text) (p : StrReplaceParams) (disk : Disk) :
    Option (Except EditError Text × Disk) :=
  if p.oldStr = [] then some (.error .emptyOldStr, disk)
  else if maxInputBytes < byteLen p.oldStr ∨ maxInputBytes < byteLen p.newStr then
    some (.error .inputTooLong, disk)
  else match readTextFile os disk with
    | .error e => some (.error (.read e), disk)
    | .ok content => edit sim os display p disk content

/-! ## The statement -/

/-- What the edit of a content leaves in the file. -/
def Done (p : StrReplaceParams) (content : Text) (bytes : Bytes) : Prop :=
  if p.replaceAll then
    ∃ pieces, 2 ≤ pieces.length ∧ Scan p.oldStr content pieces ∧
      bytes = encode (p.newStr.intercalate pieces)
  else
    (∃! n, OccursAt (encode p.oldStr) (encode content) n) ∧
      ∃ x y, content = x ++ (p.oldStr ++ y) ∧ bytes = encode (x ++ (p.newStr ++ y))

/-- A run ends without a panic; an error leaves the file, and a success has done the edit and
checked the size of what is written. -/
def Ok (os : Os) (display : Text) (p : StrReplaceParams) (disk : Disk) : Prop :=
  ∃ result disk', run sim os display p disk = some (result, disk') ∧
    disk'.isFile = disk.isFile ∧
    match result with
    | .error _ => disk'.bytes = disk.bytes
    | .ok _ =>
        ∃ content count, encode content = disk.bytes ∧ p.count content = some count ∧
          projectedSize content p count = disk'.bytes.length ∧ Done p content disk'.bytes

/-- There are other occurrences than the first, and all of them overlap it. -/
def Hidden (old content : Text) : Prop :=
  ∃ x y, content = x ++ (old ++ y) ∧ (∀ n, OccursAt old content n → x.length ≤ n) ∧
    (∀ n, ¬ OccursAt old y n) ∧ ∃ n, OccursAt old content n ∧ n ≠ x.length

/-- The calls of `atomic_write` succeed. -/
def Os.Writes (os : Os) : Prop :=
  os.fails .createTemp = false ∧ os.fails .write = false ∧ os.fails .flush = false ∧
    os.fails .persist = false

/-- An edit of one place is accepted where the other occurrences overlap the first. -/
def Slip (os : Os) (p : StrReplaceParams) (disk : Disk) : Prop :=
  p.replaceAll = false ∧ p.oldStr ≠ [] ∧ byteLen p.oldStr ≤ maxInputBytes ∧
    byteLen p.newStr ≤ maxInputBytes ∧
    ∃ content, readTextFile os disk = .ok content ∧ Hidden p.oldStr content ∧
      byteLen content + byteLen p.newStr ≤ maxFileBytes + byteLen p.oldStr ∧ os.Writes

/-! ## Reading and writing -/

theorem readTextFile_ok {os : Os} {disk : Disk} {content : Text}
    (h : readTextFile os disk = .ok content) :
    encode content = disk.bytes ∧ byteLen content ≤ maxFileBytes := by
  unfold readTextFile at h
  split_ifs at h
  dsimp only at h
  split_ifs at h with hgrew
  -- the file has not grown past the limit, so all of it is in the buffer
  have hwhole : disk.bytes.take (maxFileBytes + 1) = disk.bytes := by
    rw [List.take_eq_self_iff]
    rw [List.length_take] at hgrew
    omega
  rw [hwhole] at h hgrew
  cases hdecode : decodeUtf8 disk.bytes with
  | none => simp [hdecode] at h
  | some text =>
      simp only [hdecode, Except.ok.injEq] at h
      subst h
      have hbytes := encode_of_decodeUtf8 hdecode
      refine ⟨hbytes, ?_⟩
      rw [← length_encode, hbytes]
      exact Nat.le_of_not_lt hgrew

theorem readTextFile_encode {os : Os} {content : Text} (hos : ∀ call, os.fails call = false)
    (hmeta : os.metaLen ≤ maxFileBytes) (hlen : byteLen content ≤ maxFileBytes) :
    readTextFile os ⟨true, encode content, none⟩ = .ok content := by
  have hwhole : (encode content).take (maxFileBytes + 1) = encode content := by
    rw [List.take_eq_self_iff, length_encode]
    omega
  have hfits : ¬ maxFileBytes < (encode content).length := by
    rw [length_encode]
    omega
  simp only [readTextFile, hos, Bool.false_eq_true, if_false, Nat.not_lt.2 hmeta, hwhole,
    if_neg hfits, decodeUtf8_encode, reduceCtorEq]

theorem atomicWrite_cases (os : Os) (disk : Disk) (content : Text) :
    (¬ os.Writes ∧ ∃ disk', atomicWrite os disk content = (false, disk') ∧
        disk'.bytes = disk.bytes ∧ disk'.isFile = disk.isFile) ∨
      (os.Writes ∧ ∃ disk', atomicWrite os disk content = (true, disk') ∧
        disk'.bytes = encode content ∧ disk'.isFile = disk.isFile) := by
  unfold atomicWrite Os.Writes
  split_ifs with hcreate hwrite hflush hpersist
  · exact Or.inl ⟨by simp [hcreate], _, rfl, rfl, rfl⟩
  · exact Or.inl ⟨by simp [hwrite], _, rfl, rfl, rfl⟩
  · exact Or.inl ⟨by simp [hflush], _, rfl, rfl, rfl⟩
  · exact Or.inl ⟨by simp [hpersist], _, rfl, rfl, rfl⟩
  · exact Or.inr ⟨by simp [hcreate, hwrite, hflush, hpersist], _, rfl, rfl, rfl⟩

/-! ## The hint -/

theorem truncateStr_isSome (s : Text) (max : Nat) : ∃ out, truncateStr s max = some out := by
  unfold truncateStr
  split_ifs
  · exact ⟨s, rfl⟩
  · obtain ⟨front, back, -, hcut, -⟩ := exists_floor_split s max
    exact ⟨front, by rw [hcut]; rfl⟩

theorem similarity_isSome (a b : Text) : ∃ score, similarity sim a b = some score := by
  obtain ⟨a', ha⟩ := truncateStr_isSome a 512
  obtain ⟨b', hb⟩ := truncateStr_isSome b 512
  unfold similarity
  split_ifs
  · exact ⟨_, rfl⟩
  · exact ⟨_, rfl⟩
  · exact ⟨sim.ratio a' b', by rw [ha, hb]; rfl⟩

theorem mapM_isSome {α β : Type} {f : α → Option β} (h : ∀ a, ∃ b, f a = some b) (l : List α) :
    ∃ out, l.mapM f = some out := by
  induction l with
  | nil => exact ⟨[], rfl⟩
  | cons a l ih =>
      obtain ⟨b, hb⟩ := h a
      obtain ⟨out, hout⟩ := ih
      exact ⟨b :: out, by rw [List.mapM_cons, hb, hout]; rfl⟩

theorem nearestLineHint_isSome (content pattern : Text) :
    ∃ hint, nearestLineHint sim content pattern = some hint := by
  unfold nearestLineHint
  split
  · exact ⟨none, rfl⟩
  · next line _ =>
      obtain ⟨scored, hscored⟩ := mapM_isSome
        (f := fun e : Text × Nat =>
          (similarity sim (trim e.1) (trim line)).map fun score => (e.2, score, e.1))
        (fun e => by
          obtain ⟨score, hscore⟩ := similarity_isSome sim (trim e.1) (trim line)
          exact ⟨_, by rw [hscore]; rfl⟩)
        ((lines content).take hintScanLineLimit).zipIdx
      dsimp only
      split_ifs
      · exact ⟨none, rfl⟩
      · rw [hscored]
        cases hbest : maxBy sim (scored.filter fun e => sim.above e.2.1) with
        | none => exact ⟨none, by simp [hbest]⟩
        | some best => exact ⟨_, by simp only [Option.bind_eq_bind, Option.bind_some, hbest]; rfl⟩

/-! ## Counting -/

theorem countLoop_append (pre rest pattern : Text) (count : Nat) :
    countLoop (pre ++ rest) pattern (byteLen pre) count =
      match firstAt pattern rest with
      | none => some count
      | some (x, _) =>
          if 2 ≤ count + 1 then some (count + 1)
          else countLoop (pre ++ rest) pattern (byteLen (pre ++ (x ++ pattern))) (count + 1) := by
  rw [countLoop, splitAtByte_append, Option.bind_some, find]
  cases hfirst : firstAt pattern rest with
  | none => rfl
  | some e =>
      obtain ⟨x, y⟩ := e
      simp only [Option.map_some, byteLen_append]

theorem countOccurrencesCapped_eq {text pattern : Text} (hp : pattern ≠ []) :
    countOccurrencesCapped text pattern =
      some (match firstAt pattern text with
        | none => 0
        | some (_, y) => if firstAt pattern y = none then 1 else 2) := by
  have hstart := countLoop_append [] text pattern 0
  rw [List.nil_append, byteLen_nil] at hstart
  rw [countOccurrencesCapped, if_neg hp, hstart]
  cases hfirst : firstAt pattern text with
  | none => rfl
  | some e =>
      obtain ⟨x, y⟩ := e
      have htext : text = (x ++ pattern) ++ y := by
        rw [List.append_assoc]
        exact (firstAt_eq_some hfirst).1
      have hrest := countLoop_append (x ++ pattern) y pattern 1
      rw [← htext] at hrest
      have hgo : ¬ 2 ≤ 0 + 1 := by decide
      simp only [if_neg hgo, Nat.zero_add, List.nil_append]
      rw [hrest]
      cases firstAt pattern y with
      | none => rfl
      | some e' => rfl

theorem count_isSome {p : StrReplaceParams} (hp : p.oldStr ≠ []) (content : Text) :
    ∃ count, p.count content = some count := by
  unfold StrReplaceParams.count
  split_ifs
  · exact ⟨_, rfl⟩
  · exact ⟨_, countOccurrencesCapped_eq hp⟩

theorem count_eq_one_iff {p : StrReplaceParams} {content : Text} (hp : p.oldStr ≠ [])
    (hone : p.replaceAll = false) :
    p.count content = some 1 ↔
      ∃ x y, firstAt p.oldStr content = some (x, y) ∧ firstAt p.oldStr y = none := by
  have hcount : p.count content = countOccurrencesCapped content p.oldStr := by
    simp [StrReplaceParams.count, hone]
  rw [hcount, countOccurrencesCapped_eq hp]
  cases firstAt p.oldStr content with
  | none => simp
  | some e =>
      obtain ⟨x, y⟩ := e
      by_cases hy : firstAt p.oldStr y = none
      · simp [hy]
      · simp [hy]

theorem count_all {p : StrReplaceParams} {content : Text} {count : Nat} (hp : p.oldStr ≠ [])
    (hall : p.replaceAll = true) (h : p.count content = some count) :
    (splitAll p.oldStr content).length = count + 1 := by
  have hcount : (splitAll p.oldStr content).length - 1 = count := by
    simpa [StrReplaceParams.count, hall, matchCount] using h
  have hpos : 0 < (splitAll p.oldStr content).length :=
    List.length_pos_of_ne_nil (scan_splitAll hp content).ne_nil
  omega

/-! ## Sizes -/

theorem saturate_eq {n : Int} (hlow : -2 ^ 63 ≤ n) (hhigh : n < 2 ^ 63) : saturate n = n := by
  unfold saturate
  omega

/-- If `count` matches of `old` are taken out and as many of `new` are put in, then this size is
projected. -/
theorem projectedSize_eq {p : StrReplaceParams} {content new : Text} {count : Nat}
    (hp : p.oldStr ≠ []) (hnew : byteLen p.newStr ≤ maxInputBytes)
    (hcontent : byteLen content ≤ maxFileBytes)
    (hmatches : count * byteLen p.oldStr ≤ byteLen content)
    (hlen : byteLen new + count * byteLen p.oldStr =
      byteLen content + count * byteLen p.newStr) :
    projectedSize content p count = byteLen new := by
  have hpos : 0 < byteLen p.oldStr :=
    Nat.pos_of_ne_zero fun h => hp (byteLen_eq_zero_iff.1 h)
  have hcount : count ≤ byteLen content :=
    Nat.le_trans (Nat.le_mul_of_pos_right count hpos) hmatches
  have hgrow : count * byteLen p.newStr ≤ maxFileBytes * maxInputBytes :=
    Nat.mul_le_mul (Nat.le_trans hcount hcontent) hnew
  have hdelta : ((byteLen p.newStr : Int) - byteLen p.oldStr) * count =
      (count * byteLen p.newStr : Nat) - (count * byteLen p.oldStr : Nat) := by
    rw [Int.sub_mul, Int.natCast_mul, Int.natCast_mul, Int.mul_comm (count : Int),
      Int.mul_comm (count : Int)]
  have hbound : maxFileBytes * maxInputBytes = 10995116277760 := by decide
  have hfile : maxFileBytes = 10485760 := by decide
  simp only [projectedSize, hdelta]
  rw [saturate_eq, saturate_eq]
  · omega
  · omega
  · omega
  · rw [saturate_eq] <;> omega
  · rw [saturate_eq] <;> omega

theorem byteLen_newContent {p : StrReplaceParams} {content : Text} {count : Nat}
    (hp : p.oldStr ≠ []) (h : p.count content = some count)
    (haccept : p.replaceAll = true ∨ count = 1) :
    count * byteLen p.oldStr ≤ byteLen content ∧
      byteLen (p.newContent content) + count * byteLen p.oldStr =
        byteLen content + count * byteLen p.newStr := by
  by_cases hall : p.replaceAll = true
  · have hscan := scan_splitAll hp content
    have hpieces := count_all hp hall h
    have hold := byteLen_intercalate p.oldStr hscan.ne_nil
    have hnew := byteLen_intercalate p.newStr hscan.ne_nil
    rw [hscan.intercalate, hpieces, Nat.succ_mul] at hold
    rw [hpieces, Nat.succ_mul] at hnew
    have hcontent : p.newContent content =
        p.newStr.intercalate (splitAll p.oldStr content) := by
      rw [StrReplaceParams.newContent, if_pos hall, replace]
    rw [hcontent]
    omega
  · have hone : p.replaceAll = false := by simpa using hall
    obtain rfl : count = 1 := haccept.resolve_left hall
    obtain ⟨x, y, hfirst, -⟩ := (count_eq_one_iff hp hone).1 h
    obtain ⟨rfl, -⟩ := firstAt_eq_some hfirst
    simp only [StrReplaceParams.newContent, hone, replaceFirst, hfirst, byteLen_append,
      Bool.false_eq_true, if_false]
    omega

/-! ## The run -/

theorem edit_cases (os : Os) (display : Text) {p : StrReplaceParams} (disk : Disk)
    {content : Text} (hp : p.oldStr ≠ []) :
    ∃ count, p.count content = some count ∧
      ((¬ ((p.replaceAll = true ∨ count = 1) ∧ 0 < count ∧ 0 ≤ projectedSize content p count ∧
            projectedSize content p count ≤ maxFileBytes ∧ os.Writes) ∧
          ∃ e disk', edit sim os display p disk content = some (.error e, disk') ∧
            disk'.bytes = disk.bytes ∧ disk'.isFile = disk.isFile) ∨
        ((p.replaceAll = true ∨ count = 1) ∧ 0 < count ∧
          projectedSize content p count ≤ maxFileBytes ∧ os.Writes ∧
          ∃ text disk', edit sim os display p disk content = some (.ok text, disk') ∧
            disk'.bytes = encode (p.newContent content) ∧ disk'.isFile = disk.isFile)) := by
  obtain ⟨count, hcount⟩ := count_isSome hp content
  obtain ⟨hint, hhint⟩ := nearestLineHint_isSome sim content p.oldStr
  refine ⟨count, hcount, ?_⟩
  simp only [edit, hcount, Option.bind_eq_bind, Option.bind_some]
  split_ifs with hzero hmany hsize
  · exact Or.inl ⟨fun h => absurd hzero (Nat.ne_of_gt h.2.1), _, disk, by rw [hhint]; rfl, rfl, rfl⟩
  · refine Or.inl ⟨?_, _, disk, rfl, rfl, rfl⟩
    rintro ⟨hall | hone, -⟩
    · rw [hmany.1] at hall
      cases hall
    · exact absurd hmany.2 (by omega)
  · refine Or.inl ⟨?_, _, disk, rfl, rfl, rfl⟩
    rintro ⟨-, -, hlow, hhigh, -⟩
    omega
  · have haccept : p.replaceAll = true ∨ count = 1 := by
      by_cases hall : p.replaceAll = true
      · exact Or.inl hall
      · refine Or.inr ?_
        have hle : ¬ 1 < count := fun hgt => hmany ⟨by simpa using hall, hgt⟩
        omega
    rcases atomicWrite_cases os disk (p.newContent content) with
      ⟨hfail, disk', hwrite, hbytes, hfile⟩ | ⟨hok, disk', hwrite, hbytes, hfile⟩
    · exact Or.inl ⟨fun h => hfail h.2.2.2.2, .writeFailed, disk', by rw [hwrite], hbytes, hfile⟩
    · exact Or.inr ⟨haccept, Nat.pos_of_ne_zero hzero, by omega, hok, _, disk',
        by rw [hwrite], hbytes, hfile⟩

theorem hidden_iff {old content : Text} :
    Hidden old content ↔
      ∃ x y, firstAt old content = some (x, y) ∧ firstAt old y = none ∧
        ∃ n, OccursAt old content n ∧ n ≠ x.length := by
  constructor
  · rintro ⟨x, y, rfl, hmin, hnone, hother⟩
    refine ⟨x, y, firstAt_of_least hmin, ?_, hother⟩
    cases hy : firstAt old y with
    | none => rfl
    | some e => exact absurd ⟨e.1, e.2, (firstAt_eq_some hy).1, rfl⟩ (hnone e.1.length)
  · rintro ⟨x, y, hfirst, hy, hother⟩
    obtain ⟨hcontent, hmin⟩ := firstAt_eq_some hfirst
    exact ⟨x, y, hcontent, hmin, firstAt_eq_none hy, hother⟩

theorem occursAt_bytes_iff {old content x y : Text} (hp : old ≠ [])
    (hfirst : firstAt old content = some (x, y)) :
    (∃! n, OccursAt (encode old) (encode content) n) ↔
      ∀ n, OccursAt old content n → n = x.length := by
  obtain ⟨hcontent, -⟩ := firstAt_eq_some hfirst
  have hat : OccursAt (encode old) (encode content) (byteLen x) :=
    (occursAt_encode hp).2 ⟨x, y, hcontent, rfl⟩
  constructor
  · rintro ⟨m, -, hm⟩ n ⟨x', y', hcontent', rfl⟩
    -- two fronts of one text that have the same length in bytes are the same
    have hbytes : byteLen x' = byteLen x :=
      (hm _ ((occursAt_encode hp).2 ⟨x', y', hcontent', rfl⟩)).trans (hm _ hat).symm
    have hsplit := splitAtByte_append x' (old ++ y')
    rw [← hcontent', hbytes, hcontent, splitAtByte_append] at hsplit
    rw [(Prod.mk.inj (Option.some.inj hsplit)).1]
  · intro hall
    refine ⟨byteLen x, hat, fun m hm => ?_⟩
    obtain ⟨x', y', hcontent', rfl⟩ := (occursAt_encode hp).1 hm
    have hlen := hall _ ⟨x', y', hcontent', rfl⟩
    rw [(eq_of_occurrence (hcontent'.symm.trans hcontent) hlen).1]

theorem done_newContent {p : StrReplaceParams} {content : Text} {count : Nat} (hp : p.oldStr ≠ [])
    (hcount : p.count content = some count) (hpos : 0 < count)
    (haccept : p.replaceAll = true ∨ count = 1)
    (hnot : p.replaceAll = false → ¬ Hidden p.oldStr content) :
    Done p content (encode (p.newContent content)) := by
  by_cases hall : p.replaceAll = true
  · simp only [Done, StrReplaceParams.newContent, hall, if_true, replace]
    refine ⟨splitAll p.oldStr content, ?_, scan_splitAll hp content, rfl⟩
    rw [count_all hp hall hcount]
    omega
  · have hone : p.replaceAll = false := by simpa using hall
    obtain rfl : count = 1 := haccept.resolve_left hall
    obtain ⟨x, y, hfirst, hnone⟩ := (count_eq_one_iff hp hone).1 hcount
    simp only [Done, StrReplaceParams.newContent, hone, Bool.false_eq_true, if_false,
      replaceFirst, hfirst]
    refine ⟨(occursAt_bytes_iff hp hfirst).2 fun n hn => ?_, x, y, (firstAt_eq_some hfirst).1, rfl⟩
    by_contra hne
    exact hnot hone (hidden_iff.2 ⟨x, y, hfirst, hnone, n, hn, hne⟩)

/-- Every run ends without a panic.  An error leaves the file, a success has changed it as asked
and checked the size of what it wrote, unless one place was to be changed and the other occurrences
all overlap the first. -/
theorem strReplace_ok_iff (os : Os) (display : Text) (p : StrReplaceParams) (disk : Disk) :
    Ok sim os display p disk ↔ ¬ Slip os p disk := by
  constructor
  · rintro ⟨result, disk', hrun, hfile, hresult⟩
      ⟨hone, hp, hold, hnew, content, hread, hhidden, hsize, hwrites⟩
    obtain ⟨x, y, hfirst, hnone, n, hn, hne⟩ := hidden_iff.1 hhidden
    obtain ⟨hbytes, hlen⟩ := readTextFile_ok hread
    have hcount : p.count content = some 1 := (count_eq_one_iff hp hone).2 ⟨x, y, hfirst, hnone⟩
    obtain ⟨hfits, hnewLen⟩ := byteLen_newContent hp hcount (Or.inr rfl)
    have hproj := projectedSize_eq hp hnew hlen hfits hnewLen
    have hedit : run sim os display p disk = edit sim os display p disk content := by
      rw [run, if_neg hp, if_neg (by omega), hread]
    rw [hedit] at hrun
    obtain ⟨count, hcount', ⟨hnot, -⟩ | ⟨-, -, -, -, text, disk'', hok, -, -⟩⟩ :=
      edit_cases sim os display disk hp
    · obtain rfl : 1 = count := Option.some.inj (hcount.symm.trans hcount')
      refine hnot ⟨Or.inr rfl, Nat.one_pos, ?_, ?_, hwrites⟩
      · omega
      · omega
    · obtain ⟨rfl, rfl⟩ := Prod.mk.inj (Option.some.inj (hok.symm.trans hrun))
      obtain ⟨content', count', hbytes', -, -, hdone⟩ := hresult
      obtain rfl : content = content' := encode_injective (hbytes.trans hbytes'.symm)
      simp only [Done, hone, Bool.false_eq_true, if_false] at hdone
      exact hne ((occursAt_bytes_iff hp hfirst).1 hdone.1 n hn)
  · intro hslip
    by_cases hp : p.oldStr = []
    · exact ⟨_, disk, by rw [run, if_pos hp], rfl, rfl⟩
    · by_cases hlong : maxInputBytes < byteLen p.oldStr ∨ maxInputBytes < byteLen p.newStr
      · exact ⟨_, disk, by rw [run, if_neg hp, if_pos hlong], rfl, rfl⟩
      · cases hread : readTextFile os disk with
        | error e => exact ⟨_, disk, by rw [run, if_neg hp, if_neg hlong, hread], rfl, rfl⟩
        | ok content =>
            obtain ⟨hbytes, hlen⟩ := readTextFile_ok hread
            have hedit : run sim os display p disk = edit sim os display p disk content := by
              rw [run, if_neg hp, if_neg hlong, hread]
            rcases edit_cases sim os display disk hp with
              ⟨count, hcount, ⟨-, e, disk', herr, hsame, hfile⟩ |
                ⟨haccept, hpos, hsize, hwrites, text, disk', hok, hwritten, hfile⟩⟩
            · exact ⟨_, disk', hedit.trans herr, hfile, hsame⟩
            · obtain ⟨hfits, hnewLen⟩ := byteLen_newContent hp hcount haccept
              have hproj := projectedSize_eq hp (by omega) hlen hfits hnewLen
              refine ⟨_, disk', hedit.trans hok, hfile, content, count, hbytes, hcount, ?_, ?_⟩
              · rw [hproj, hwritten, length_encode]
              · rw [hwritten]
                refine done_newContent hp hcount hpos haccept fun hone hhidden => hslip ?_
                obtain rfl : count = 1 := haccept.resolve_left (by simp [hone])
                exact ⟨hone, hp, by omega, by omega, content, hread, hhidden, by omega, hwrites⟩

/-! ## A silent edit -/

/-- An operating system on which nothing fails, and no hints or diffs. -/
def quietOs : Os := ⟨fun _ => false, 3⟩

def plainSimilar : Similar Unit := ⟨(), (), fun _ _ => (), fun _ => false, fun _ _ => .eq,
  fun _ _ _ _ => [], fun _ _ => []⟩

def aaaDisk : Disk := ⟨true, encode "aaa".toList, none⟩

def aaEdit : StrReplaceParams := ⟨"aa".toList, "b".toList, false⟩

/-- `aa` stands at two places of `aaa`, and is replaced at the first. -/
theorem overlapping_match_edited : ¬ Ok plainSimilar quietOs [] aaEdit aaaDisk := by
  rw [strReplace_ok_iff, not_not]
  have hread : readTextFile quietOs aaaDisk = .ok "aaa".toList :=
    readTextFile_encode (fun _ => rfl) (by decide) (by decide)
  refine ⟨rfl, by decide, by decide, by decide, _, hread, ?_, by decide,
    rfl, rfl, rfl, rfl⟩
  exact hidden_iff.2 ⟨[], ['a'], by decide, by decide, 1,
    ⟨['a'], [], rfl, rfl⟩, by decide⟩

end DevMcp
end Maju
