import Maju.Lib.Bytes
import Maju.Db.Rows

/-!
# Replaceable — writing an event that replaces the head of its coordinate

A replaceable event has a coordinate, and only the newest event of a coordinate stays live.  The
two writers take an advisory lock on the coordinate, so their calls run one after another:

* `replaceParameterizedEvent` — the coordinate is a kind, an author and a `d` tag; a precondition
  can ask for a given head or for a replay only, and read-state events leave a watermark behind;
* `replaceAddressableEvent` — the coordinate is a kind, an author and a channel;
* `Replaces` — what a call does that reports an insertion: the row is newer than every live row of
  the coordinate and is the only one live afterwards;
* `softDelete` — the deletion of rows by a NIP-09 request.

The triggers of the schema are part of the model.  Those that only refuse a row (the roster guard,
the write fence, the floor of `created_at`) are taken as the `Guards` of a call.
-/

namespace Maju
namespace Db
namespace Replaceable

open Lib Core

/-! ## Positions -/

/-- A time column and an event id: what heads are compared by. -/
abbrev Position := Int × EventId

/-- Newer: later, or of the same second with the lower id. -/
def After (a b : Position) : Prop := b.1 < a.1 ∨ (a.1 = b.1 ∧ a.2.toNat < b.2.toNat)

instance After.decidable (a b : Position) : Decidable (After a b) :=
  inferInstanceAs (Decidable (b.1 < a.1 ∨ (a.1 = b.1 ∧ a.2.toNat < b.2.toNat)))

theorem After.trans {a b c : Position} (hab : After a b) (hbc : After b c) : After a c := by
  unfold After at *
  omega

theorem After.asymm {a b : Position} (hab : After a b) : ¬ After b a := by
  unfold After at *
  omega

theorem after_or_eq_or_after (a b : Position) : After a b ∨ a = b ∨ After b a := by
  by_cases hid : a.2.toNat = b.2.toNat
  · have heq : a.1 = b.1 → a = b := fun h => Prod.ext h (BitVec.eq_of_toNat_eq hid)
    unfold After
    by_cases htime : a.1 = b.1
    · exact Or.inr (Or.inl (heq htime))
    · omega
  · unfold After
    omega

/-! ## Tables -/

/-- A row of `events`, with its `created_at` column. -/
structure Row where
  communityId : CommunityId
  event : Event
  createdAt : Int
  channelId : Option Uuid
  dTag : Option String
  deleted : Bool
  deriving DecidableEq

namespace Row

def position (r : Row) : Position := (r.createdAt, r.event.id)

def key (r : Row) : CommunityId × Position := (r.communityId, r.position)

end Row

/-- The key of `parameterized_event_watermarks`. -/
structure Coordinate where
  communityId : CommunityId
  kind : Kind
  pubkey : PublicKey
  dTag : String
  deriving DecidableEq

/-- A row of `event_mentions`. -/
structure Mention where
  communityId : CommunityId
  pubkeyHex : String
  eventId : EventId
  deriving DecidableEq

structure Store where
  rows : List Row
  watermarks : HashMap Coordinate Position
  mentions : List Mention

/-- The rows of a coordinate that are not deleted. -/
def Store.live (s : Store) (target : Row → Bool) : List Row :=
  s.rows.filter fun r => target r && !r.deleted

/-- `ORDER BY created_at DESC, id ASC LIMIT 1`. -/
def newest : List Row → Option Row
  | [] => none
  | r :: rows =>
      match newest rows with
      | some best => if After best.position r.position then some best else some r
      | none => some r

/-! ## Shapes of events -/

def kindReadState : Kind := 30078

def kindBookmarkSet : Kind := 30003

/-- `strip_prefix`. -/
def strippedPrefix (start s : String) : Option (List Char) :=
  if s.toList.take start.length = start.toList then some (s.toList.drop start.length) else none

/-- The slot of a read-state coordinate: 32 lowercase hexadecimal digits. -/
def isSlot (slot : List Char) : Bool :=
  decide (slot.length = 32) && slot.all fun c => isAsciiHexdigit c && !c.isUpper

/-- `is_nip_rs`: a read-state event, by its kind, its one `d` tag and its one marker tag. -/
def isNipRs (event : Event) (dTag : String) : Bool :=
  decide (event.kind = kindReadState) &&
    decide ((event.tags.filter fun t => t.name = "d").length = 1) &&
    event.tags.any (fun t => t.name = "d" ∧ t.content = some dTag) &&
    (strippedPrefix "read-state:" dTag).any isSlot &&
    decide ((event.tags.filter fun t => t.asSlice = ["t", "read-state"]).length = 1)

def isMajuMeshStatus (event : Event) (dTag : String) : Bool :=
  decide (event.kind = kindBookmarkSet) &&
    (strippedPrefix "maju-mesh-member-status:" dTag).isSome &&
    event.tags.any fun t => t.asSlice = ["k", "maju-mesh-status"]

/-! ## Statements and triggers -/

/-- A soft-deleted row that a trigger removes at once: read state, and mesh status, which the
trigger tells by containment. -/
def Row.isPurged (r : Row) : Bool :=
  r.dTag.any fun d =>
    isNipRs r.event d ||
      (decide (r.event.kind = kindBookmarkSet) &&
        (strippedPrefix "maju-mesh-member-status:" d).isSome &&
        tagsContain r.event "k" "maju-mesh-status")

/-- `UPDATE events SET deleted_at = NOW()`, with the triggers that purge. -/
def Store.softDelete (s : Store) (target : Row → Bool) : Store :=
  let gone := (s.live target).filter Row.isPurged
  { s with
    rows := s.rows.filterMap fun r =>
      if target r && !r.deleted then
        if r.isPurged then none else some { r with deleted := true }
      else some r
    mentions := s.mentions.filter fun m =>
      gone.all fun r => ¬ (m.communityId = r.communityId ∧ m.eventId = r.event.id) }

/-- `DELETE FROM events`. -/
def Store.hardDelete (s : Store) (target : Row → Bool) : Store :=
  { s with rows := s.rows.filter fun r => !(target r && !r.deleted) }

def Store.deleteMentions (s : Store) (communityId : CommunityId) (eventId : EventId) : Store :=
  { s with
    mentions := s.mentions.filter fun m => ¬ (m.communityId = communityId ∧ m.eventId = eventId) }

/-- What the guards of the schema say of a row: refused before the insert, or at the commit. -/
structure Guards where
  onInsert : Bool
  onCommit : Bool
  deriving DecidableEq, Repr

inductive WriteError where
  | invalidTimestamp (secs : Int)
  | database
  deriving DecidableEq, Repr

/-- The least second of a `TIMESTAMPTZ`. -/
def minTimestamptz : Int := -210866803200

/-- The trigger `guard_nip_rs_watermark`: the watermarks with that of a read-state row advanced,
`none` to skip a row that is the watermark, and an error for one that is older. -/
def guardNipRsWatermark (s : Store) (row : Row) :
    Except WriteError (Option (HashMap Coordinate Position)) :=
  match row.dTag with
  | none => .ok (some s.watermarks)
  | some d =>
      if isNipRs row.event d then
        let coordinate := ⟨row.communityId, row.event.kind, row.event.pubkey, d⟩
        match s.watermarks.lookup coordinate with
        | none => .ok (some (s.watermarks.insert coordinate row.position))
        | some watermark =>
            if After row.position watermark then
              .ok (some (s.watermarks.insert coordinate row.position))
            else if row.position = watermark then .ok none
            else .error .database
      else .ok (some s.watermarks)

/-- `INSERT INTO events … ON CONFLICT DO NOTHING`: `none` where no row was inserted. -/
def insertRow (s : Store) (row : Row) (guards : Guards) : Except WriteError (Option Store) := do
  if row.createdAt < minTimestamptz then throw .database
  if guards.onInsert then throw .database
  match ← guardNipRsWatermark s row with
  | none => return none
  | some watermarks =>
      if s.rows.any fun r => r.key = row.key then return none
      return some { s with rows := s.rows ++ [row], watermarks := watermarks }

/-- `insert_mentions_in_transaction`. -/
def insertMentions (s : Store) (communityId : CommunityId) (event : Event) : Store :=
  { s with
    mentions := (mentions event).foldl
      (fun ms pubkey =>
        let m := ⟨communityId, pubkey, event.id⟩
        if m ∈ ms then ms else ms ++ [m]) s.mentions }

/-! ## Writers -/

inductive ParameterizedReplaceStatus where
  | inserted
  | duplicate
  | superseded
  | revisionMissing
  | revisionMismatch
  | replayOnlyMiss
  deriving DecidableEq, Repr

inductive ParameterizedReplacePrecondition where
  | unconditional
  | expectedRevision (revision : Bytes)
  | exactReplayOnly
  deriving DecidableEq, Repr

/-- `id.as_bytes()`. -/
def idBytes (id : EventId) : Bytes := beBytes 32 id.toNat

/-- `DateTime::from_timestamp(created_at.as_secs() as i64, 0)`. -/
def storedAt (event : Event) : Except WriteError Int :=
  match fromTimestamp (asI64 event.createdAt) with
  | some secs => .ok secs
  | none => .error (.invalidTimestamp (asI64 event.createdAt))

/-- The rows of `(community_id, kind, pubkey, d_tag)`. -/
def ofCoordinate (c : Coordinate) (r : Row) : Bool :=
  decide (r.communityId = c.communityId ∧ r.event.kind = c.kind ∧ r.event.pubkey = c.pubkey ∧
    r.dTag = some c.dTag)

/-- The rows of `(community_id, kind, pubkey, channel_id)`. -/
def ofChannel (communityId : CommunityId) (kind : Kind) (pubkey : PublicKey)
    (channelId : Option Uuid) (r : Row) : Bool :=
  decide (r.communityId = communityId ∧ r.event.kind = kind ∧ r.event.pubkey = pubkey ∧
    r.channelId = channelId)

/-- The answer to a precondition where the head is not the event itself: the status that ends the
call, if it does not hold. -/
def ParameterizedReplacePrecondition.fails (existing : Option Row) :
    ParameterizedReplacePrecondition → Option ParameterizedReplaceStatus
  | .unconditional => none
  | .exactReplayOnly => some .replayOnlyMiss
  | .expectedRevision revision =>
      match existing with
      | none => some .revisionMissing
      | some head => if idBytes head.event.id ≠ revision then some .revisionMismatch else none

/-- The old head is removed, in a savepoint. -/
def supersede (s : Store) (target : Row → Bool) (hard : Bool) (existing : Option Row) : Store :=
  match existing with
  | none => s
  | some head =>
      if hard then (s.hardDelete target).deleteMentions head.communityId head.event.id
      else s.softDelete target

/-- The head and, for read state, the watermark of a coordinate. -/
def accepted (s : Store) (c : Coordinate) (nipRs : Bool) : List Position :=
  ((newest (s.live (ofCoordinate c))).map Row.position).toList ++
    if nipRs then (s.watermarks.lookup c).toList else []

/-- The savepoint of `replace_parameterized_event`: the old head is removed, the row and its
watermark and mentions are inserted, and a conflict rolls all of it back. -/
def replaceHead (s : Store) (c : Coordinate) (row : Row) (guards : Guards) :
    Except WriteError (ParameterizedReplaceStatus × Store) := do
  let hard := isNipRs row.event c.dTag || isMajuMeshStatus row.event c.dTag
  let savepoint := supersede s (ofCoordinate c) hard (newest (s.live (ofCoordinate c)))
  match ← insertRow savepoint row guards with
  | none => return (.duplicate, s)
  | some inserted =>
      if guards.onCommit then throw .database
      let watermarks :=
        if isNipRs row.event c.dTag then inserted.watermarks.insert c row.position
        else inserted.watermarks
      return (.inserted,
        insertMentions { inserted with watermarks := watermarks } row.communityId row.event)

/-- `replace_parameterized_event_in_transaction` and its commit. -/
def replaceParameterizedEvent (s : Store) (communityId : CommunityId) (event : Event)
    (dTag : String) (channelId : Option Uuid) (precondition : ParameterizedReplacePrecondition)
    (guards : Guards) : Except WriteError (ParameterizedReplaceStatus × Store) := do
  let createdAt ← storedAt event
  let c : Coordinate := ⟨communityId, event.kind, event.pubkey, dTag⟩
  let positions := accepted s c (isNipRs event dTag)
  if positions.any fun position => position.2 = event.id then return (.duplicate, s)
  if let some status := precondition.fails (newest (s.live (ofCoordinate c))) then
    return (status, s)
  let row : Row := ⟨communityId, event, createdAt, channelId, some dTag, false⟩
  if positions.any fun position => ¬ After row.position position then return (.superseded, s)
  replaceHead s c row guards

def replaceAddressableEvent (s : Store) (communityId : CommunityId) (event : Event)
    (channelId : Option Uuid) (guards : Guards) : Except WriteError (Bool × Store) := do
  let createdAt ← storedAt event
  let target := ofChannel communityId event.kind event.pubkey channelId
  let row : Row := ⟨communityId, event, createdAt, channelId, extractDTag event, false⟩
  if (newest (s.live target)).any fun head => ¬ After row.position head.position then
    return (false, s)
  match ← insertRow (s.softDelete target) row guards with
  | none => return (false, s)
  | some inserted =>
      if guards.onCommit then throw .database
      return (true, insertMentions inserted communityId event)

/-! ## What the statements do -/

variable {s : Store} {target : Row → Bool}

theorem mem_live {r : Row} :
    r ∈ s.live target ↔ r ∈ s.rows ∧ target r = true ∧ r.deleted = false := by
  simp [Store.live]

theorem newest_eq_none {rows : List Row} (h : newest rows = none) : rows = [] := by
  cases rows with
  | nil => rfl
  | cons r rows =>
      simp only [newest] at h
      split at h
      · split_ifs at h
      · cases h

theorem newest_eq_some {rows : List Row} {best : Row} (h : newest rows = some best) :
    best ∈ rows ∧ ∀ r ∈ rows, r.position = best.position ∨ After best.position r.position := by
  induction rows generalizing best with
  | nil => cases h
  | cons r rows ih =>
      simp only [newest] at h
      split at h
      · next old hold =>
          obtain ⟨hmem, hbest⟩ := ih hold
          split_ifs at h with hafter
          · cases h
            refine ⟨List.mem_cons_of_mem r hmem, ?_⟩
            intro r' hr'
            rcases List.mem_cons.1 hr' with rfl | hr'
            · exact Or.inr hafter
            · exact hbest r' hr'
          · cases h
            refine ⟨List.mem_cons_self, ?_⟩
            -- the new row is at least as new as the newest of the others
            have hold' : old.position = r.position ∨ After r.position old.position := by
              rcases after_or_eq_or_after old.position r.position with hnew | heq | hnew
              · exact absurd hnew hafter
              · exact Or.inl heq
              · exact Or.inr hnew
            intro r' hr'
            rcases List.mem_cons.1 hr' with rfl | hr'
            · exact Or.inl rfl
            · rcases hbest r' hr' with heq | hnewer
              · rw [heq]
                exact hold'
              · rcases hold' with heq | hnew
                · rw [← heq]
                  exact Or.inr hnewer
                · exact Or.inr (hnew.trans hnewer)
      · next hnone =>
          cases h
          cases newest_eq_none hnone
          refine ⟨List.mem_cons_self, ?_⟩
          intro r' hr'
          exact Or.inl (congrArg Row.position (List.mem_singleton.1 hr'))

theorem after_live_of_newest {position : Position}
    (h : ∀ head, newest (s.live target) = some head → After position head.position) :
    ∀ r ∈ s.live target, After position r.position := by
  intro r hr
  cases hnewest : newest (s.live target) with
  | none =>
      rw [newest_eq_none hnewest] at hr
      cases hr
  | some head =>
      rcases (newest_eq_some hnewest).2 r hr with heq | hafter
      · rw [heq]
        exact h head hnewest
      · exact (h head hnewest).trans hafter

/-- Rows are taken out or marked as deleted, and the live rows of the target are gone. -/
structure Clears (target : Row → Bool) (s s' : Store) : Prop where
  live : s'.live target = []
  keys : ∀ r ∈ s'.rows, ∃ r' ∈ s.rows, r'.key = r.key
  watermarks : s'.watermarks = s.watermarks

theorem mem_softDelete {r : Row} (hr : r ∈ (s.softDelete target).rows) :
    ∃ r' ∈ s.rows, (target r' && !r'.deleted) = true ∧ r = { r' with deleted := true } ∨
      (target r' && !r'.deleted) = false ∧ r = r' := by
  obtain ⟨r', hr', hmap⟩ := List.mem_filterMap.1 hr
  refine ⟨r', hr', ?_⟩
  split_ifs at hmap with hlive hpurged
  · exact Or.inl ⟨hlive, (Option.some.inj hmap).symm⟩
  · exact Or.inr ⟨by simpa using hlive, (Option.some.inj hmap).symm⟩

theorem clears_softDelete (s : Store) (target : Row → Bool) :
    Clears target s (s.softDelete target) := by
  refine ⟨?_, ?_, rfl⟩
  · refine List.filter_eq_nil_iff.2 ?_
    intro r hr
    obtain ⟨r', _, ⟨_, rfl⟩ | ⟨hdead, rfl⟩⟩ := mem_softDelete hr
    · simp
    · simp [hdead]
  · intro r hr
    obtain ⟨r', hr', ⟨_, rfl⟩ | ⟨_, rfl⟩⟩ := mem_softDelete hr
    · exact ⟨r', hr', rfl⟩
    · exact ⟨r, hr', rfl⟩

theorem clears_hardDelete (s : Store) (target : Row → Bool) :
    Clears target s (s.hardDelete target) := by
  refine ⟨?_, ?_, rfl⟩
  · refine List.filter_eq_nil_iff.2 ?_
    intro r hr
    have hdead := (List.mem_filter.1 hr).2
    simp only [Bool.not_eq_true'] at hdead
    simp [hdead]
  · intro r hr
    exact ⟨r, (List.mem_filter.1 hr).1, rfl⟩

theorem clears_supersede (s : Store) (target : Row → Bool) (hard : Bool) :
    Clears target s (supersede s target hard (newest (s.live target))) := by
  unfold supersede
  split
  · next hnone => exact ⟨newest_eq_none hnone, fun r hr => ⟨r, hr, rfl⟩, rfl⟩
  · split_ifs
    · have hclears := clears_hardDelete s target
      exact ⟨hclears.live, hclears.keys, hclears.watermarks⟩
    · exact clears_softDelete s target

/-! ## What an insertion does -/

/-- The watermark of the coordinate of a row after its insertion. -/
def marked (s : Store) (row : Row) (c : Coordinate) : Option Position :=
  if ofCoordinate c row && isNipRs row.event c.dTag then some row.position
  else s.watermarks.lookup c

/-- A row that no row of the store has the key of is added. -/
structure Inserts (s s' : Store) (row : Row) : Prop where
  rows : s'.rows = s.rows ++ [row]
  fresh : ∀ r ∈ s.rows, r.key ≠ row.key
  watermarks : ∀ c, s'.watermarks.lookup c = marked s row c
  advances : ∀ c, ofCoordinate c row = true → isNipRs row.event c.dTag = true →
    ∀ watermark, s.watermarks.lookup c = some watermark → After row.position watermark

theorem eq_of_ofCoordinate {c : Coordinate} {row : Row} (h : ofCoordinate c row = true) :
    c = ⟨row.communityId, row.event.kind, row.event.pubkey, c.dTag⟩ ∧ row.dTag = some c.dTag := by
  simp only [ofCoordinate, decide_eq_true_eq] at h
  obtain ⟨hcommunity, hkind, hpubkey, hdTag⟩ := h
  cases c
  simp_all

theorem guardNipRsWatermark_some {row : Row} {watermarks : HashMap Coordinate Position}
    (h : guardNipRsWatermark s row = .ok (some watermarks)) :
    (∀ c, watermarks.lookup c = marked s row c) ∧
      ∀ c, ofCoordinate c row = true → isNipRs row.event c.dTag = true →
        ∀ watermark, s.watermarks.lookup c = some watermark → After row.position watermark := by
  have hplain : (∀ c, ofCoordinate c row = true → isNipRs row.event c.dTag = false) →
      watermarks = s.watermarks →
      (∀ c, watermarks.lookup c = marked s row c) ∧
        ∀ c, ofCoordinate c row = true → isNipRs row.event c.dTag = true →
          ∀ watermark, s.watermarks.lookup c = some watermark → After row.position watermark := by
    intro hshape hsame
    refine ⟨?_, ?_⟩
    · intro c
      rw [hsame, marked, if_neg]
      cases hc : ofCoordinate c row with
      | false => simp
      | true => simp [hshape c hc]
    · intro c hc hnipRs
      rw [hshape c hc] at hnipRs
      cases hnipRs
  have hmarks : ∀ d, row.dTag = some d → isNipRs row.event d = true →
      watermarks = s.watermarks.insert ⟨row.communityId, row.event.kind, row.event.pubkey, d⟩
        row.position →
      ∀ c, watermarks.lookup c = marked s row c := by
    intro d hd hnipRs hinsert c
    rw [hinsert, HashMap.lookup_insert_eq, marked]
    by_cases hc : c = ⟨row.communityId, row.event.kind, row.event.pubkey, d⟩
    · rw [if_pos hc, if_pos]
      rw [hc]
      simp [ofCoordinate, hd, hnipRs]
    · rw [if_neg hc, if_neg]
      intro hboth
      obtain ⟨heq, hd'⟩ := eq_of_ofCoordinate (Bool.and_eq_true_iff.1 hboth).1
      rw [hd] at hd'
      rw [← Option.some.inj hd'] at heq
      exact hc heq
  simp only [guardNipRsWatermark] at h
  split at h
  · next hnone =>
      refine hplain ?_ (by simpa using h.symm)
      intro c hc
      rw [(eq_of_ofCoordinate hc).2] at hnone
      cases hnone
  · next d hd =>
      split_ifs at h with hnipRs
      · split at h
        · next hfirst =>
            refine ⟨hmarks d hd hnipRs (by simpa using h.symm), ?_⟩
            intro c hc _ watermark hwatermark
            obtain ⟨heq, hd'⟩ := eq_of_ofCoordinate hc
            rw [hd] at hd'
            rw [heq, ← Option.some.inj hd', hfirst] at hwatermark
            cases hwatermark
        · next old hold =>
            split_ifs at h with hafter
            · refine ⟨hmarks d hd hnipRs (by simpa using h.symm), ?_⟩
              intro c hc _ watermark hwatermark
              obtain ⟨heq, hd'⟩ := eq_of_ofCoordinate hc
              rw [hd] at hd'
              rw [heq, ← Option.some.inj hd', hold] at hwatermark
              cases hwatermark
              exact hafter
            all_goals simp at h
      · refine hplain ?_ (by simpa using h.symm)
        intro c hc
        obtain ⟨_, hd'⟩ := eq_of_ofCoordinate hc
        rw [hd] at hd'
        rw [← Option.some.inj hd']
        simpa using hnipRs

theorem insertRow_some {row : Row} {guards : Guards} {s' : Store}
    (h : insertRow s row guards = .ok (some s')) : Inserts s s' row := by
  simp only [insertRow, bind, Except.bind, pure, Except.pure, throw, throwThe,
    MonadExceptOf.throw] at h
  cases hguard : guardNipRsWatermark s row with
  | error e =>
      rw [hguard] at h
      split_ifs at h
  | ok marks =>
      rw [hguard] at h
      cases marks with
      | none => split_ifs at h <;> cases h
      | some watermarks =>
          split_ifs at h with hrange hrefused hconflict
          all_goals cases h
          obtain ⟨hmarks, hadvances⟩ := guardNipRsWatermark_some hguard
          refine ⟨rfl, ?_, hmarks, hadvances⟩
          intro r hr hkey
          exact hconflict (List.any_eq_true.2 ⟨r, hr, by simpa using hkey⟩)

/-- A row of a fitting time that nothing refuses is inserted, where no row has its key and no
watermark is as new. -/
theorem insertRow_of_fresh {row : Row} {guards : Guards} (hrange : minTimestamptz ≤ row.createdAt)
    (hguards : guards.onInsert = false) (hfresh : ∀ r ∈ s.rows, r.key ≠ row.key)
    (hmark : ∀ c watermark, ofCoordinate c row = true → isNipRs row.event c.dTag = true →
      s.watermarks.lookup c = some watermark → After row.position watermark) :
    ∃ s', insertRow s row guards = .ok (some s') := by
  have hany : (s.rows.any fun r => decide (r.key = row.key)) = false := by
    refine List.any_eq_false.2 ?_
    intro r hr
    simpa using hfresh r hr
  have hguard : ∃ watermarks, guardNipRsWatermark s row = .ok (some watermarks) := by
    simp only [guardNipRsWatermark]
    split
    · exact ⟨_, rfl⟩
    · next d hd =>
        split_ifs with hnipRs
        · split
          · exact ⟨_, rfl⟩
          · next watermark hwatermark =>
              rw [if_pos]
              · exact ⟨_, rfl⟩
              · exact hmark _ watermark (by simp [ofCoordinate, hd]) hnipRs hwatermark
        · exact ⟨_, rfl⟩
  obtain ⟨watermarks, hwatermarks⟩ := hguard
  refine ⟨{ s with rows := s.rows ++ [row], watermarks := watermarks }, ?_⟩
  simp only [insertRow, bind, Except.bind, pure, Except.pure, hguards, hwatermarks, hany,
    if_neg (Int.not_lt.2 hrange), Bool.false_eq_true, if_false]

/-! ## What a call does -/

/-- A call that reports an insertion: the row is newer than what was live, and alone afterwards. -/
structure Replaces (target : Row → Bool) (s s' : Store) (row : Row) : Prop where
  newer : ∀ r ∈ s.live target, After row.position r.position
  live : s'.live target = [row]
  keys : ∀ r ∈ s'.rows, r = row ∨ ∃ r' ∈ s.rows, r'.key = r.key
  watermarks : ∀ c, s'.watermarks.lookup c = marked s row c
  advances : ∀ c, ofCoordinate c row = true → isNipRs row.event c.dTag = true →
    ∀ watermark, s.watermarks.lookup c = some watermark → After row.position watermark

theorem Clears.replaces {s' s'' : Store} {row : Row} (hclears : Clears target s s')
    (hinserts : Inserts s' s'' row) (htarget : target row = true) (hlive : row.deleted = false)
    (hnewer : ∀ r ∈ s.live target, After row.position r.position) :
    Replaces target s s'' row := by
  refine ⟨hnewer, ?_, ?_, ?_, ?_⟩
  · have happend : s''.live target = s'.live target ++ [row] := by
      unfold Store.live
      rw [hinserts.rows, List.filter_append]
      simp [htarget, hlive]
    rw [happend, hclears.live]
    rfl
  · intro r hr
    rw [hinserts.rows] at hr
    rcases List.mem_append.1 hr with hold | hnew
    · exact Or.inr (hclears.keys r hold)
    · exact Or.inl (List.mem_singleton.1 hnew)
  · intro c
    rw [hinserts.watermarks, marked, marked, hclears.watermarks]
  · intro c hc hnipRs watermark hwatermark
    rw [← hclears.watermarks] at hwatermark
    exact hinserts.advances c hc hnipRs watermark hwatermark

section Calls

variable {communityId : CommunityId} {event : Event} {channelId : Option Uuid} {guards : Guards}
  {s' : Store}

theorem replaceHead_ok {c : Coordinate} {row : Row} {status : ParameterizedReplaceStatus}
    (hc : ofCoordinate c row = true) (hlive : row.deleted = false)
    (hnewer : ∀ head, newest (s.live (ofCoordinate c)) = some head →
      After row.position head.position)
    (h : replaceHead s c row guards = .ok (status, s')) :
    (status = .duplicate ∧ s' = s) ∨
      (status = .inserted ∧ Replaces (ofCoordinate c) s s' row) := by
  unfold replaceHead at h
  simp only [bind, Except.bind, pure, Except.pure] at h
  split at h
  · cases h
  · next outcome houtcome =>
      cases outcome with
      | none =>
          cases h
          exact Or.inl ⟨rfl, rfl⟩
      | some inserted =>
          simp only at h
          split at h
          · cases h
          · have hreplaces := (clears_supersede s (ofCoordinate c) _).replaces
              (insertRow_some houtcome) hc hlive (after_live_of_newest hnewer)
            cases h
            refine Or.inr ⟨rfl, hreplaces.newer, hreplaces.live, hreplaces.keys, ?_,
              hreplaces.advances⟩
            -- the statement sets the watermark that the trigger has set before
            intro c'
            change (if _ then inserted.watermarks.insert c row.position
              else inserted.watermarks).lookup c' = _
            split_ifs with hnipRs
            · rw [HashMap.lookup_insert_eq]
              split_ifs with hsame
              · rw [hsame, marked, hc, hnipRs]
                rfl
              · exact hreplaces.watermarks c'
            · exact hreplaces.watermarks c'

theorem fails_ne_inserted {existing : Option Row} {precondition : ParameterizedReplacePrecondition}
    {status : ParameterizedReplaceStatus} (h : precondition.fails existing = some status) :
    status ≠ .inserted := by
  rintro rfl
  cases precondition with
  | unconditional => cases h
  | exactReplayOnly => cases h
  | expectedRevision revision =>
      simp only [ParameterizedReplacePrecondition.fails] at h
      split at h
      · cases h
      · split_ifs at h
        cases h

/-- A call of `replace_parameterized_event` either leaves the store as it was, or inserts the event
as the head of its coordinate, with its precondition met. -/
theorem replaceParameterizedEvent_ok {dTag : String}
    {precondition : ParameterizedReplacePrecondition} {status : ParameterizedReplaceStatus}
    (h : replaceParameterizedEvent s communityId event dTag channelId precondition guards =
      .ok (status, s')) :
    (status ≠ .inserted ∧ s' = s) ∨
      (status = .inserted ∧ ∃ createdAt, storedAt event = .ok createdAt ∧
        precondition.fails (newest (s.live
          (ofCoordinate ⟨communityId, event.kind, event.pubkey, dTag⟩))) = none ∧
        Replaces (ofCoordinate ⟨communityId, event.kind, event.pubkey, dTag⟩) s s'
          ⟨communityId, event, createdAt, channelId, some dTag, false⟩) := by
  unfold replaceParameterizedEvent at h
  cases htime : storedAt event with
  | error e =>
      rw [htime] at h
      cases h
  | ok createdAt =>
      simp only [htime, bind, Except.bind, pure, Except.pure] at h
      split at h
      · cases h
        exact Or.inl ⟨by decide, rfl⟩
      split at h
      · next status' hfails =>
          cases h
          exact Or.inl ⟨fails_ne_inserted hfails, rfl⟩
      next hmet =>
      split at h
      · cases h
        exact Or.inl ⟨by decide, rfl⟩
      next hdominated =>
      have hnewer : ∀ head, newest (s.live
          (ofCoordinate ⟨communityId, event.kind, event.pubkey, dTag⟩)) = some head →
          After (createdAt, event.id) head.position := by
        intro head hhead
        by_contra hnot
        refine hdominated (List.any_eq_true.2 ⟨head.position, ?_, decide_eq_true hnot⟩)
        simp [accepted, hhead]
      rcases replaceHead_ok (by simp [ofCoordinate]) rfl hnewer h with ⟨rfl, hsame⟩ | hinserted
      · exact Or.inl ⟨by decide, hsame⟩
      · refine Or.inr ⟨hinserted.1, createdAt, rfl, ?_, hinserted.2⟩
        cases hstatus : precondition.fails (newest (s.live
            (ofCoordinate ⟨communityId, event.kind, event.pubkey, dTag⟩))) with
        | none => rfl
        | some status' => exact (hmet status' hstatus).elim

theorem replaceAddressableEvent_ok {wasInserted : Bool}
    (h : replaceAddressableEvent s communityId event channelId guards = .ok (wasInserted, s')) :
    (wasInserted = false ∧ s' = s) ∨
      (wasInserted = true ∧ ∃ createdAt, storedAt event = .ok createdAt ∧
        Replaces (ofChannel communityId event.kind event.pubkey channelId) s s'
          ⟨communityId, event, createdAt, channelId, extractDTag event, false⟩) := by
  unfold replaceAddressableEvent at h
  cases htime : storedAt event with
  | error e =>
      rw [htime] at h
      cases h
  | ok createdAt =>
      simp only [htime, bind, Except.bind, pure, Except.pure] at h
      split at h
      · cases h
        exact Or.inl ⟨rfl, rfl⟩
      next hdominated =>
      have hnewer : ∀ head, newest (s.live
          (ofChannel communityId event.kind event.pubkey channelId)) = some head →
          After (createdAt, event.id) head.position := by
        intro head hhead
        by_contra hnot
        rw [hhead] at hdominated
        exact hdominated (decide_eq_true hnot)
      split at h
      · cases h
      · next outcome houtcome =>
          cases outcome with
          | none =>
              cases h
              exact Or.inl ⟨rfl, rfl⟩
          | some inserted =>
              simp only at h
              split at h
              · cases h
              · cases h
                have hreplaces := (clears_softDelete s _).replaces (insertRow_some houtcome)
                  (by simp [ofChannel]) rfl (after_live_of_newest hnewer)
                exact Or.inr ⟨rfl, createdAt, rfl, hreplaces.newer, hreplaces.live,
                  hreplaces.keys, hreplaces.watermarks, hreplaces.advances⟩

/-- A row whose time fits, that is newer than the head and the watermark and whose key is not in
the store, is inserted where no guard refuses it. -/
theorem replaceParameterizedEvent_inserts {dTag : String} {createdAt : Int}
    (htime : storedAt event = .ok createdAt) (hrange : minTimestamptz ≤ createdAt)
    (hinsert : guards.onInsert = false) (hcommit : guards.onCommit = false)
    (hids : ∀ position ∈ accepted s ⟨communityId, event.kind, event.pubkey, dTag⟩
      (isNipRs event dTag), position.2 ≠ event.id ∧ After (createdAt, event.id) position)
    (hfresh : ∀ r ∈ s.rows, r.key ≠ (communityId, createdAt, event.id)) :
    ∃ s', replaceParameterizedEvent s communityId event dTag channelId .unconditional guards =
      .ok (.inserted, s') := by
  set c : Coordinate := ⟨communityId, event.kind, event.pubkey, dTag⟩ with hc
  set row : Row := ⟨communityId, event, createdAt, channelId, some dTag, false⟩ with hrow
  have hid : ((accepted s c (isNipRs event dTag)).any fun position =>
      decide (position.2 = event.id)) = false := by
    refine List.any_eq_false.2 fun position hposition => ?_
    simpa using (hids position hposition).1
  have hafter : ((accepted s c (isNipRs event dTag)).any fun position =>
      decide (¬ After row.position position)) = false := by
    refine List.any_eq_false.2 fun position hposition => ?_
    have hnewer : After row.position position := (hids position hposition).2
    simpa using hnewer
  set savepoint := supersede s (ofCoordinate c) (isNipRs event dTag || isMajuMeshStatus event dTag)
    (newest (s.live (ofCoordinate c))) with hsavepoint
  have hclears : Clears (ofCoordinate c) s savepoint := clears_supersede s (ofCoordinate c) _
  have hrowInserted : ∃ inserted, insertRow savepoint row guards = .ok (some inserted) := by
    refine insertRow_of_fresh hrange hinsert ?_ ?_
    · intro r hr hkey
      obtain ⟨r', hr', hkey'⟩ := hclears.keys r hr
      exact hfresh r' hr' (hkey'.trans hkey)
    · intro c' watermark hc' hnipRs hwatermark
      obtain ⟨heq, hd⟩ := eq_of_ofCoordinate hc'
      have hdTag : c'.dTag = dTag := (Option.some.inj hd).symm
      have hcoordinate : c' = c := by rw [heq, hdTag]
      rw [hcoordinate] at hwatermark hnipRs
      rw [hclears.watermarks] at hwatermark
      refine (hids watermark ?_).2
      have hshape : isNipRs event dTag = true := hnipRs
      simp [accepted, hshape, hwatermark]
  obtain ⟨inserted, hinserted⟩ := hrowInserted
  refine ⟨insertMentions
    { inserted with watermarks := if isNipRs event dTag then inserted.watermarks.insert c row.position
      else inserted.watermarks } communityId event, ?_⟩
  unfold replaceParameterizedEvent replaceHead
  simp only [htime, bind, Except.bind, pure, Except.pure]
  rw [if_neg (by rw [hid]; exact Bool.false_ne_true)]
  simp only [ParameterizedReplacePrecondition.fails]
  rw [if_neg (by rw [hafter]; exact Bool.false_ne_true), hinserted]
  simp only [hcommit, Bool.false_eq_true, if_false]
  rfl

theorem replaceAddressableEvent_inserts {createdAt : Int}
    (htime : storedAt event = .ok createdAt) (hrange : minTimestamptz ≤ createdAt)
    (hinsert : guards.onInsert = false) (hcommit : guards.onCommit = false)
    (hnewer : ∀ r ∈ s.live (ofChannel communityId event.kind event.pubkey channelId),
      After (createdAt, event.id) r.position)
    (hfresh : ∀ r ∈ s.rows, r.key ≠ (communityId, createdAt, event.id))
    (hmark : ∀ c watermark, c.communityId = communityId → c.kind = event.kind →
      c.pubkey = event.pubkey → s.watermarks.lookup c = some watermark →
      After (createdAt, event.id) watermark) :
    ∃ s', replaceAddressableEvent s communityId event channelId guards = .ok (true, s') := by
  set target := ofChannel communityId event.kind event.pubkey channelId with htarget
  set row : Row := ⟨communityId, event, createdAt, channelId, extractDTag event, false⟩ with hrow
  have hdominated : ((newest (s.live target)).any fun head =>
      decide (¬ After row.position head.position)) = false := by
    cases hnewest : newest (s.live target) with
    | none => rfl
    | some head =>
        have hhead : After row.position head.position := hnewer head (newest_eq_some hnewest).1
        simpa using hhead
  have hclears := clears_softDelete s target
  have hrowInserted : ∃ inserted, insertRow (s.softDelete target) row guards =
      .ok (some inserted) := by
    refine insertRow_of_fresh hrange hinsert ?_ ?_
    · intro r hr hkey
      obtain ⟨r', hr', hkey'⟩ := hclears.keys r hr
      exact hfresh r' hr' (hkey'.trans hkey)
    · intro c watermark hc _ hwatermark
      rw [hclears.watermarks] at hwatermark
      have heq := (eq_of_ofCoordinate hc).1
      exact hmark c watermark (congrArg Coordinate.communityId heq)
        (congrArg Coordinate.kind heq) (congrArg Coordinate.pubkey heq) hwatermark
  obtain ⟨inserted, hinserted⟩ := hrowInserted
  refine ⟨insertMentions inserted communityId event, ?_⟩
  unfold replaceAddressableEvent
  simp only [htime, bind, Except.bind, pure, Except.pure]
  rw [if_neg (by rw [hdominated]; exact Bool.false_ne_true), hinserted]
  simp only [hcommit, Bool.false_eq_true, if_false]

end Calls

end Replaceable
end Db
end Maju
