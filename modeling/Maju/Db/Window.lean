import Maju.Db.Query
import Maju.Db.Threads.Metadata
import Maju.Lib.Bytes
import Maju.Lib.Json
import Maju.Lib.Keyset
import Maju.Lib.Text
import Mathlib.Data.Prod.Lex

/-!
# Window — the top level of a channel, page by page

A client shows a channel by its top-level events: those that are no replies, and the replies that
are broadcast.  It reads them in windows.  A window holds up to `limit` rows behind a position, says
whether there is more, and gives the position of its last row, also if that row could not be made an
event again.

* `Tables`, `Tables.joined` — `events` and `thread_metadata`, and their left join;
* `getChannelWindow`, `scan` — one window, and the windows that a client reads one after another;
* `channelWindow_gapFree` — over fixed tables a scan ends with every row in order; over changing
  tables it returns nothing twice and misses nothing that was there all along.
-/

namespace Maju
namespace Db
namespace Window

open Lib Core

/-! ## Tables -/

/-- A row of `events`, by the columns of the query. -/
structure Row extends Threads.EventRow where
  channelId : Option Uuid
  kind : Int
  pubkey : PublicKey
  tags : Json
  content : Text
  sig : Bytes
  receivedAt : Int

/-- The two tables with their primary keys.  A kind is written from 16 bits. -/
structure Tables where
  events : List Row
  threads : List Threads.ThreadRow
  eventKey : (events.map fun e => (e.communityId, e.createdAt, e.id)).Nodup
  threadKey : (threads.map fun t => (t.communityId, t.eventCreatedAt, t.eventId)).Nodup
  kinds : ∀ e ∈ events, 0 ≤ e.kind ∧ e.kind < 2 ^ 16

/-- The `ON` clause. -/
def joins (e : Row) (tm : Threads.ThreadRow) : Bool :=
  decide (tm.communityId = e.communityId) && decide (tm.eventCreatedAt = e.createdAt) &&
    decide (tm.eventId = e.id)

abbrev Joined := Row × Option Threads.ThreadRow

/-- `events LEFT JOIN thread_metadata`. -/
def Tables.joined (tables : Tables) : List Joined :=
  tables.events.flatMap fun e =>
    match tables.threads.filter (joins e) with
    | [] => [(e, none)]
    | found => found.map fun tm => (e, some tm)

/-! ## The query -/

/-- What a window is asked for. -/
structure WindowQuery where
  communityId : CommunityId
  channelId : Uuid
  kindFilter : Option (List Nat)

/-- No reply, or one that is broadcast. -/
def topLevel : Option Threads.ThreadRow → Bool
  | none => true
  | some tm => decide (tm.depth = 0) || (decide (tm.depth = 1) && tm.broadcast)

/-- A list of kinds that is empty does not filter. -/
def WindowQuery.kindClause (q : WindowQuery) (e : Row) : Bool :=
  match q.kindFilter with
  | some kinds => kinds.isEmpty || kinds.any fun k => decide (e.kind = k)
  | none => true

/-- The `WHERE` clause without the cursor. -/
def WindowQuery.selects (q : WindowQuery) (row : Joined) : Bool :=
  decide (row.1.communityId = q.communityId) && decide (row.1.channelId = some q.channelId) &&
    !row.1.deleted && topLevel row.2 && q.kindClause row.1

abbrev Cursor := Int × EventId

/-- The cursor in the `WHERE` clause. -/
def cursorClause (cursor : Option Cursor) (row : Joined) : Bool :=
  match cursor with
  | some (ts, id) =>
      decide (row.1.createdAt < ts) ||
        (decide (row.1.createdAt = ts) && decide (id.toNat < row.1.id.toNat))
  | none => true

/-- `ORDER BY e.created_at DESC, e.id ASC`. -/
def Newest (a b : Joined) : Prop :=
  b.1.createdAt < a.1.createdAt ∨ (a.1.createdAt = b.1.createdAt ∧ a.1.id.toNat ≤ b.1.id.toNat)

instance (a b : Joined) : Decidable (Newest a b) :=
  inferInstanceAs (Decidable (b.1.createdAt < a.1.createdAt ∨
    (a.1.createdAt = b.1.createdAt ∧ a.1.id.toNat ≤ b.1.id.toNat)))

/-- The rows of the query without its limit. -/
def rawRows (tables : Tables) (q : WindowQuery) (cursor : Option Cursor) : List Joined :=
  (tables.joined.filter fun row => q.selects row && cursorClause cursor row).insertionSort Newest

/-! ## A window -/

structure StoredEvent where
  id : EventId
  pubkey : PublicKey
  createdAt : Int
  kind : Int
  tags : Json
  content : Text
  sig : Bytes
  receivedAt : Int
  channelId : Option Uuid

structure ThreadSummary where
  replyCount : Int
  descendantCount : Int
  lastReplyAt : Option Int
  participants : List PublicKey

structure ChannelWindowRow where
  storedEvent : StoredEvent
  threadSummary : Option ThreadSummary

structure ChannelWindow where
  rows : List ChannelWindowRow
  hasMore : Bool
  nextCursor : Option Cursor

def Row.stored (e : Row) : StoredEvent :=
  ⟨e.id, e.pubkey, e.createdAt, e.kind, e.tags, e.content, e.sig, e.receivedAt, e.channelId⟩

section

-- whether the event library takes the columns of a row for an event
variable (parses : Row → Bool)

def rowToStoredEvent (e : Row) : Except DbError (Option StoredEvent) :=
  if e.kind < 0 ∨ 2 ^ 16 ≤ e.kind then
    .error (.invalidData ("kind out of u16 range: " ++ toString e.kind))
  else if parses e then .ok (some e.stored)
  else .ok none

/-- The summary of a thread that has replies; its participants are filled in later. -/
def summaryOf : Option Threads.ThreadRow → Option ThreadSummary
  | some tm =>
      if 0 < tm.replyCount then some ⟨tm.replyCount, tm.descendantCount, tm.lastReplyAt, []⟩
      else none
  | none => none

def windowRows : List Joined → Except DbError (List ChannelWindowRow)
  | [] => .ok []
  | (e, tm) :: rest => do
      match ← rowToStoredEvent parses e with
      | none => windowRows rest
      | some storedEvent =>
          let rows ← windowRows rest
          .ok (⟨storedEvent, summaryOf tm⟩ :: rows)

/-- The participants of a root are taken from the map when its row comes. -/
def fillParticipants : List (EventId × PublicKey) → List ChannelWindowRow → List ChannelWindowRow
  | _, [] => []
  | byRoot, row :: rows =>
      match row.threadSummary with
      | none => row :: fillParticipants byRoot rows
      | some summary =>
          let mine := byRoot.filter fun p => decide (p.1 = row.storedEvent.id)
          let others := byRoot.filter fun p => decide (p.1 ≠ row.storedEvent.id)
          let row := if mine = [] then row else
            { row with threadSummary := some { summary with participants := mine.map Prod.snd } }
          row :: fillParticipants others rows

/-- `get_channel_window_on`; the second statement of it is given by its answer. -/
def getChannelWindow (participantRows : List EventId → List (EventId × PublicKey))
    (tables : Tables) (q : WindowQuery) (limit : Nat) (cursor : Option Cursor) :
    Except DbError ChannelWindow := do
  -- one row more than the limit shows that there is more
  let dbRows := (rawRows tables q cursor).take (limit + 1)
  let hasMore := decide (limit < dbRows.length)
  let kept := dbRows.take limit
  let nextCursor :=
    if hasMore then kept.getLast?.map fun row => (row.1.createdAt, row.1.id) else none
  let rows ← windowRows parses kept
  let roots := (rows.filter fun row => row.threadSummary.isSome).map fun row => row.storedEvent.id
  let rows := if roots = [] then rows else fillParticipants (participantRows roots) rows
  .ok ⟨rows, hasMore, nextCursor⟩

/-! ## A scan -/

/-- What the database is when a window is read, for the first statement and for the second. -/
structure Fetch where
  tables : Tables
  participantRows : List EventId → List (EventId × PublicKey)

/-- The windows that are read by following `next_cursor`, and whether the last said that there is
no more. -/
def scan (q : WindowQuery) (limit : Nat) :
    Option Cursor → List Fetch → Except DbError (List ChannelWindow × Bool)
  | _, [] => .ok ([], false)
  | cursor, fetch :: later => do
      let window ← getChannelWindow parses fetch.participantRows fetch.tables q limit cursor
      if window.hasMore then
        let rest ← scan q limit window.nextCursor later
        .ok (window :: rest.1, rest.2)
      else .ok ([window], true)

end

/-! ## What should be seen -/

/-- The row is undeleted, of the channel, of a kind that is asked for, and at the top level. -/
def Tables.Shows (tables : Tables) (q : WindowQuery) (e : Row) : Prop :=
  e ∈ tables.events ∧ e.communityId = q.communityId ∧ e.channelId = some q.channelId ∧
    e.deleted = false ∧ q.kindClause e = true ∧
    ∀ tm ∈ tables.threads, joins e tm = true → tm.depth = 0 ∨ (tm.depth = 1 ∧ tm.broadcast = true)

def After (cursor : Option Cursor) (e : Row) : Prop :=
  ∀ c ∈ cursor, e.createdAt < c.1 ∨ (e.createdAt = c.1 ∧ c.2.toNat < e.id.toNat)

/-- Late rows come first, and ids break ties upwards. -/
def InOrder (rows : List Row) : Prop :=
  rows.Pairwise fun a b =>
    b.createdAt < a.createdAt ∨ (a.createdAt = b.createdAt ∧ a.id.toNat < b.id.toNat)

/-- The events over some windows, in the order in which they come. -/
def returned (windows : List ChannelWindow) : List StoredEvent :=
  (windows.flatMap ChannelWindow.rows).map ChannelWindowRow.storedEvent

/-! ## The order -/

/-- The key of a position: late times come first, and ids break ties upwards. -/
def cursorKey (cursor : Cursor) : Intᵒᵈ ×ₗ Nat :=
  toLex (OrderDual.toDual cursor.1, cursor.2.toNat)

def rowKey (row : Joined) : Intᵒᵈ ×ₗ Nat := cursorKey (row.1.createdAt, row.1.id)

theorem newest_iff (a b : Joined) : Newest a b ↔ Keyset.Before rowKey a b := by
  unfold Newest Keyset.Before rowKey cursorKey
  rw [Prod.Lex.toLex_le_toLex]
  simp

theorem cursorKey_lt_iff (c d : Cursor) :
    cursorKey c < cursorKey d ↔ d.1 < c.1 ∨ (d.1 = c.1 ∧ c.2.toNat < d.2.toNat) := by
  unfold cursorKey
  rw [Prod.Lex.toLex_lt_toLex]
  simp [eq_comm]

theorem behind_iff (cursor : Option Cursor) (row : Joined) :
    Keyset.Behind rowKey (cursor.map cursorKey) row ↔ After cursor row.1 := by
  cases cursor with
  | none => simp [After, Keyset.Behind]
  | some position =>
      simp only [After, Keyset.Behind, Option.map_some, Option.mem_def, Option.some.injEq,
        forall_eq']
      exact cursorKey_lt_iff position (row.1.createdAt, row.1.id)

theorem cursorClause_eq (cursor : Option Cursor) (row : Joined) :
    cursorClause cursor row = decide (Keyset.Behind rowKey (cursor.map cursorKey) row) := by
  rw [Bool.eq_iff_iff, decide_eq_true_iff, behind_iff]
  cases cursor with
  | none => simp [cursorClause, After]
  | some position => simp [cursorClause, After]

theorem rawRows_eq (tables : Tables) (q : WindowQuery) (cursor : Option Cursor) :
    rawRows tables q cursor =
      Keyset.found rowKey (cursor.map cursorKey) (tables.joined.filter q.selects) := by
  have horder : Newest = Keyset.Before rowKey := by
    funext a b
    exact propext (newest_iff a b)
  unfold rawRows Keyset.found
  rw [List.filter_filter]
  simp only [← cursorClause_eq, Bool.and_comm]
  congr!

/-! ## The join -/

theorem filter_joins (tables : Tables) (e : Row) :
    tables.threads.filter (joins e) = (tables.threads.find? (joins e)).toList := by
  have hkey : ∀ tm ∈ tables.threads.filter (joins e),
      (tm.communityId, tm.eventCreatedAt, tm.eventId) = (e.communityId, e.createdAt, e.id) := by
    intro tm htm
    have hjoins := (List.mem_filter.1 htm).2
    simp only [joins, Bool.and_eq_true, decide_eq_true_eq] at hjoins
    rw [hjoins.1.1, hjoins.1.2, hjoins.2]
  have hnodup := tables.threadKey.sublist
    ((List.filter_sublist (p := joins e) (l := tables.threads)).map _)
  rw [← List.head?_filter]
  cases hfound : tables.threads.filter (joins e) with
  | nil => rfl
  | cons tm rest =>
      cases rest with
      | nil => rfl
      | cons tm' rest =>
          -- two of them would have the key of the event
          rw [hfound] at hkey hnodup
          have htm := hkey tm (by simp)
          have htm' := hkey tm' (by simp)
          simp only [List.map_cons, List.nodup_cons, List.mem_cons] at hnodup
          exact absurd (Or.inl (htm.trans htm'.symm)) hnodup.1

theorem joined_eq (tables : Tables) :
    tables.joined = tables.events.map fun e => (e, tables.threads.find? (joins e)) := by
  unfold Tables.joined
  rw [List.map_eq_flatMap]
  refine congrArg (fun f => tables.events.flatMap f) (funext fun e => ?_)
  rw [filter_joins]
  cases tables.threads.find? (joins e) with
  | none => rfl
  | some tm => rfl

theorem topLevel_find (tables : Tables) (e : Row) :
    topLevel (tables.threads.find? (joins e)) = true ↔
      ∀ tm ∈ tables.threads, joins e tm = true →
        tm.depth = 0 ∨ (tm.depth = 1 ∧ tm.broadcast = true) := by
  have hmem : ∀ tm, tm ∈ tables.threads ∧ joins e tm = true ↔
      tables.threads.find? (joins e) = some tm := by
    intro tm
    rw [← List.mem_filter, filter_joins, Option.mem_toList]
  constructor
  · intro h tm htm hjoins
    rw [(hmem tm).1 ⟨htm, hjoins⟩] at h
    simpa [topLevel] using h
  · intro h
    cases hfound : tables.threads.find? (joins e) with
    | none => rfl
    | some tm =>
        obtain ⟨htm, hjoins⟩ := (hmem tm).2 hfound
        simpa [topLevel] using h tm htm hjoins

theorem mem_selected_iff (tables : Tables) (q : WindowQuery) (e : Row) :
    e ∈ (tables.joined.filter q.selects).map Prod.fst ↔ tables.Shows q e := by
  rw [joined_eq, List.filter_map, List.map_map, List.mem_map]
  have hself : ∀ e, (Prod.fst ∘ fun e => (e, tables.threads.find? (joins e))) e = e := fun _ => rfl
  simp only [hself, exists_eq_right, List.mem_filter, Function.comp_apply, WindowQuery.selects,
    Bool.and_eq_true, decide_eq_true_eq, Bool.not_eq_true', topLevel_find]
  unfold Tables.Shows
  constructor
  · rintro ⟨he, ⟨⟨⟨hcommunity, hchannel⟩, hdeleted⟩, htop⟩, hkind⟩
    exact ⟨he, hcommunity, hchannel, hdeleted, hkind, htop⟩
  · rintro ⟨he, hcommunity, hchannel, hdeleted, hkind, htop⟩
    exact ⟨he, ⟨⟨⟨hcommunity, hchannel⟩, hdeleted⟩, htop⟩, hkind⟩

theorem rowKey_inj {a b : Joined} (h : rowKey a = rowKey b) :
    a.1.createdAt = b.1.createdAt ∧ a.1.id = b.1.id := by
  have hpair : (OrderDual.toDual a.1.createdAt, a.1.id.toNat) =
      (OrderDual.toDual b.1.createdAt, b.1.id.toNat) := toLex.injective h
  obtain ⟨htime, hid⟩ := Prod.mk.inj hpair
  exact ⟨OrderDual.toDual.injective htime, BitVec.eq_of_toNat_eq hid⟩

theorem nodup_selected (tables : Tables) (q : WindowQuery) :
    ((tables.joined.filter q.selects).map rowKey).Nodup := by
  have hevents : (tables.joined.filter q.selects).Pairwise fun a b =>
      (a.1.communityId, a.1.createdAt, a.1.id) ≠ (b.1.communityId, b.1.createdAt, b.1.id) := by
    refine List.Pairwise.filter _ ?_
    rw [joined_eq, List.pairwise_map]
    exact List.pairwise_map.1 tables.eventKey
  rw [List.Nodup, List.pairwise_map]
  refine hevents.imp_of_mem fun {a b} ha hb hne heq => hne ?_
  have hcommunity : ∀ row ∈ tables.joined.filter q.selects, row.1.communityId = q.communityId := by
    intro row hrow
    have hselects := (List.mem_filter.1 hrow).2
    simp only [WindowQuery.selects, Bool.and_eq_true, decide_eq_true_eq] at hselects
    exact hselects.1.1.1.1
  obtain ⟨htime, hid⟩ := rowKey_inj heq
  rw [hcommunity a ha, hcommunity b hb, htime, hid]

/-! ## One window -/

section

variable (parses : Row → Bool)

theorem windowRows_ok {rows : List Joined}
    (hkinds : ∀ row ∈ rows, 0 ≤ row.1.kind ∧ row.1.kind < 2 ^ 16) :
    ∃ out, windowRows parses rows = .ok out ∧ out.map ChannelWindowRow.storedEvent =
      ((rows.map Prod.fst).filter parses).map Row.stored := by
  induction rows with
  | nil => exact ⟨[], rfl, rfl⟩
  | cons row rest ih =>
      obtain ⟨e, tm⟩ := row
      obtain ⟨hkind, hrest⟩ := List.forall_mem_cons.1 hkinds
      obtain ⟨out, hout, hmap⟩ := ih hrest
      have hrange : ¬ (e.kind < 0 ∨ 2 ^ 16 ≤ e.kind) := by
        rintro (h | h)
        · exact absurd hkind.1 (not_le.2 h)
        · exact absurd hkind.2 (not_lt.2 h)
      cases hparses : parses e with
      | true =>
          have hstored : rowToStoredEvent parses e = .ok (some e.stored) := by
            rw [rowToStoredEvent, if_neg hrange, if_pos hparses]
          refine ⟨⟨e.stored, summaryOf tm⟩ :: out, ?_, ?_⟩
          · simp [windowRows, hstored, hout, bind, Except.bind]
          · simp [hparses, hmap]
      | false =>
          have hstored : rowToStoredEvent parses e = .ok none := by
            rw [rowToStoredEvent, if_neg hrange, if_neg (by simp [hparses])]
          refine ⟨out, ?_, ?_⟩
          · simp [windowRows, hstored, hout, bind, Except.bind]
          · simp [hparses, hmap]

theorem map_fillParticipants (byRoot : List (EventId × PublicKey)) (rows : List ChannelWindowRow) :
    (fillParticipants byRoot rows).map ChannelWindowRow.storedEvent =
      rows.map ChannelWindowRow.storedEvent := by
  induction rows generalizing byRoot with
  | nil => rfl
  | cons row rows ih =>
      unfold fillParticipants
      cases row.threadSummary with
      | none => simp [ih]
      | some summary =>
          dsimp only
          split_ifs with hmine
          · simp [ih]
          · simp [ih]

theorem kind_of_mem_rawRows {tables : Tables} {q : WindowQuery} {cursor : Option Cursor}
    {row : Joined} (h : row ∈ rawRows tables q cursor) : 0 ≤ row.1.kind ∧ row.1.kind < 2 ^ 16 := by
  have hjoined : row ∈ tables.joined := by
    rw [rawRows, List.mem_insertionSort] at h
    exact (List.mem_filter.1 h).1
  rw [joined_eq] at hjoined
  obtain ⟨e, he, rfl⟩ := List.mem_map.1 hjoined
  exact tables.kinds e he

theorem getChannelWindow_ok (participantRows : List EventId → List (EventId × PublicKey))
    (tables : Tables) (q : WindowQuery) (limit : Nat) (cursor : Option Cursor) :
    ∃ window, getChannelWindow parses participantRows tables q limit cursor = .ok window ∧
      window.hasMore = decide (limit < (rawRows tables q cursor).length) ∧
      (window.hasMore = true → window.nextCursor =
        ((rawRows tables q cursor).take limit).getLast?.map fun row =>
          (row.1.createdAt, row.1.id)) ∧
      window.rows.map ChannelWindowRow.storedEvent =
        ((((rawRows tables q cursor).take limit).map Prod.fst).filter parses).map Row.stored := by
  have hkept : ((rawRows tables q cursor).take (limit + 1)).take limit =
      (rawRows tables q cursor).take limit := by
    rw [List.take_take, Nat.min_eq_left (Nat.le_succ limit)]
  have hmore : decide (limit < ((rawRows tables q cursor).take (limit + 1)).length) =
      decide (limit < (rawRows tables q cursor).length) := by
    rw [List.length_take, decide_eq_decide]
    omega
  have hkinds : ∀ row ∈ (rawRows tables q cursor).take limit,
      0 ≤ row.1.kind ∧ row.1.kind < 2 ^ 16 :=
    fun row hrow => kind_of_mem_rawRows (List.mem_of_mem_take hrow)
  obtain ⟨out, hout, hmap⟩ := windowRows_ok parses hkinds
  unfold getChannelWindow
  simp only [hkept, hmore, hout, bind, Except.bind]
  refine ⟨_, rfl, rfl, ?_, ?_⟩
  · intro h
    exact if_pos h
  · dsimp only
    split_ifs
    · exact hmap
    · rw [map_fillParticipants]
      exact hmap

/-! ## A scan -/

/-- The rows that are selected at each fetch. -/
def selectedRows (q : WindowQuery) (fetches : List Fetch) : List (List Joined) :=
  fetches.map fun f => f.tables.joined.filter q.selects

theorem scan_ok (q : WindowQuery) (limit : Nat) (cursor : Option Cursor) (fetches : List Fetch) :
    ∃ windows, scan parses q limit cursor fetches =
        .ok (windows, (Keyset.scan rowKey limit (cursor.map cursorKey)
          (selectedRows q fetches)).2) ∧
      windows.length = (Keyset.scan rowKey limit (cursor.map cursorKey)
        (selectedRows q fetches)).1.length ∧
      returned windows = (((Keyset.scan rowKey limit (cursor.map cursorKey)
        (selectedRows q fetches)).1.flatten.map Prod.fst).filter parses).map Row.stored := by
  induction fetches generalizing cursor with
  | nil => exact ⟨[], rfl, rfl, rfl⟩
  | cons fetch later ih =>
      obtain ⟨window, hwindow, hhasMore, hnext, hrows⟩ :=
        getChannelWindow_ok parses fetch.participantRows fetch.tables q limit cursor
      rw [rawRows_eq] at hhasMore hnext hrows
      simp only [scan, selectedRows, List.map_cons, Keyset.scan, hwindow, bind, Except.bind]
      by_cases hmore : limit <
          (Keyset.found rowKey (cursor.map cursorKey) (fetch.tables.joined.filter q.selects)).length
      · rw [decide_eq_true hmore] at hhasMore
        rw [if_pos hmore, if_pos hhasMore, hnext hhasMore]
        obtain ⟨windows, hscan, hlength, hreturned⟩ := ih
          (((Keyset.found rowKey (cursor.map cursorKey)
            (fetch.tables.joined.filter q.selects)).take limit).getLast?.map
              fun row => (row.1.createdAt, row.1.id))
        -- the key of the next position is that of the last row of the page
        rw [Option.map_map] at hscan hlength hreturned
        rw [hscan]
        refine ⟨window :: windows, rfl, congrArg (· + 1) hlength, ?_⟩
        have happend : returned (window :: windows) =
            window.rows.map ChannelWindowRow.storedEvent ++ returned windows := by
          simp [returned]
        rw [happend, hrows, hreturned, List.flatten_cons, List.map_append, List.filter_append,
          List.map_append]
        rfl
      · rw [decide_eq_false hmore] at hhasMore
        rw [if_neg hmore, hhasMore]
        refine ⟨[window], rfl, rfl, ?_⟩
        simpa [returned] using hrows

theorem inOrder_of_pairwise {rows : List Joined}
    (h : rows.Pairwise fun a b => rowKey a < rowKey b) : InOrder (rows.map Prod.fst) := by
  refine List.pairwise_map.2 (h.imp fun {a b} hab => ?_)
  rcases (cursorKey_lt_iff (a.1.createdAt, a.1.id) (b.1.createdAt, b.1.id)).1 hab with
    hlate | ⟨htime, hid⟩
  · exact Or.inl hlate
  · exact Or.inr ⟨htime.symm, hid⟩

theorem InOrder.nodup {rows : List Row} (h : InOrder rows) :
    (rows.map fun e => (e.createdAt, e.id)).Nodup := by
  refine List.pairwise_map.2 (h.imp fun {a b} hab heq => ?_)
  obtain ⟨htime, hid⟩ := Prod.mk.inj heq
  rcases hab with hlate | ⟨_, hlt⟩
  · exact absurd hlate (htime ▸ lt_irrefl _)
  · exact absurd hlt (hid ▸ lt_irrefl _)

theorem rawRows_spec (tables : Tables) (q : WindowQuery) (cursor : Option Cursor) :
    InOrder ((rawRows tables q cursor).map Prod.fst) ∧
      ∀ e, e ∈ (rawRows tables q cursor).map Prod.fst ↔ tables.Shows q e ∧ After cursor e := by
  rw [rawRows_eq]
  refine ⟨inOrder_of_pairwise (Keyset.pairwise_found (nodup_selected tables q)), fun e => ?_⟩
  rw [← mem_selected_iff, List.mem_map, List.mem_map]
  constructor
  · rintro ⟨row, hrow, rfl⟩
    obtain ⟨hselected, hbehind⟩ := Keyset.mem_found.1 hrow
    exact ⟨⟨row, hselected, rfl⟩, (behind_iff cursor row).1 hbehind⟩
  · rintro ⟨⟨row, hselected, rfl⟩, hafter⟩
    exact ⟨row, Keyset.mem_found.2 ⟨hselected, (behind_iff cursor row).2 hafter⟩, rfl⟩

theorem eq_of_shows {tables : Tables} {q : WindowQuery} {e : Row} {row : Joined}
    (he : tables.Shows q e) (hrow : row ∈ tables.joined.filter q.selects)
    (hkey : rowKey row = cursorKey (e.createdAt, e.id)) : row.1 = e := by
  have hshows := (mem_selected_iff tables q row.1).1 (List.mem_map_of_mem hrow)
  obtain ⟨htime, hid⟩ := rowKey_inj (b := (e, none)) hkey
  refine List.inj_on_of_nodup_map tables.eventKey hshows.1 he.1 ?_
  rw [hshows.2.1, he.2.1, htime, hid]

/-- A window is the first `limit` rows behind its position and says whether these are all.  A scan
over fixed tables ends, and returns what should be seen in order.  Over tables that change it
returns no key twice and, once it has ended, all that should have been seen in every table. -/
theorem channelWindow_gapFree (q : WindowQuery) {limit : Nat} (hlimit : 1 ≤ limit) :
    (∀ (tables : Tables) (cursor : Option Cursor), ∃ raw : List Row, InOrder raw ∧
      (∀ e, e ∈ raw ↔ tables.Shows q e ∧ After cursor e) ∧
      ∀ participantRows, ∃ window,
        getChannelWindow parses participantRows tables q limit cursor = .ok window ∧
        returned [window] = ((raw.take limit).filter parses).map Row.stored ∧
        (window.hasMore = true ↔ limit < raw.length) ∧
        (window.hasMore = true →
          window.nextCursor = (raw.take limit).getLast?.map fun e => (e.createdAt, e.id))) ∧
    (∀ tables : Tables, ∃ raw : List Row, InOrder raw ∧ (∀ e, e ∈ raw ↔ tables.Shows q e) ∧
      ∀ fetches : List Fetch, (∀ f ∈ fetches, f.tables = tables) → raw.length < fetches.length →
        ∃ windows, scan parses q limit none fetches = .ok (windows, true) ∧
          returned windows = (raw.filter parses).map Row.stored) ∧
    ∀ fetches : List Fetch, ∃ windows atEnd,
      scan parses q limit none fetches = .ok (windows, atEnd) ∧
      ((returned windows).map fun e => (e.createdAt, e.id)).Nodup ∧
      (atEnd = true → ∀ e : Row, parses e = true →
        (∀ f ∈ fetches.take windows.length, f.tables.Shows q e) →
        e.stored ∈ returned windows) := by
  have hpos : 0 < limit := hlimit
  refine ⟨?_, ?_, ?_⟩
  · intro tables cursor
    obtain ⟨horder, hmem⟩ := rawRows_spec tables q cursor
    refine ⟨(rawRows tables q cursor).map Prod.fst, horder, hmem, fun participantRows => ?_⟩
    obtain ⟨window, hwindow, hmore, hnext, hrows⟩ :=
      getChannelWindow_ok parses participantRows tables q limit cursor
    refine ⟨window, hwindow, ?_, ?_, ?_⟩
    · rw [← List.map_take, ← hrows]
      simp [returned]
    · rw [hmore, decide_eq_true_iff, List.length_map]
    · intro h
      rw [hnext h, ← List.map_take, List.getLast?_map, Option.map_map]
      rfl
  · intro tables
    obtain ⟨horder, hmem⟩ := rawRows_spec tables q none
    refine ⟨(rawRows tables q none).map Prod.fst, horder, ?_, ?_⟩
    · intro e
      rw [hmem e]
      simp [After]
    · intro fetches hfixed hlength
      obtain ⟨windows, hscan, _, hreturned⟩ := scan_ok parses q limit none fetches
      have htables : ∀ rows ∈ selectedRows q fetches, rows = tables.joined.filter q.selects := by
        intro rows hrows
        obtain ⟨f, hf, rfl⟩ := List.mem_map.1 hrows
        rw [hfixed f hf]
      have hfewer : (Keyset.found rowKey none (tables.joined.filter q.selects)).length <
          (selectedRows q fetches).length := by
        rw [List.length_map, rawRows_eq] at hlength
        rw [selectedRows, List.length_map]
        exact hlength
      obtain ⟨hend, hpages⟩ :=
        Keyset.scan_of_eq hpos (nodup_selected tables q) htables hfewer
      rw [Option.map_none] at hscan hreturned
      rw [hend] at hscan
      rw [hpages] at hreturned
      exact ⟨windows, hscan, by rw [hreturned, rawRows_eq]; rfl⟩
  · intro fetches
    obtain ⟨windows, hscan, hlength, hreturned⟩ := scan_ok parses q limit none fetches
    rw [Option.map_none] at hscan hlength hreturned
    have hnodup : ∀ rows ∈ selectedRows q fetches, (rows.map rowKey).Nodup := by
      intro rows hrows
      obtain ⟨f, _, rfl⟩ := List.mem_map.1 hrows
      exact nodup_selected f.tables q
    refine ⟨windows, _, hscan, ?_, ?_⟩
    · have horder : InOrder ((Keyset.scan rowKey limit none
          (selectedRows q fetches)).1.flatten.map Prod.fst) :=
        inOrder_of_pairwise (Keyset.pairwise_scan hpos hnodup)
      have hkept := InOrder.nodup (List.Pairwise.filter parses horder)
      rw [hreturned, List.map_map]
      exact hkept
    · intro hend e hparses hshows
      have hkey : ∀ rows ∈ (selectedRows q fetches).take (Keyset.scan rowKey limit none
          (selectedRows q fetches)).1.length, ∃ row ∈ rows,
            rowKey row = cursorKey (e.createdAt, e.id) := by
        intro rows hrows
        rw [← hlength, selectedRows, ← List.map_take] at hrows
        obtain ⟨f, hf, rfl⟩ := List.mem_map.1 hrows
        obtain ⟨row, hrow, rfl⟩ := List.mem_map.1 ((mem_selected_iff _ q e).2 (hshows f hf))
        exact ⟨row, hrow, rfl⟩
      obtain ⟨rows, hrows, row, hrow, hrowKey, hpage⟩ :=
        Keyset.mem_scan hpos hnodup hend (fun c hc => by cases hc) hkey
      rw [← hlength, selectedRows, ← List.map_take] at hrows
      obtain ⟨f, hf, rfl⟩ := List.mem_map.1 hrows
      have heq := eq_of_shows (hshows f hf) hrow hrowKey
      rw [hreturned]
      refine List.mem_map_of_mem (List.mem_filter.2 ⟨?_, hparses⟩)
      rw [← heq]
      exact List.mem_map_of_mem hpage

end

/-! ## Two events of one second -/

namespace Toy

def row (id : EventId) : Row where
  communityId := ⟨0⟩
  id := id
  createdAt := 5
  deleted := false
  channelId := some 0
  kind := 9
  pubkey := 0
  tags := .arr []
  content := []
  sig := []
  receivedAt := 5

def tables : Tables where
  events := [row 2, row 1]
  threads := []
  eventKey := by decide
  threadKey := by decide
  kinds := by simp [row]

def query : WindowQuery := ⟨⟨0⟩, 0, none⟩

def fetches : List Fetch := List.replicate 3 ⟨tables, fun _ => []⟩

theorem shows_row : tables.Shows query (row 1) :=
  ⟨by simp [tables], rfl, rfl, rfl, rfl, fun tm htm => by cases htm⟩

end Toy

theorem channelWindow_gapFree_toy :
    ∃ windows atEnd, scan (fun _ => true) Toy.query 1 none Toy.fetches = .ok (windows, atEnd) ∧
      ((returned windows).map fun e => (e.createdAt, e.id)).Nodup ∧
      (atEnd = true → (Toy.row 1).stored ∈ returned windows) := by
  obtain ⟨windows, atEnd, hscan, hnodup, hmem⟩ :=
    (channelWindow_gapFree (fun _ => true) Toy.query (Nat.le_refl 1)).2.2 Toy.fetches
  refine ⟨windows, atEnd, hscan, hnodup, fun hend => hmem hend (Toy.row 1) rfl fun f hf => ?_⟩
  rw [List.eq_of_mem_replicate (List.mem_of_mem_take hf)]
  exact Toy.shows_row

end Window
end Db
end Maju
