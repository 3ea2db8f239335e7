import Maju.Db.Threads.Metadata
import Maju.Lib.Counting

/-!
# Counters — the reply counters of thread rows are exact

* `Store.countOf` — the undeleted events whose row names an event as parent, or as root;
* `Proper` — an id names one event; a reply names a stored parent and a stored root with their
  times; a delete passes what the row of the event names;
* `Exact` — every counter is the number it counts, and no event has two rows;
* `thread_counters_exact` — along every proper history the counters are exact, no decrement is
  clamped, and what a row names stays as it was.
-/

namespace Maju
namespace Db
namespace Threads

open Lib Core

/-! ## What the counters count -/

/-- The two events that a row names. -/
inductive Link where
  | parent
  | root
  deriving DecidableEq, Repr

def ThreadRow.link (t : ThreadRow) : Link → Option EventId
  | .parent => t.parentEventId
  | .root => t.rootEventId

def ThreadRow.count (t : ThreadRow) : Link → Int
  | .parent => t.replyCount
  | .root => t.descendantCount

/-- The row of an event names another event. -/
def named (threads : List ThreadRow) (l : Link) (key : CommunityId × EventId) (id : EventId) : Bool :=
  threads.any fun t => t.key = key && t.link l = some id

/-- The undeleted events whose row names an event. -/
def Store.countOf (s : Store) (l : Link) (key : CommunityId × EventId) : Nat :=
  s.events.countP fun e => !e.deleted && (decide (e.communityId = key.1) && named s.threads l e.key key.2)

structure Exact (s : Store) : Prop where
  replies : ∀ t ∈ s.threads, t.replyCount = s.countOf .parent t.key
  descendants : ∀ t ∈ s.threads, t.descendantCount = s.countOf .root t.key
  single : (s.threads.map ThreadRow.key).Nodup

/-- What a row says besides its counters. -/
def ThreadRow.shape (t : ThreadRow) : ThreadRow :=
  { t with replyCount := 0, descendantCount := 0, lastReplyAt := none }

/-- `get_thread_metadata_by_event`, by the event that the row names. -/
def Store.storedLink (s : Store) (l : Link) (key : CommunityId × EventId) : Option EventId :=
  (s.threads.find? fun t => t.key = key).bind (·.link l)

/-- The event was committed, and this is its time. -/
def Store.Committed (s : Store) (key : CommunityId × EventId) (createdAt : Option Int) : Prop :=
  ∃ e ∈ s.events, e.key = key ∧ createdAt = some e.createdAt

instance (s : Store) (key : CommunityId × EventId) (createdAt : Option Int) :
    Decidable (s.Committed key createdAt) :=
  inferInstanceAs (Decidable (∃ e ∈ s.events, e.key = key ∧ createdAt = some e.createdAt))

/-- The metadata of an event that is to be stored; a reply has a parent and a root. -/
structure ThreadMetadataParams.Proper (m : ThreadMetadataParams) (s : Store)
    (communityId : CommunityId) (event : Event) : Prop where
  eventId : m.eventId = event.id
  eventCreatedAt : some m.eventCreatedAt = fromTimestamp (asI64 event.createdAt)
  rooted : m.rootEventId ≠ none → m.parentEventId ≠ none
  parent : ∀ id, m.parentEventId = some id → s.Committed (communityId, id) m.parentEventCreatedAt
  root : ∀ id, m.rootEventId = some id → s.Committed (communityId, id) m.rootEventCreatedAt

def Proper (s : Store) : Input → Prop
  | .insert communityId event threadMeta _ =>
      (∀ e ∈ s.events, e.key = (communityId, event.id) →
        some e.createdAt = fromTimestamp (asI64 event.createdAt)) ∧
      ∀ m, threadMeta = some m → m.Proper s communityId event
  | .softDelete communityId eventId parentEventId rootEventId =>
      parentEventId = s.storedLink .parent (communityId, eventId) ∧
        rootEventId = s.storedLink .root (communityId, eventId)

theorem forall_some_iff_all {α : Type} (o : Option α) (p : α → Bool) :
    (∀ x, o = some x → p x = true) ↔ o.all p = true := by
  cases o <;> simp

instance (m : ThreadMetadataParams) (s : Store) (communityId : CommunityId) (event : Event) :
    Decidable (m.Proper s communityId event) :=
  decidable_of_iff
    (m.eventId = event.id ∧ some m.eventCreatedAt = fromTimestamp (asI64 event.createdAt) ∧
      (m.rootEventId ≠ none → m.parentEventId ≠ none) ∧
      m.parentEventId.all (fun id =>
        decide (s.Committed (communityId, id) m.parentEventCreatedAt)) = true ∧
      m.rootEventId.all (fun id =>
        decide (s.Committed (communityId, id) m.rootEventCreatedAt)) = true)
    (by
      simp only [← forall_some_iff_all, decide_eq_true_eq]
      exact ⟨fun ⟨h₁, h₂, h₃, h₄, h₅⟩ => ⟨h₁, h₂, h₃, h₄, h₅⟩,
        fun h => ⟨h.eventId, h.eventCreatedAt, h.rooted, h.parent, h.root⟩⟩)

instance (s : Store) : (input : Input) → Decidable (Proper s input)
  | .insert communityId event threadMeta _ =>
      decidable_of_iff
        ((∀ e ∈ s.events, e.key = (communityId, event.id) →
            some e.createdAt = fromTimestamp (asI64 event.createdAt)) ∧
          threadMeta.all (fun m => decide (m.Proper s communityId event)) = true)
        (by simp only [← forall_some_iff_all, decide_eq_true_eq, Proper])
  | .softDelete communityId eventId parentEventId rootEventId =>
      inferInstanceAs (Decidable (parentEventId = s.storedLink .parent (communityId, eventId) ∧
        rootEventId = s.storedLink .root (communityId, eventId)))

/-- `GREATEST` takes the difference in every row that the input updates. -/
def Unclamped (s : Store) : Input → Prop
  | .insert _ _ _ _ => True
  | .softDelete communityId eventId parentEventId rootEventId =>
      s.events.any (·.live (communityId, eventId)) = true → ∀ t ∈ s.threads,
        t.communityId = communityId → parentEventId ≠ none →
          (parentEventId = some t.eventId → 0 ≤ t.replyCount - 1) ∧
            (rootEventId = some t.eventId → 0 ≤ t.descendantCount - 1)

/-! ## Rows and keys -/

def HasRow (threads : List ThreadRow) (key : CommunityId × EventId) : Prop :=
  ∃ t ∈ threads, t.key = key

/-- Each event has one row, of its own time; a row with a root has a parent. -/
structure Table (events : List EventRow) (threads : List ThreadRow) : Prop where
  distinct : (events.map EventRow.key).Nodup
  single : (threads.map ThreadRow.key).Nodup
  known : ∀ t ∈ threads, ∃ e ∈ events, e.key = t.key ∧ e.createdAt = t.eventCreatedAt
  rooted : ∀ t ∈ threads, t.rootEventId ≠ none → t.parentEventId ≠ none

def Linked (threads : List ThreadRow) : Prop :=
  ∀ t ∈ threads, ∀ l id, t.link l = some id → HasRow threads (t.communityId, id)

def Counts (threads : List ThreadRow) (f : Link → CommunityId × EventId → Int) : Prop :=
  ∀ t ∈ threads, ∀ l, t.count l = f l t.key

structure Inv (s : Store) : Prop where
  table : Table s.events s.threads
  linked : Linked s.threads
  counts : Counts s.threads fun l key => s.countOf l key

theorem inv_empty : Inv Store.empty where
  table :=
    { distinct := .nil
      single := .nil
      known := fun _ ht => absurd ht List.not_mem_nil
      rooted := fun _ ht => absurd ht List.not_mem_nil }
  linked := fun _ ht => absurd ht List.not_mem_nil
  counts := fun _ ht => absurd ht List.not_mem_nil

theorem Inv.exact {s : Store} (h : Inv s) : Exact s where
  replies := fun t ht => h.counts t ht .parent
  descendants := fun t ht => h.counts t ht .root
  single := h.table.single

/-! ## Statements -/

theorem Table.insertThread_cases {events : List EventRow} {threads : List ThreadRow}
    (h : Table events threads) {t : ThreadRow} {e : EventRow} (he : e ∈ events)
    (hkey : e.key = t.key) (htime : e.createdAt = t.eventCreatedAt) :
    (HasRow threads t.key ∧ insertThread threads t = (threads, false)) ∨
      (¬ HasRow threads t.key ∧ insertThread threads t = (threads ++ [t], true)) := by
  by_cases hrow : HasRow threads t.key
  · refine Or.inl ⟨hrow, if_pos ?_⟩
    obtain ⟨r, hr, hrkey⟩ := hrow
    -- Both rows are of the stored event, so their times agree.
    obtain ⟨e', he', hkey', htime'⟩ := h.known r hr
    obtain rfl : e' = e :=
      List.inj_on_of_nodup_map h.distinct he' he (hkey'.trans (hrkey.trans hkey.symm))
    rw [List.any_eq_true]
    exact ⟨r, hr, by simp [hrkey, ← htime', htime]⟩
  · refine Or.inr ⟨hrow, if_neg ?_⟩
    rw [List.any_eq_true]
    rintro ⟨r, hr, hmatch⟩
    simp only [Bool.and_eq_true, decide_eq_true_eq] at hmatch
    exact hrow ⟨r, hr, hmatch.1⟩

theorem Table.append {events : List EventRow} {threads : List ThreadRow} (h : Table events threads)
    {t : ThreadRow} {e : EventRow} (he : e ∈ events) (hkey : e.key = t.key)
    (htime : e.createdAt = t.eventCreatedAt) (hrow : ¬ HasRow threads t.key)
    (hrooted : t.rootEventId ≠ none → t.parentEventId ≠ none) : Table events (threads ++ [t]) where
  distinct := h.distinct
  single := by
    rw [List.map_append, List.map_singleton, List.nodup_append]
    refine ⟨h.single, List.nodup_singleton _, ?_⟩
    intro key hmem _ hnew heq
    obtain ⟨r, hr, rfl⟩ := List.mem_map.mp hmem
    exact hrow ⟨r, hr, heq.trans (List.mem_singleton.mp hnew)⟩
  known := by
    intro r hr
    rcases List.mem_append.mp hr with hold | hnew
    · exact h.known r hold
    · obtain rfl := List.mem_singleton.mp hnew
      exact ⟨e, he, hkey, htime⟩
  rooted := by
    intro r hr
    rcases List.mem_append.mp hr with hold | hnew
    · exact h.rooted r hold
    · obtain rfl := List.mem_singleton.mp hnew
      exact hrooted

/-! ## Shapes -/

@[simp] theorem ThreadRow.shape_key (t : ThreadRow) : t.shape.key = t.key := rfl

@[simp] theorem ThreadRow.shape_link (t : ThreadRow) (l : Link) : t.shape.link l = t.link l := by
  cases l <;> rfl

/-- Rows of the same shapes, and stub rows after them. -/
def Grows (threads threads' : List ThreadRow) : Prop :=
  ∃ stubs : List ThreadRow, threads'.map ThreadRow.shape = threads.map ThreadRow.shape ++ stubs ∧
    ∀ t ∈ stubs, ∀ l, t.link l = none

theorem Grows.refl (threads : List ThreadRow) : Grows threads threads :=
  ⟨[], (List.append_nil _).symm, fun _ ht => absurd ht List.not_mem_nil⟩

theorem Grows.trans {a b c : List ThreadRow} (hab : Grows a b) (hbc : Grows b c) : Grows a c := by
  obtain ⟨stubs, hb, hstubs⟩ := hab
  obtain ⟨stubs', hc, hstubs'⟩ := hbc
  refine ⟨stubs ++ stubs', ?_, ?_⟩
  · rw [hc, hb, List.append_assoc]
  · intro t ht
    rcases List.mem_append.mp ht with h | h
    · exact hstubs t h
    · exact hstubs' t h

theorem named_eq_shape (threads : List ThreadRow) (l : Link) (key : CommunityId × EventId)
    (id : EventId) : named threads l key id = named (threads.map ThreadRow.shape) l key id := by
  unfold named
  rw [List.any_map]
  cases l <;> rfl

theorem Grows.named_eq {threads threads' : List ThreadRow} (h : Grows threads threads') (l : Link)
    (key : CommunityId × EventId) (id : EventId) :
    named threads' l key id = named threads l key id := by
  obtain ⟨stubs, hshape, hstubs⟩ := h
  rw [named_eq_shape threads', hshape, named_eq_shape threads]
  unfold named
  rw [List.any_append]
  have hnone : (stubs.any fun t => t.key = key && t.link l = some id) = false := by
    rw [List.any_eq_false]
    intro t ht
    simp [hstubs t ht l]
  rw [hnone, Bool.or_false]

theorem Grows.mem_cases {threads threads' : List ThreadRow} (h : Grows threads threads')
    {t : ThreadRow} (ht : t ∈ threads') :
    (∃ r ∈ threads, r.shape = t.shape) ∨ ∀ l, t.link l = none := by
  obtain ⟨stubs, hshape, hstubs⟩ := h
  have hmem : t.shape ∈ threads.map ThreadRow.shape ++ stubs := hshape ▸ List.mem_map_of_mem ht
  rcases List.mem_append.mp hmem with hold | hnew
  · obtain ⟨r, hr, heq⟩ := List.mem_map.mp hold
    exact Or.inl ⟨r, hr, heq⟩
  · exact Or.inr fun l => (t.shape_link l).symm.trans (hstubs _ hnew l)

theorem Grows.hasRow {threads threads' : List ThreadRow} (h : Grows threads threads')
    {key : CommunityId × EventId} (hrow : HasRow threads key) : HasRow threads' key := by
  obtain ⟨stubs, hshape, -⟩ := h
  obtain ⟨r, hr, hkey⟩ := hrow
  have hmem : r.shape ∈ threads'.map ThreadRow.shape :=
    hshape ▸ List.mem_append_left _ (List.mem_map_of_mem hr)
  obtain ⟨t, ht, heq⟩ := List.mem_map.mp hmem
  have hsame : t.key = r.key := by rw [← t.shape_key, heq, r.shape_key]
  exact ⟨t, ht, hsame.trans hkey⟩

theorem ThreadRow.link_eq_of_shape {t r : ThreadRow} (h : r.shape = t.shape) (l : Link) :
    t.link l = r.link l := by
  rw [← t.shape_link, ← h, r.shape_link]

theorem ThreadRow.key_eq_of_shape {t r : ThreadRow} (h : r.shape = t.shape) : t.key = r.key := by
  rw [← t.shape_key, ← h, r.shape_key]

theorem Grows.linked {threads threads' : List ThreadRow} (h : Grows threads threads')
    (hlinked : ∀ t ∈ threads, ∀ l id, t.link l = some id → HasRow threads' (t.communityId, id)) :
    Linked threads' := by
  intro t ht l id hlink
  rcases h.mem_cases ht with ⟨r, hr, hshape⟩ | hnone
  · have hcommunity : t.communityId = r.communityId :=
      congrArg Prod.fst (ThreadRow.key_eq_of_shape hshape)
    rw [hcommunity]
    exact hlinked r hr l id ((ThreadRow.link_eq_of_shape hshape l).symm.trans hlink)
  · exact nomatch (hnone l).symm.trans hlink

theorem Table.of_shape {events : List EventRow} {threads threads' : List ThreadRow}
    (h : Table events threads) (hshape : threads'.map ThreadRow.shape = threads.map ThreadRow.shape) :
    Table events threads' := by
  have hmem {t : ThreadRow} (ht : t ∈ threads') : ∃ r ∈ threads, r.shape = t.shape :=
    List.mem_map.mp (hshape ▸ List.mem_map_of_mem ht)
  refine ⟨h.distinct, ?_, ?_, ?_⟩
  · have hkeys : threads'.map ThreadRow.key = threads.map ThreadRow.key := by
      have hcongr := congrArg (List.map ThreadRow.key) hshape
      simpa [List.map_map, Function.comp_def] using hcongr
    rw [hkeys]
    exact h.single
  · intro t ht
    obtain ⟨r, hr, heq⟩ := hmem ht
    obtain ⟨e, he, hkey, htime⟩ := h.known r hr
    have htimes : r.eventCreatedAt = t.eventCreatedAt := (ThreadRow.mk.inj heq).2.1
    exact ⟨e, he, hkey.trans (ThreadRow.key_eq_of_shape heq).symm, htime.trans htimes⟩
  · intro t ht hroot
    obtain ⟨r, hr, heq⟩ := hmem ht
    have hparent : t.parentEventId = r.parentEventId := ThreadRow.link_eq_of_shape heq .parent
    have hsame : t.rootEventId = r.rootEventId := ThreadRow.link_eq_of_shape heq .root
    rw [hparent]
    rw [hsame] at hroot
    exact h.rooted r hr hroot

theorem Table.stub {events : List EventRow} {threads : List ThreadRow} (h : Table events threads)
    {communityId : CommunityId} {createdAt : Int} {id : EventId} (channelId : Uuid) {e : EventRow}
    (he : e ∈ events) (hkey : e.key = (communityId, id)) (htime : e.createdAt = createdAt)
    {f : Link → CommunityId × EventId → Int} (hcounts : Counts threads f)
    (hzero : ¬ HasRow threads (communityId, id) → ∀ l, f l (communityId, id) = 0) :
    let threads' := (insertThread threads (.stub communityId createdAt id channelId)).1
    Table events threads' ∧ Counts threads' f ∧ Grows threads threads' ∧
      HasRow threads' (communityId, id) := by
  rcases h.insertThread_cases (t := .stub communityId createdAt id channelId) he hkey htime with
    ⟨hrow, heq⟩ | ⟨hrow, heq⟩
  · simp only [heq]
    exact ⟨h, hcounts, .refl _, hrow⟩
  · simp only [heq]
    refine ⟨h.append he hkey htime hrow fun hroot => absurd rfl hroot, ?_, ?_, ?_⟩
    · intro t ht l
      rcases List.mem_append.mp ht with hold | hnew
      · exact hcounts t hold l
      · obtain rfl := List.mem_singleton.mp hnew
        rw [show (ThreadRow.stub communityId createdAt id channelId).key = (communityId, id) from rfl,
          hzero hrow l]
        cases l <;> rfl
    · refine ⟨[.stub communityId createdAt id channelId], ?_, ?_⟩
      · rw [List.map_append]
        rfl
      · intro t ht l
        obtain rfl := List.mem_singleton.mp ht
        cases l <;> rfl
    · exact ⟨_, List.mem_append_right _ (List.mem_singleton_self _), rfl⟩

theorem map_shape_updateThread (threads : List ThreadRow) (key : CommunityId × EventId)
    {f : ThreadRow → ThreadRow} (hf : ∀ t, (f t).shape = t.shape) :
    (updateThread threads key f).map ThreadRow.shape = threads.map ThreadRow.shape := by
  unfold updateThread
  rw [List.map_map]
  refine List.map_congr_left fun t _ => ?_
  simp only [Function.comp_apply]
  split
  · exact hf t
  · rfl

theorem Grows.of_shape {threads threads' : List ThreadRow}
    (h : threads'.map ThreadRow.shape = threads.map ThreadRow.shape) : Grows threads threads' :=
  ⟨[], by rw [h, List.append_nil], fun _ ht => absurd ht List.not_mem_nil⟩

theorem Counts.updateThread {threads : List ThreadRow} {f : Link → CommunityId × EventId → Int}
    (h : Counts threads f) (key : CommunityId × EventId) {g : ThreadRow → ThreadRow}
    (hshape : ∀ t, (g t).shape = t.shape) {l : Link} {d : Int}
    (hg : ∀ t ∈ threads, t.key = key → ∀ k, (g t).count k = t.count k + if k = l then d else 0) :
    Counts (updateThread threads key g)
      fun k key' => f k key' + if k = l ∧ key' = key then d else 0 := by
  intro t ht k
  obtain ⟨r, hr, heq⟩ := List.mem_map.mp ht
  split at heq
  next hkey =>
    subst heq
    rw [hg r hr hkey k, h r hr k, ThreadRow.key_eq_of_shape (hshape r).symm]
    simp [hkey]
  next hkey =>
    subst heq
    rw [h r hr k]
    simp [hkey]

/-! ## A reply is counted -/

theorem ThreadRow.addReply_shape (now : Int) (t : ThreadRow) : (t.addReply now).shape = t.shape := rfl

theorem ThreadRow.addReply_count (now : Int) (t : ThreadRow) (k : Link) :
    (t.addReply now).count k = t.count k + if k = .parent then 1 else 0 := by
  cases k <;> simp [addReply, count]

theorem ThreadRow.addDescendant_shape (t : ThreadRow) : t.addDescendant.shape = t.shape := rfl

theorem ThreadRow.addDescendant_count (t : ThreadRow) (k : Link) :
    t.addDescendant.count k = t.count k + if k = .root then 1 else 0 := by
  cases k <;> simp [addDescendant, count]

/-- One for the events that a row names. -/
def ThreadRow.share (t : ThreadRow) (l : Link) (key : CommunityId × EventId) : Int :=
  if t.communityId = key.1 ∧ t.link l = some key.2 then 1 else 0

theorem ThreadRow.share_eq {t : ThreadRow} {l : Link} {id : EventId} (h : t.link l = some id)
    (key : CommunityId × EventId) : t.share l key = if key = (t.communityId, id) then 1 else 0 := by
  unfold share
  refine if_congr ?_ rfl rfl
  rw [h, Prod.ext_iff, Option.some.injEq]
  exact and_congr eq_comm eq_comm

theorem ThreadRow.share_eq_zero {t : ThreadRow} {l : Link} (h : t.link l = none)
    (key : CommunityId × EventId) : t.share l key = 0 := by
  simp [share, h]

section Counted

variable {events : List EventRow} {threads : List ThreadRow} {communityId : CommunityId}
  {m : ThreadMetadataParams} {f : Link → CommunityId × EventId → Int}

/-- What `countReply` leaves behind: the counters of the named events are one higher. -/
structure Counted (events : List EventRow) (threads threads' : List ThreadRow) (t : ThreadRow)
    (f : Link → CommunityId × EventId → Int) : Prop where
  table : Table events threads'
  counts : Counts threads' fun l key => f l key + t.share l key
  grows : Grows threads threads'
  hasRow : ∀ l id, t.link l = some id → HasRow threads' (t.communityId, id)

theorem Table.countReply (h : Table events threads) (hcounts : Counts threads f)
    (hparent : ∀ id, m.parentEventId = some id →
      ∃ e ∈ events, e.key = (communityId, id) ∧ m.parentEventCreatedAt = some e.createdAt)
    (hroot : ∀ id, m.rootEventId = some id →
      ∃ e ∈ events, e.key = (communityId, id) ∧ m.rootEventCreatedAt = some e.createdAt)
    (hrooted : m.rootEventId ≠ none → m.parentEventId ≠ none)
    (hzero : ∀ key, ¬ HasRow threads key → ∀ l, f l key = 0) (now : Int) :
    Counted events threads (countReply threads communityId m now) (m.row communityId) f := by
  unfold Threads.countReply
  cases hp : m.parentEventId with
  | none =>
      have hr : m.rootEventId = none := by
        by_contra hne
        exact hrooted hne hp
      have hnone (l : Link) : (m.row communityId).link l = none := by
        cases l
        · exact hp
        · exact hr
      refine ⟨h, ?_, .refl _, fun l id hlink => nomatch (hnone l).symm.trans hlink⟩
      intro t ht l
      have hzero := ThreadRow.share_eq_zero (hnone l) t.key
      exact (hcounts t ht l).trans (by simp only [hzero, add_zero])
  | some parent =>
      obtain ⟨e, he, hkey, htime⟩ := hparent parent hp
      obtain ⟨htable, hcounts, hgrows, hrow⟩ :=
        h.stub m.channelId he hkey rfl hcounts (hzero (communityId, parent))
      simp only [htime, Option.getD_some]
      generalize hstub : (insertThread threads
        (.stub communityId e.createdAt parent m.channelId)).1 = threads' at *
      have hlinkp : (m.row communityId).link .parent = some parent := hp
      have hsharep (key : CommunityId × EventId) : (m.row communityId).share .parent key =
          if key = (communityId, parent) then 1 else 0 := ThreadRow.share_eq hlinkp key
      cases hr : m.rootEventId with
      | none =>
          have hlinkr : (m.row communityId).link .root = none := hr
          have hshape := map_shape_updateThread threads' (communityId, parent)
            (ThreadRow.addReply_shape now)
          refine ⟨htable.of_shape hshape, ?_, hgrows.trans (.of_shape hshape), ?_⟩
          · have hupdated := hcounts.updateThread (communityId, parent)
              (ThreadRow.addReply_shape now) (fun t _ _ => t.addReply_count now)
            intro t ht l
            rw [hupdated t ht l]
            cases l with
            | parent => simp [hsharep]
            | root => simp [ThreadRow.share_eq_zero hlinkr]
          · intro l id hlink
            cases l with
            | parent =>
                obtain rfl : parent = id := Option.some.inj (hlinkp.symm.trans hlink)
                exact (Grows.of_shape hshape).hasRow hrow
            | root => exact nomatch hlinkr.symm.trans hlink
      | some root =>
          have hlinkr : (m.row communityId).link .root = some root := hr
          have hsharer (key : CommunityId × EventId) : (m.row communityId).share .root key =
              if key = (communityId, root) then 1 else 0 := ThreadRow.share_eq hlinkr key
          obtain ⟨e', he', hkey', htime'⟩ := hroot root hr
          -- The row of the root is there, whether or not it is the parent's.
          have hrootRow : ∃ rooted, rooted = (if root ≠ parent then
                (insertThread threads' (.stub communityId e'.createdAt root m.channelId)).1
              else threads') ∧ Table events rooted ∧ Counts rooted f ∧ Grows threads' rooted ∧
                HasRow rooted (communityId, root) := by
            by_cases hne : root = parent
            · subst hne
              exact ⟨threads', by simp, htable, hcounts, .refl _, hrow⟩
            · refine ⟨_, (if_pos hne).symm, htable.stub m.channelId he' hkey' rfl hcounts ?_⟩
              exact fun hno => hzero _ fun hyes => hno (hgrows.hasRow hyes)
          obtain ⟨rooted, hrootedEq, htable', hcounts', hgrows', hrow'⟩ := hrootRow
          simp only [htime', Option.getD_some, ← hrootedEq]
          have hshape := map_shape_updateThread rooted (communityId, parent)
            (ThreadRow.addReply_shape now)
          have hshape' := map_shape_updateThread
            (updateThread rooted (communityId, parent) (·.addReply now)) (communityId, root)
            ThreadRow.addDescendant_shape
          have hboth := hshape'.trans hshape
          refine ⟨htable'.of_shape hboth, ?_, (hgrows.trans hgrows').trans (.of_shape hboth), ?_⟩
          · have hupdated := (hcounts'.updateThread (communityId, parent)
              (ThreadRow.addReply_shape now) (fun t _ _ => t.addReply_count now)).updateThread
              (communityId, root) ThreadRow.addDescendant_shape (fun t _ _ => t.addDescendant_count)
            intro t ht l
            rw [hupdated t ht l]
            cases l with
            | parent => simp [hsharep]
            | root => simp [hsharer]
          · intro l id hlink
            cases l with
            | parent =>
                obtain rfl : parent = id := Option.some.inj (hlinkp.symm.trans hlink)
                exact (Grows.of_shape hboth).hasRow (hgrows'.hasRow hrow)
            | root =>
                obtain rfl : root = id := Option.some.inj (hlinkr.symm.trans hlink)
                exact (Grows.of_shape hboth).hasRow hrow'

end Counted

/-! ## Steps -/

theorem Inv.countOf_eq_zero {s : Store} (h : Inv s) {key : CommunityId × EventId}
    (hrow : ¬ HasRow s.threads key) (l : Link) : s.countOf l key = 0 := by
  unfold Store.countOf
  rw [List.countP_eq_zero]
  intro e _ hcounted
  simp only [Bool.and_eq_true, decide_eq_true_eq, named, List.any_eq_true] at hcounted
  obtain ⟨-, hcommunity, t, ht, hkey, hlink⟩ := hcounted
  have hsame : t.communityId = key.1 := (congrArg Prod.fst hkey).trans hcommunity
  have hnamed := h.linked t ht l key.2 hlink
  rw [hsame] at hnamed
  exact hrow hnamed

theorem named_append (threads : List ThreadRow) (t : ThreadRow) (l : Link)
    (key : CommunityId × EventId) (id : EventId) :
    named (threads ++ [t]) l key id =
      (named threads l key id || (decide (t.key = key) && decide (t.link l = some id))) := by
  simp [named]

theorem named_eq_false {threads : List ThreadRow} {key : CommunityId × EventId}
    (h : ¬ HasRow threads key) (l : Link) (id : EventId) : named threads l key id = false := by
  unfold named
  rw [List.any_eq_false]
  intro t ht hmatch
  simp only [Bool.and_eq_true, decide_eq_true_eq] at hmatch
  exact h ⟨t, ht, hmatch.1⟩

section Insert

variable {s : Store} {e : EventRow}

theorem Inv.not_hasRow (h : Inv s) (hnew : ∀ r ∈ s.events, r.key ≠ e.key) :
    ¬ HasRow s.threads e.key := by
  rintro ⟨t, ht, hkey⟩
  obtain ⟨r, hr, hrkey, -⟩ := h.table.known t ht
  exact hnew r hr (hrkey.trans hkey)

theorem Table.insertEvent {events : List EventRow} {threads : List ThreadRow}
    (h : Table events threads) (hnew : ∀ r ∈ events, r.key ≠ e.key) :
    Table (events ++ [e]) threads where
  distinct := by
    rw [List.map_append, List.map_singleton, List.nodup_append]
    refine ⟨h.distinct, List.nodup_singleton _, ?_⟩
    intro key hmem _ hsingle
    obtain ⟨r, hr, rfl⟩ := List.mem_map.mp hmem
    obtain rfl := List.mem_singleton.mp hsingle
    exact hnew r hr
  single := h.single
  known := by
    intro t ht
    obtain ⟨r, hr, hfacts⟩ := h.known t ht
    exact ⟨r, List.mem_append_left _ hr, hfacts⟩
  rooted := h.rooted

theorem Inv.insert_plain (h : Inv s) (hnew : ∀ r ∈ s.events, r.key ≠ e.key) :
    Inv ⟨s.events ++ [e], s.threads⟩ where
  table := h.table.insertEvent hnew
  linked := h.linked
  counts := by
    intro t ht l
    rw [h.counts t ht l]
    simp [Store.countOf, List.countP_append, named_eq_false (h.not_hasRow hnew)]

theorem Inv.countOf_insert (h : Inv s) (hnew : ∀ r ∈ s.events, r.key ≠ e.key)
    (hlive : e.deleted = false) {t : ThreadRow} (hkey : t.key = e.key) {threads' : List ThreadRow}
    (hgrows : Grows (s.threads ++ [t]) threads') (l : Link) (key : CommunityId × EventId) :
    ((⟨s.events ++ [e], threads'⟩ : Store).countOf l key : Int) = s.countOf l key + t.share l key := by
  have hcommunity : e.communityId = t.communityId := (congrArg Prod.fst hkey).symm
  -- The row of the new event is the only new one that names anything.
  have hold : (s.events.countP fun r => !r.deleted && (decide (r.communityId = key.1) &&
      named threads' l r.key key.2)) = s.countOf l key := by
    refine List.countP_congr fun r hr => ?_
    rw [hgrows.named_eq, named_append, hkey, decide_eq_false (Ne.symm (hnew r hr)),
      Bool.false_and, Bool.or_false]
  have hnamed : named threads' l e.key key.2 = decide (t.link l = some key.2) := by
    rw [hgrows.named_eq, named_append, named_eq_false (h.not_hasRow hnew), hkey, Bool.false_or,
      decide_eq_true rfl, Bool.true_and]
  unfold Store.countOf at hold ⊢
  simp only [List.countP_append, hold, List.countP_singleton, hlive, hnamed, hcommunity,
    ThreadRow.share]
  simp

theorem Inv.insert_thread (h : Inv s) (hnew : ∀ r ∈ s.events, r.key ≠ e.key)
    (hlive : e.deleted = false) {communityId : CommunityId} {event : Event}
    {m : ThreadMetadataParams} (hm : m.Proper s communityId event) (hkey : e.key = (communityId, event.id))
    (htime : some e.createdAt = fromTimestamp (asI64 event.createdAt)) (now : Int) :
    Inv ⟨s.events ++ [e], insertThreadMetadata s.threads communityId m now⟩ ∧
      Grows (s.threads ++ [m.row communityId]) (insertThreadMetadata s.threads communityId m now) := by
  have hrowkey : (m.row communityId).key = e.key := by
    rw [hkey]
    exact congrArg (Prod.mk communityId) hm.eventId
  have htimes : e.createdAt = (m.row communityId).eventCreatedAt :=
    Option.some.inj (htime.trans hm.eventCreatedAt.symm)
  have hmem : e ∈ s.events ++ [e] := List.mem_append_right _ (List.mem_singleton_self e)
  have htable := h.table.insertEvent hnew
  have hno : ¬ HasRow s.threads (m.row communityId).key := hrowkey.symm ▸ h.not_hasRow hnew
  have hinsert : insertThread s.threads (m.row communityId) =
      (s.threads ++ [m.row communityId], true) := by
    rcases htable.insertThread_cases hmem hrowkey.symm htimes with ⟨hyes, -⟩ | ⟨-, heq⟩
    · exact absurd hyes hno
    · exact heq
  have hzero (key : CommunityId × EventId) (hkey : ¬ HasRow (s.threads ++ [m.row communityId]) key)
      (l : Link) : (s.countOf l key : Int) = 0 := by
    have hbefore : ¬ HasRow s.threads key := by
      rintro ⟨t, ht, htkey⟩
      exact hkey ⟨t, List.mem_append_left _ ht, htkey⟩
    exact congrArg Nat.cast (h.countOf_eq_zero hbefore l)
  have hcounts : Counts (s.threads ++ [m.row communityId]) fun l key => s.countOf l key := by
    intro t ht l
    rcases List.mem_append.mp ht with hold | hsingle
    · exact h.counts t hold l
    · obtain rfl := List.mem_singleton.mp hsingle
      have hcount : (m.row communityId).count l = 0 := by cases l <;> rfl
      exact hcount.trans (congrArg Nat.cast (h.countOf_eq_zero hno l)).symm
  have hstored {id : EventId} {createdAt : Option Int} (hcommitted : s.Committed (communityId, id) createdAt) :
      ∃ r ∈ s.events ++ [e], r.key = (communityId, id) ∧ createdAt = some r.createdAt := by
    obtain ⟨r, hr, hfacts⟩ := hcommitted
    exact ⟨r, List.mem_append_left _ hr, hfacts⟩
  have hcounted := (htable.append hmem hrowkey.symm htimes hno hm.rooted).countReply hcounts
    (fun id hid => hstored (hm.parent id hid)) (fun id hid => hstored (hm.root id hid))
    hm.rooted hzero now
  have hthreads : insertThreadMetadata s.threads communityId m now =
      countReply (s.threads ++ [m.row communityId]) communityId m now := by
    simp [insertThreadMetadata, hinsert]
  rw [hthreads]
  refine ⟨⟨hcounted.table, ?_, ?_⟩, hcounted.grows⟩
  · refine hcounted.grows.linked fun t ht l id hlink => ?_
    rcases List.mem_append.mp ht with hold | hsingle
    · refine hcounted.grows.hasRow ?_
      obtain ⟨r, hr, hrkey⟩ := h.linked t hold l id hlink
      exact ⟨r, List.mem_append_left _ hr, hrkey⟩
    · obtain rfl := List.mem_singleton.mp hsingle
      exact hcounted.hasRow l id hlink
  · intro t ht l
    exact (hcounted.counts t ht l).trans
      (h.countOf_insert hnew hlive hrowkey hcounted.grows l t.key).symm

end Insert

theorem ThreadRow.dropReply_shape (t : ThreadRow) : t.dropReply.shape = t.shape := rfl

theorem ThreadRow.dropDescendant_shape (t : ThreadRow) : t.dropDescendant.shape = t.shape := rfl

theorem ThreadRow.dropReply_count {t : ThreadRow} (h : 0 ≤ t.replyCount - 1) (k : Link) :
    t.dropReply.count k = t.count k + if k = .parent then -1 else 0 := by
  cases k with
  | parent =>
      simp only [dropReply, count, if_true]
      omega
  | root => simp [dropReply, count]

theorem ThreadRow.dropDescendant_count {t : ThreadRow} (h : 0 ≤ t.descendantCount - 1) (k : Link) :
    t.dropDescendant.count k = t.count k + if k = .root then -1 else 0 := by
  cases k with
  | parent => simp [dropDescendant, count]
  | root =>
      simp only [dropDescendant, count, if_true]
      omega

section Delete

variable {s : Store} {e : EventRow}

theorem Inv.named_iff (h : Inv s) (l : Link) (key : CommunityId × EventId) (id : EventId) :
    named s.threads l key id = true ↔ s.storedLink l key = some id := by
  unfold named Store.storedLink
  rw [List.any_eq_true, Option.bind_eq_some_iff]
  constructor
  · rintro ⟨t, ht, hmatch⟩
    simp only [Bool.and_eq_true, decide_eq_true_eq] at hmatch
    cases hfind : s.threads.find? fun t => t.key = key with
    | none => exact absurd (List.find?_eq_none.mp hfind t ht) (by simp [hmatch.1])
    | some r =>
        have hrkey : r.key = key := by simpa using List.find?_some hfind
        obtain rfl : r = t := List.inj_on_of_nodup_map h.table.single
          (List.mem_of_find?_eq_some hfind) ht (hrkey.trans hmatch.1.symm)
        exact ⟨r, rfl, hmatch.2⟩
  · rintro ⟨t, hfind, hlink⟩
    have hkey : t.key = key := by simpa using List.find?_some hfind
    exact ⟨t, List.mem_of_find?_eq_some hfind, by simp [hkey, hlink]⟩

/-- What the delete of an event takes from the counters. -/
def Store.forgone (s : Store) (e : EventRow) (l : Link) (key : CommunityId × EventId) : Nat :=
  if decide (e.communityId = key.1) && named s.threads l e.key key.2 then 1 else 0

def deleteEvent (events : List EventRow) (key : CommunityId × EventId) : List EventRow :=
  events.map fun e => if e.live key then { e with deleted := true } else e

theorem map_key_deleteEvent (events : List EventRow) (key : CommunityId × EventId) :
    (deleteEvent events key).map EventRow.key = events.map EventRow.key := by
  unfold deleteEvent
  rw [List.map_map]
  refine List.map_congr_left fun e _ => ?_
  simp only [Function.comp_apply]
  split <;> rfl

theorem Inv.countOf_delete (h : Inv s) (he : e ∈ s.events) (hlive : e.deleted = false)
    {threads' : List ThreadRow} (hgrows : Grows s.threads threads') (l : Link)
    (key : CommunityId × EventId) :
    (⟨deleteEvent s.events e.key, threads'⟩ : Store).countOf l key + s.forgone e l key =
      s.countOf l key := by
  let q : EventRow → Bool := fun r => decide (r.communityId = key.1) && named s.threads l r.key key.2
  have hbefore : s.countOf l key = s.events.countP fun r => !r.deleted && q r := rfl
  -- Events with the key of `e` are `e`, and count before; the others count before and after.
  have hsplit : s.countOf l key =
      (s.events.countP fun r => decide (r.key = e.key) && (!r.deleted && q r)) +
        s.events.countP fun r => !decide (r.key = e.key) && (!r.deleted && q r) := by
    rw [hbefore, ← Counting.countP_or_of_disjoint]
    · refine List.countP_congr fun r _ => ?_
      cases decide (r.key = e.key) <;> simp
    · rintro r - ⟨hyes, hno⟩
      cases hkey : decide (r.key = e.key) <;> simp [hkey] at hyes hno
  have hone : (s.events.countP fun r => decide (r.key = e.key) && (!r.deleted && q r)) =
      s.forgone e l key := by
    rw [Counting.countP_key_eq EventRow.key h.table.distinct he]
    simp [hlive, Store.forgone, q]
  have hafter : (⟨deleteEvent s.events e.key, threads'⟩ : Store).countOf l key =
      s.events.countP fun r => !decide (r.key = e.key) && (!r.deleted && q r) := by
    unfold Store.countOf deleteEvent
    rw [List.countP_map]
    refine List.countP_congr fun r _ => ?_
    simp only [Function.comp_apply, hgrows.named_eq, EventRow.live]
    by_cases hkey : r.key = e.key
    · by_cases hdeleted : r.deleted = true <;> simp [hkey, hdeleted]
    · simp [hkey, q]
  rw [hsplit, hone, hafter, Nat.add_comm]

theorem Inv.forgone_eq (h : Inv s) {l : Link} {id : EventId} (hlink : s.storedLink l e.key = some id)
    (key : CommunityId × EventId) :
    s.forgone e l key = if key = (e.communityId, id) then 1 else 0 := by
  unfold Store.forgone
  refine if_congr ?_ rfl rfl
  rw [Bool.and_eq_true, decide_eq_true_eq, h.named_iff, hlink, Prod.ext_iff, Option.some.injEq]
  exact and_congr eq_comm eq_comm

theorem Inv.sub_forgone (h : Inv s) {l : Link} {id : EventId}
    (hlink : s.storedLink l e.key = some id) (n : Int) (key : CommunityId × EventId) :
    n - s.forgone e l key = n + if key = (e.communityId, id) then -1 else 0 := by
  rw [h.forgone_eq hlink]
  split <;> rfl

theorem Inv.forgone_eq_zero (h : Inv s) {l : Link} (hlink : s.storedLink l e.key = none)
    (key : CommunityId × EventId) : s.forgone e l key = 0 := by
  unfold Store.forgone
  refine if_neg ?_
  rw [Bool.and_eq_true, h.named_iff, hlink]
  exact fun hboth => nomatch hboth.2

theorem Inv.one_le_count (h : Inv s) (he : e ∈ s.events) (hlive : e.deleted = false) {l : Link}
    {id : EventId} (hlink : s.storedLink l e.key = some id) {t : ThreadRow} (ht : t ∈ s.threads)
    (hkey : t.key = (e.communityId, id)) : 0 ≤ t.count l - 1 := by
  have hdelete := h.countOf_delete he hlive (.refl s.threads) l t.key
  rw [h.forgone_eq hlink, if_pos hkey] at hdelete
  have hcount : t.count l = s.countOf l t.key := h.counts t ht l
  omega

theorem Inv.storedLink_root (h : Inv s) {key : CommunityId × EventId}
    (hparent : s.storedLink .parent key = none) : s.storedLink .root key = none := by
  unfold Store.storedLink at hparent ⊢
  cases hfind : s.threads.find? fun t => t.key = key with
  | none => rfl
  | some t =>
      rw [hfind] at hparent
      by_contra hroot
      exact h.table.rooted t (List.mem_of_find?_eq_some hfind) hroot hparent

theorem Inv.uncountReply (h : Inv s) (he : e ∈ s.events) (hlive : e.deleted = false) :
    let threads' := uncountReply s.threads e.communityId (s.storedLink .parent e.key)
      (s.storedLink .root e.key)
    threads'.map ThreadRow.shape = s.threads.map ThreadRow.shape ∧
      Counts threads' fun l key => s.countOf l key - s.forgone e l key := by
  unfold Threads.uncountReply
  cases hp : s.storedLink .parent e.key with
  | none =>
      refine ⟨rfl, fun t ht l => ?_⟩
      have hzero : s.forgone e l t.key = 0 := by
        cases l with
        | parent => exact h.forgone_eq_zero hp t.key
        | root => exact h.forgone_eq_zero (h.storedLink_root hp) t.key
      exact (h.counts t ht l).trans (by simp [hzero])
  | some parent =>
      have hshape := map_shape_updateThread s.threads (e.communityId, parent)
        ThreadRow.dropReply_shape
      have hreplies := h.counts.updateThread (e.communityId, parent) ThreadRow.dropReply_shape
        fun t ht hkey => ThreadRow.dropReply_count (h.one_le_count he hlive hp ht hkey)
      cases hr : s.storedLink .root e.key with
      | none =>
          refine ⟨hshape, fun t ht l => ?_⟩
          rw [hreplies t ht l]
          cases l with
          | parent => simp [h.sub_forgone hp]
          | root => simp [h.forgone_eq_zero hr]
      | some root =>
          have hshape' := map_shape_updateThread
            (updateThread s.threads (e.communityId, parent) (·.dropReply)) (e.communityId, root)
            ThreadRow.dropDescendant_shape
          refine ⟨hshape'.trans hshape, fun t ht l => ?_⟩
          have hboth := hreplies.updateThread (e.communityId, root) ThreadRow.dropDescendant_shape
            (l := .root) (d := -1) ?_
          · rw [hboth t ht l]
            cases l with
            | parent => simp [h.sub_forgone hp]
            | root => simp [h.sub_forgone hr]
          · intro u hu hkey
            refine ThreadRow.dropDescendant_count ?_
            -- The first update left the counter of the descendants alone.
            obtain ⟨r, hrmem, heq⟩ := List.mem_map.mp hu
            have hsame : r.key = u.key ∧ r.descendantCount = u.descendantCount := by
              subst heq
              split <;> exact ⟨rfl, rfl⟩
            rw [← hsame.2]
            exact h.one_le_count he hlive hr hrmem (hsame.1.trans hkey)

theorem Inv.delete (h : Inv s) (he : e ∈ s.events) (hlive : e.deleted = false) :
    Inv ⟨deleteEvent s.events e.key, Threads.uncountReply s.threads e.communityId
      (s.storedLink .parent e.key) (s.storedLink .root e.key)⟩ := by
  obtain ⟨hshape, hcounts⟩ := h.uncountReply he hlive
  have htable := h.table.of_shape hshape
  have hgrows := Grows.of_shape hshape
  refine ⟨⟨?_, htable.single, ?_, htable.rooted⟩, ?_, ?_⟩
  · rw [map_key_deleteEvent]
    exact htable.distinct
  · intro t ht
    obtain ⟨r, hr, hkey, htime⟩ := htable.known t ht
    refine ⟨_, List.mem_map_of_mem hr, ?_, ?_⟩
    · split <;> exact hkey
    · split <;> exact htime
  · exact hgrows.linked fun t ht l id hlink => hgrows.hasRow (h.linked t ht l id hlink)
  · intro t ht l
    have hdelete := h.countOf_delete he hlive hgrows l t.key
    have hcount := hcounts t ht l
    simp only at hcount ⊢
    omega

end Delete

/-! ## Histories -/

theorem insert_cases {s s' : Store} {communityId : CommunityId} {event : Event}
    {threadMeta : Option ThreadMetadataParams} {now : Int} {wasInserted : Bool}
    (h : insertEventWithThreadMetadata s communityId event threadMeta now = .ok (s', wasInserted)) :
    s' = s ∨ ∃ createdAt, fromTimestamp (asI64 event.createdAt) = some createdAt ∧
      (∀ r ∈ s.events, r.key = (communityId, event.id) → r.createdAt ≠ createdAt) ∧
      ((threadMeta = none ∧
          s' = ⟨s.events ++ [⟨communityId, event.id, createdAt, false⟩], s.threads⟩) ∨
        ∃ m, threadMeta = some m ∧
          s' = ⟨s.events ++ [⟨communityId, event.id, createdAt, false⟩],
            insertThreadMetadata s.threads communityId m now⟩) := by
  unfold insertEventWithThreadMetadata at h
  split at h
  next => exact nomatch h
  next =>
    split at h
    next => exact nomatch h
    next =>
      split at h
      next => exact nomatch h
      next createdAt htime =>
        by_cases hany : (s.events.any fun r =>
            r.key = (⟨communityId, event.id, createdAt, false⟩ : EventRow).key &&
              r.createdAt = createdAt) = true
        · simp only [insertEvent, hany, if_true] at h
          exact Or.inl (Prod.ext_iff.mp (Except.ok.inj h)).1.symm
        · simp only [insertEvent, hany] at h
          refine Or.inr ⟨createdAt, htime, ?_, ?_⟩
          · intro r hr hkey heq
            refine hany (List.any_eq_true.mpr ⟨r, hr, ?_⟩)
            rw [heq, decide_eq_true rfl, Bool.and_true]
            exact decide_eq_true hkey
          · cases threadMeta with
            | none => exact Or.inl ⟨rfl, (Prod.ext_iff.mp (Except.ok.inj h)).1.symm⟩
            | some m =>
                simp only [Bool.false_eq_true, if_false, if_true] at h
                split at h
                next => exact Or.inr ⟨m, rfl, (Prod.ext_iff.mp (Except.ok.inj h)).1.symm⟩
                next => exact nomatch h

theorem Inv.step {s : Store} (h : Inv s) {input : Input} (hinput : Proper s input) :
    Inv (s.step input) := by
  cases input with
  | insert communityId event threadMeta now =>
      obtain ⟨hsame, hmeta⟩ := hinput
      simp only [Store.step]
      split
      next s' wasInserted hok =>
        rcases insert_cases hok with rfl | ⟨createdAt, htime, hvacant, hcases⟩
        · exact h
        · -- An event with the id would be this event, and stored at its time.
          have hnew : ∀ r ∈ s.events,
              r.key ≠ (⟨communityId, event.id, createdAt, false⟩ : EventRow).key := by
            intro r hr hkey
            exact hvacant r hr hkey (Option.some.inj ((hsame r hr hkey).trans htime))
          rcases hcases with ⟨-, rfl⟩ | ⟨m, hm, rfl⟩
          · exact h.insert_plain hnew
          · exact (h.insert_thread hnew rfl (hmeta m hm) rfl htime.symm now).1
      next => exact h
  | softDelete communityId eventId parentEventId rootEventId =>
      obtain ⟨rfl, rfl⟩ := hinput
      simp only [Store.step, softDeleteEventAndUpdateThread]
      split
      next hany =>
        obtain ⟨e, he, hlive⟩ := List.any_eq_true.mp hany
        simp only [EventRow.live, Bool.and_eq_true, decide_eq_true_eq, Bool.not_eq_true'] at hlive
        obtain ⟨hkey, hundeleted⟩ := hlive
        obtain rfl : e.communityId = communityId := congrArg Prod.fst hkey
        rw [← hkey]
        exact h.delete he hundeleted
      next => exact h

theorem Inv.unclamped {s : Store} (h : Inv s) {input : Input} (hinput : Proper s input) :
    Unclamped s input := by
  cases input with
  | insert communityId event threadMeta now => trivial
  | softDelete communityId eventId parentEventId rootEventId =>
      obtain ⟨rfl, rfl⟩ := hinput
      intro hany t ht hcommunity _
      obtain ⟨e, he, hlive⟩ := List.any_eq_true.mp hany
      simp only [EventRow.live, Bool.and_eq_true, decide_eq_true_eq, Bool.not_eq_true'] at hlive
      obtain ⟨hkey, hundeleted⟩ := hlive
      have htkey (id : EventId) (hid : id = t.eventId) : t.key = (e.communityId, id) := by
        rw [show e.communityId = communityId from congrArg Prod.fst hkey, ← hcommunity, hid]
        rfl
      refine ⟨fun hlink => ?_, fun hlink => ?_⟩
      · exact h.one_le_count (l := .parent) he hundeleted (hkey ▸ hlink) ht (htkey _ rfl)
      · exact h.one_le_count (l := .root) he hundeleted (hkey ▸ hlink) ht (htkey _ rfl)

/-! ## Rows stay -/

/-- The rows before are rows after, but for their counters. -/
def Keeps (s s' : Store) : Prop :=
  s.threads.map ThreadRow.shape <+: s'.threads.map ThreadRow.shape

theorem insertThread_keeps (threads : List ThreadRow) (t : ThreadRow) :
    threads.map ThreadRow.shape <+: (insertThread threads t).1.map ThreadRow.shape := by
  unfold insertThread
  split
  · exact List.prefix_refl _
  · rw [List.map_append]
    exact List.prefix_append _ _

theorem updateThread_keeps (threads : List ThreadRow) (key : CommunityId × EventId)
    {f : ThreadRow → ThreadRow} (hf : ∀ t, (f t).shape = t.shape) :
    threads.map ThreadRow.shape <+: (updateThread threads key f).map ThreadRow.shape :=
  (map_shape_updateThread threads key hf).symm ▸ List.prefix_refl _

theorem countReply_keeps (threads : List ThreadRow) (communityId : CommunityId)
    (m : ThreadMetadataParams) (now : Int) :
    threads.map ThreadRow.shape <+: (countReply threads communityId m now).map ThreadRow.shape := by
  unfold countReply
  split
  · exact List.prefix_refl _
  next parent _ =>
    refine (insertThread_keeps threads (.stub communityId
      (m.parentEventCreatedAt.getD m.eventCreatedAt) parent m.channelId)).trans ?_
    simp only
    split
    · exact updateThread_keeps _ _ (ThreadRow.addReply_shape now)
    next root _ =>
      refine List.IsPrefix.trans ?_ (updateThread_keeps _ _ ThreadRow.addDescendant_shape)
      refine List.IsPrefix.trans ?_ (updateThread_keeps _ _ (ThreadRow.addReply_shape now))
      split
      · exact insertThread_keeps _ _
      · exact List.prefix_refl _

theorem step_keeps (s : Store) (input : Input) : Keeps s (s.step input) := by
  unfold Keeps
  cases input with
  | insert communityId event threadMeta now =>
      simp only [Store.step]
      split
      next s' wasInserted hok =>
        rcases insert_cases hok with rfl | ⟨createdAt, -, -, ⟨-, rfl⟩ | ⟨m, -, rfl⟩⟩
        · exact List.prefix_refl _
        · exact List.prefix_refl _
        · simp only [insertThreadMetadata]
          refine (insertThread_keeps s.threads (m.row communityId)).trans ?_
          split
          · exact countReply_keeps _ _ _ _
          · exact List.prefix_refl _
      next => exact List.prefix_refl _
  | softDelete communityId eventId parentEventId rootEventId =>
      simp only [Store.step, softDeleteEventAndUpdateThread]
      split
      · unfold uncountReply
        split
        · exact List.prefix_refl _
        next parent =>
          refine (updateThread_keeps s.threads (communityId, parent)
            ThreadRow.dropReply_shape).trans ?_
          simp only
          split
          · exact List.prefix_refl _
          · exact updateThread_keeps _ _ ThreadRow.dropDescendant_shape
      · exact List.prefix_refl _

theorem run_keeps (s : Store) (inputs : List Input) : Keeps s (Run.run Store.step s inputs) :=
  Run.invariant_of_step (Keeps s) (fun s' input hs => List.IsPrefix.trans hs (step_keeps s' input))
    (List.prefix_refl _) inputs

/-- Along every proper history the counters are exact; the next proper step clamps nothing; and
whatever comes later, the rows stay and keep what they name. -/
theorem thread_counters_exact (inputs : List Input)
    (h : Run.Along Proper Store.step Store.empty inputs) :
    Exact (Store.run inputs) ∧
      (∀ input, Proper (Store.run inputs) input → Unclamped (Store.run inputs) input) ∧
      ∀ later, Keeps (Store.run inputs) (Store.run (inputs ++ later)) := by
  have hinv : Inv (Store.run inputs) :=
    Run.invariant Inv (fun _ _ hs hinput => hs.step hinput) inv_empty h
  refine ⟨hinv.exact, fun input hinput => hinv.unclamped hinput, fun later => ?_⟩
  rw [Store.run, Store.run, Run.run_append]
  exact run_keeps _ later

namespace Sample

def community : CommunityId := ⟨1⟩

def message (id : EventId) : Event := ⟨id, 5, 100, 9, []⟩

/-- The reply `id` to `parent` in the thread of the message `1`. -/
def reply (id parent : EventId) (depth : Int) : Input :=
  .insert community (message id)
    (some ⟨id, 100, 4, some parent, some 100, some 1, some 100, depth, false⟩) 200

/-- A message with a reply that has a reply; the first reply is deleted, sent again, and deleted
again. -/
def history : List Input :=
  [.insert community (message 1) none 200, reply 2 1 1, reply 3 2 2,
    .softDelete community 2 (some 1) (some 1), reply 2 1 1,
    .softDelete community 2 (some 1) (some 1)]

end Sample

theorem thread_counters_exact_history :
    Run.Along Proper Store.step Store.empty Sample.history ∧
      (Store.run Sample.history).threads.map (fun t => (t.eventId, t.replyCount, t.descendantCount)) =
        [(2, 1, 0), (1, 0, 1), (3, 0, 0)] ∧
      Exact (Store.run Sample.history) := by
  have hproper : Run.Along Proper Store.step Store.empty Sample.history := by decide
  exact ⟨hproper, by decide, (thread_counters_exact Sample.history hproper).1⟩

end Threads
end Db
end Maju
