import Maju.Db.Reactions.Transactions

/-!
# Agreement — when reaction rows and reaction events agree

A row counts while it is active, and clients fetch the event it names.  The two tables agree as
long as no insertion revives a reaction, that is, commits an event that is stored as deleted: the
row becomes active and the event insert is ignored.

* `Inv` — an undeleted reaction event is the one that its row names, and an active row names an
  undeleted event or one whose deletion is half done;
* `Inv.step` — every step but a reviving one keeps it;
* `reactions_agree` — the agreement in every state reached without a reviving step;
* `replayed_disagrees` — a reviving step ends it.
-/

namespace Maju
namespace Db
namespace Reactions

open Lib Core

namespace Store

/-- The key of the row that an event belongs to. -/
def keyOf (w : World) (eventId : EventId) : Option RowKey :=
  (w eventId).reaction.map fun r => RowKey.ofReaction (w r.targetEventId).createdAt r

/-- An event is stored and not deleted. -/
def Live (s : Store) (eventId : EventId) : Prop :=
  ∃ row, s.events.lookup eventId = some row ∧ row.deleted = false

def Counts (s : Store) (key : RowKey) (eventId : EventId) : Prop :=
  s.reactions.lookup key = some ⟨eventId, false⟩

instance (s : Store) (key : RowKey) (eventId : EventId) : Decidable (s.Counts key eventId) :=
  inferInstanceAs (Decidable (_ = _))

def storedDeleted (s : Store) (eventId : EventId) : Bool :=
  (s.events.lookup eventId).any fun row => row.deleted

/-- The step commits an insertion of an event that is stored as deleted, under a row that is not
active. -/
def revives (s : Store) : Step → Bool
  | .finish i =>
      match s.begun[i]? with
      | none => false
      | some t => s.storedDeleted t.eventId && !active s.reactions t.key
  | _ => false

/-! ## The invariant -/

structure Inv (w : World) (s : Store) : Prop where
  times : ∀ (eventId : EventId) (row : EventRow),
    s.events.lookup eventId = some row → row.createdAt = (w eventId).createdAt
  begun : ∀ t ∈ s.begun, keyOf w t.eventId = some t.key
  rows : ∀ (key : RowKey) (eventId : EventId), s.Counts key eventId → keyOf w eventId = some key
  live : ∀ (eventId : EventId) (key : RowKey),
    s.Live eventId → keyOf w eventId = some key → s.Counts key eventId
  named : ∀ (key : RowKey) (eventId : EventId),
    s.Counts key eventId → s.Live eventId ∨ eventId ∈ s.deleting
  halves : ∀ eventId ∈ s.deleting, s.storedDeleted eventId = true ∧
    ∃ key, keyOf w eventId = some key ∧ s.Counts key eventId
  nodup : s.deleting.Nodup

theorem Inv.empty (w : World) : Inv w Store.empty where
  times := by simp [Store.empty]
  begun := by simp [Store.empty]
  rows := by simp [Store.empty, Counts]
  live := by simp [Store.empty, Live]
  named := by simp [Store.empty, Counts]
  halves := by simp [Store.empty]
  nodup := List.nodup_nil

variable {w : World} {s : Store}

theorem Live.not_storedDeleted {eventId : EventId} (h : s.Live eventId) :
    s.storedDeleted eventId = false := by
  obtain ⟨row, hrow, hlive⟩ := h
  simp [storedDeleted, hrow, hlive]

theorem live_of_mem {eventId : EventId} (hmem : eventId ∈ s.events)
    (hdel : s.storedDeleted eventId = false) : s.Live eventId := by
  obtain ⟨row, hrow⟩ := Option.isSome_iff_exists.1 (AList.lookup_isSome.2 hmem)
  refine ⟨row, hrow, ?_⟩
  simpa [storedDeleted, hrow] using hdel

theorem active_eq_true {key : RowKey} :
    active s.reactions key = true ↔ ∃ eventId, s.Counts key eventId := by
  unfold active Counts
  cases s.reactions.lookup key with
  | none => simp
  | some row =>
      cases row with
      | mk eventId removed => cases removed <;> simp

theorem Counts.active {key : RowKey} {eventId : EventId} (h : s.Counts key eventId) :
    Reactions.active s.reactions key = true :=
  active_eq_true.2 ⟨eventId, h⟩

theorem Inv.of_tables {s' : Store} (h : Inv w s) (hreactions : s'.reactions = s.reactions)
    (hdeleting : s'.deleting = s.deleting) (hbegun : ∀ t ∈ s'.begun, keyOf w t.eventId = some t.key)
    (htimes : ∀ (eventId : EventId) (row : EventRow),
      s'.events.lookup eventId = some row → row.createdAt = (w eventId).createdAt)
    (hevents : ∀ eventId, keyOf w eventId ≠ none →
      s'.events.lookup eventId = s.events.lookup eventId) : Inv w s' := by
  have hcounts : ∀ key eventId, s'.Counts key eventId ↔ s.Counts key eventId := by
    intro key eventId
    rw [Counts, Counts, hreactions]
  have hlive : ∀ eventId key, keyOf w eventId = some key →
      (s'.Live eventId ↔ s.Live eventId) := by
    intro eventId key hkey
    rw [Live, Live, hevents eventId (by simp [hkey])]
  refine ⟨htimes, hbegun, ?_, ?_, ?_, ?_, hdeleting ▸ h.nodup⟩
  · intro key eventId hc
    exact h.rows key eventId ((hcounts key eventId).1 hc)
  · intro eventId key hl hkey
    exact (hcounts key eventId).2 (h.live eventId key ((hlive eventId key hkey).1 hl) hkey)
  · intro key eventId hc
    have hc := (hcounts key eventId).1 hc
    rw [hdeleting, hlive eventId key (h.rows key eventId hc)]
    exact h.named key eventId hc
  · intro eventId hmem
    rw [hdeleting] at hmem
    obtain ⟨hdel, key, hkey, hc⟩ := h.halves eventId hmem
    refine ⟨?_, key, hkey, (hcounts key eventId).2 hc⟩
    rw [storedDeleted, hevents eventId (by simp [hkey])]
    exact hdel

/-! ## One lemma for each step -/

theorem keyOf_eq_none {eventId : EventId} (h : (w eventId).reaction.isSome = false) :
    keyOf w eventId = none := by
  have hnone : (w eventId).reaction = none := by simpa using h
  rw [keyOf, hnone]
  rfl

theorem insertEvent_lookup {events : HashMap EventId EventRow} {eventId other : EventId} :
    (insertEvent w events eventId).1.lookup other =
      if other = eventId ∧ eventId ∉ events then some ⟨(w eventId).createdAt, false⟩
      else events.lookup other := by
  unfold insertEvent
  by_cases hmem : eventId ∈ events
  · simp [hmem]
  · rw [if_neg hmem, HashMap.lookup_insert_eq]
    by_cases heq : other = eventId <;> simp [hmem, heq]

theorem Inv.times_insertEvent (h : Inv w s) (eventId other : EventId) (row : EventRow)
    (hrow : (insertEvent w s.events eventId).1.lookup other = some row) :
    row.createdAt = (w other).createdAt := by
  rw [insertEvent_lookup] at hrow
  split at hrow
  · next heq =>
      rw [← Option.some.inj hrow, heq.1]
  · exact h.times other row hrow

theorem Inv.store (h : Inv w s) {eventId : EventId}
    (hkind : (w eventId).reaction.isSome = false) :
    Inv w { s with events := (insertEvent w s.events eventId).1 } := by
  refine h.of_tables rfl rfl h.begun (h.times_insertEvent eventId) ?_
  intro other hother
  rw [insertEvent_lookup, if_neg]
  rintro ⟨rfl, -⟩
  exact hother (keyOf_eq_none hkind)

theorem keyOf_of_liveCreatedAt (h : Inv w s) {eventId : EventId} {r : Reaction} {createdAt : Int}
    (hr : (w eventId).reaction = some r)
    (ht : liveCreatedAt s.events r.targetEventId = some createdAt) :
    keyOf w eventId = some (RowKey.ofReaction createdAt r) := by
  unfold liveCreatedAt at ht
  cases hrow : s.events.lookup r.targetEventId with
  | none => simp [hrow] at ht
  | some row =>
      simp only [hrow] at ht
      split at ht
      · cases ht
      · rw [keyOf, hr, ← Option.some.inj ht, h.times r.targetEventId row hrow]
        rfl

theorem Inv.selectTarget (h : Inv w s) (eventId : EventId) :
    Inv w (s.selectTarget w eventId).1 := by
  unfold Store.selectTarget
  cases hr : (w eventId).reaction with
  | none => exact h
  | some r =>
      dsimp only
      cases ht : liveCreatedAt s.events r.targetEventId with
      | none => exact h
      | some createdAt =>
          refine h.of_tables rfl rfl ?_ h.times fun _ _ => rfl
          intro t hmem
          rcases List.mem_append.1 hmem with hmem | hmem
          · exact h.begun t hmem
          · rw [List.mem_singleton.1 hmem]
            exact keyOf_of_liveCreatedAt h hr ht

theorem Inv.eraseBegun (h : Inv w s) (i : Nat) :
    Inv w { s with begun := s.begun.eraseIdx i } :=
  h.of_tables rfl rfl (fun t ht => h.begun t (List.mem_of_mem_eraseIdx ht)) h.times
    fun _ _ => rfl

/-- Under a row that is not active and without an event that is stored as deleted, an insertion
makes a new event and lets the row name it. -/
theorem Inv.inserted (h : Inv w s) {t : Begun} (hkey : keyOf w t.eventId = some t.key)
    (hinactive : active s.reactions t.key = false) (hdel : s.storedDeleted t.eventId = false) :
    Inv w
      { s with
        reactions := s.reactions.insert t.key ⟨t.eventId, false⟩
        events := (insertEvent w s.events t.eventId).1 } := by
  have hidle : ∀ eventId, ¬ s.Counts t.key eventId := by
    intro eventId hc
    rw [hc.active] at hinactive
    cases hinactive
  -- An undeleted event would be named by its row, which would then be active.
  have hnew : t.eventId ∉ s.events := by
    intro hmem
    exact hidle t.eventId (h.live t.eventId t.key (live_of_mem hmem hdel) hkey)
  have hlookup : ∀ other, (insertEvent w s.events t.eventId).1.lookup other =
      if other = t.eventId then some ⟨(w t.eventId).createdAt, false⟩
      else s.events.lookup other := by
    intro other
    rw [insertEvent_lookup]
    simp [hnew]
  have hrow : ∀ key, (s.reactions.insert t.key ⟨t.eventId, false⟩).lookup key =
      if key = t.key then some ⟨t.eventId, false⟩ else s.reactions.lookup key :=
    fun key => HashMap.lookup_insert_eq t.key key _ s.reactions
  refine ⟨h.times_insertEvent t.eventId, h.begun, ?_, ?_, ?_, ?_, h.nodup⟩
  · intro key eventId hc
    rw [Counts, hrow] at hc
    split at hc
    · next heq =>
        rw [heq, ← (ReactionRow.mk.inj (Option.some.inj hc)).1]
        exact hkey
    · exact h.rows key eventId hc
  · rintro eventId key ⟨row, hevent, hlive⟩ hk
    rw [hlookup] at hevent
    rw [Counts, hrow]
    split at hevent
    · next heq =>
        rw [heq] at hk ⊢
        rw [if_pos (Option.some.inj (hk.symm.trans hkey))]
    · have hc := h.live eventId key ⟨row, hevent, hlive⟩ hk
      rw [if_neg]
      · exact hc
      · rintro rfl
        exact hidle eventId hc
  · intro key eventId hc
    rw [Counts, hrow] at hc
    split at hc
    · refine Or.inl ⟨⟨(w t.eventId).createdAt, false⟩, ?_, rfl⟩
      rw [hlookup, if_pos (ReactionRow.mk.inj (Option.some.inj hc)).1.symm]
    · rcases h.named key eventId hc with ⟨row, hevent, hlive⟩ | hmem
      · refine Or.inl ⟨row, ?_, hlive⟩
        rw [hlookup, if_neg]
        · exact hevent
        · rintro rfl
          exact hnew (AList.lookup_isSome.1 (by rw [hevent]; rfl))
      · exact Or.inr hmem
  · intro eventId hmem
    obtain ⟨hd, key, hk, hc⟩ := h.halves eventId hmem
    have hne : eventId ≠ t.eventId := by
      rintro rfl
      rw [hdel] at hd
      cases hd
    refine ⟨?_, key, hk, ?_⟩
    · rw [storedDeleted, hlookup, if_neg hne]
      exact hd
    · rw [Counts, hrow, if_neg]
      · exact hc
      · rintro rfl
        exact hidle eventId hc

theorem insertReaction_cases (w : World) (s : Store) (t : Begun) :
    ((s.insertReaction w t).1 = s ∧ ∀ b, (s.insertReaction w t).2 ≠ .inserted b) ∨
      (active s.reactions t.key = false ∧
        (s.insertReaction w t).2 = .inserted (insertEvent w s.events t.eventId).2 ∧
        (s.insertReaction w t).1 =
          { s with
            reactions := s.reactions.insert t.key ⟨t.eventId, false⟩
            events := (insertEvent w s.events t.eventId).1 }) := by
  unfold Store.insertReaction addReaction
  by_cases hlong : maxEmojiLength < t.key.emoji.toList.length
  · simp [hlong]
  · cases hactive : active s.reactions t.key with
    | true => simp [hlong]
    | false =>
        cases htaken : sourceTaken s.reactions t.key t.eventId with
        | true => simp [hlong]
        | false => simp [hlong]

theorem Inv.finish (h : Inv w s) {t : Begun} (hkey : keyOf w t.eventId = some t.key)
    (hnot : (s.storedDeleted t.eventId && !active s.reactions t.key) = false) :
    Inv w (s.insertReaction w t).1 := by
  rcases insertReaction_cases w s t with ⟨hsame, -⟩ | ⟨hinactive, -, hwritten⟩
  · rw [hsame]
    exact h
  · rw [hwritten]
    exact h.inserted hkey hinactive (by simpa [hinactive] using hnot)

theorem Inv.times_tombstone (h : Inv w s) {eventId : EventId} {row : EventRow}
    (hrow : s.events.lookup eventId = some row) (other : EventId) (row' : EventRow)
    (hrow' : (s.events.insert eventId { row with deleted := true }).lookup other = some row') :
    row'.createdAt = (w other).createdAt := by
  rw [HashMap.lookup_insert_eq] at hrow'
  split at hrow'
  · next heq =>
      rw [← Option.some.inj hrow', heq]
      exact h.times eventId row hrow
  · exact h.times other row' hrow'

theorem Inv.halfDeleted (h : Inv w s) {eventId : EventId} {row : EventRow} {key : RowKey}
    (hrow : s.events.lookup eventId = some row) (hlive : row.deleted = false)
    (hkey : keyOf w eventId = some key) :
    Inv w
      { s with
        events := s.events.insert eventId { row with deleted := true }
        deleting := s.deleting ++ [eventId] } := by
  have hcounts : s.Counts key eventId := h.live eventId key ⟨row, hrow, hlive⟩ hkey
  have hlookup : ∀ other, (s.events.insert eventId { row with deleted := true }).lookup other =
      if other = eventId then some { row with deleted := true } else s.events.lookup other :=
    fun other => HashMap.lookup_insert_eq eventId other _ s.events
  refine ⟨h.times_tombstone hrow, h.begun, h.rows, ?_, ?_, ?_, ?_⟩
  · rintro other k ⟨row', hrow', hlive'⟩ hk
    rw [hlookup] at hrow'
    split at hrow'
    · rw [← Option.some.inj hrow'] at hlive'
      cases hlive'
    · exact h.live other k ⟨row', hrow', hlive'⟩ hk
  · intro k other hc
    by_cases heq : other = eventId
    · exact Or.inr (by simp [heq])
    · rcases h.named k other hc with ⟨row', hrow', hlive'⟩ | hmem
      · refine Or.inl ⟨row', ?_, hlive'⟩
        rw [hlookup, if_neg heq]
        exact hrow'
      · exact Or.inr (List.mem_append_left _ hmem)
  · intro other hmem
    rcases List.mem_append.1 hmem with hmem | hmem
    · obtain ⟨hd, k, hk, hc⟩ := h.halves other hmem
      refine ⟨?_, k, hk, hc⟩
      rw [storedDeleted, hlookup]
      split
      · rfl
      · exact hd
    · rw [List.mem_singleton.1 hmem]
      refine ⟨?_, key, hkey, hcounts⟩
      rw [storedDeleted, hlookup, if_pos rfl]
      rfl
  · -- A half done deletion has a deleted event, so this one is not yet in the list.
    refine List.nodup_append.2 ⟨h.nodup, List.nodup_singleton _, ?_⟩
    rintro other hmem _ hsingle rfl
    rw [List.mem_singleton.1 hsingle] at hmem
    have hd := (h.halves eventId hmem).1
    simp [storedDeleted, hrow, hlive] at hd

theorem Inv.softDelete (h : Inv w s) (eventId : EventId) : Inv w (s.softDelete w eventId) := by
  unfold Store.softDelete
  cases hrow : s.events.lookup eventId with
  | none => exact h
  | some row =>
      dsimp only
      cases hdeleted : row.deleted with
      | true => exact h
      | false =>
          rw [if_neg Bool.false_ne_true]
          cases hr : (w eventId).reaction with
          | none =>
              refine h.of_tables rfl rfl h.begun (h.times_tombstone hrow) ?_
              intro other hother
              rw [HashMap.lookup_insert_eq, if_neg]
              rintro rfl
              exact hother (keyOf_eq_none (by rw [hr]; rfl))
          | some r =>
              exact h.halfDeleted hrow hdeleted (by rw [keyOf, hr]; rfl)

theorem lookup_removeBySource (reactions : HashMap RowKey ReactionRow) (eventId : EventId)
    (key : RowKey) :
    (removeReactionBySourceEventId reactions eventId).1.lookup key =
      (reactions.lookup key).map fun row =>
        if row.reactionEventId = eventId ∧ row.removed = false then { row with removed := true }
        else row := by
  simp only [removeReactionBySourceEventId, HashMap.lookup_mapValues]
  congr 1
  funext row
  simp

theorem counts_removeBySource {eventId : EventId} {key : RowKey} {other : EventId} :
    (removeReactionBySourceEventId s.reactions eventId).1.lookup key = some ⟨other, false⟩ ↔
      s.Counts key other ∧ other ≠ eventId := by
  rw [lookup_removeBySource, Counts]
  cases s.reactions.lookup key with
  | none => simp
  | some row =>
      cases row with
      | mk source removed =>
          by_cases hs : source = eventId
          · subst hs
            cases removed with
            | true => simp
            | false =>
                simp only [and_self, if_true, Option.map_some, Option.some.injEq,
                  ReactionRow.mk.injEq, Bool.true_eq_false, and_false, and_true, false_iff]
                exact fun h => h.2 h.1.symm
          · cases removed with
            | true => simp [hs]
            | false =>
                simp only [hs, if_false, Option.map_some, Option.some.injEq,
                  ReactionRow.mk.injEq, and_true, iff_self_and]
                rintro rfl
                exact hs

/-- The second half of a deletion finds the row by its source event, so that the fallback is not
taken. -/
theorem Inv.removeRow (h : Inv w s) {i : Nat} {eventId : EventId}
    (hi : s.deleting[i]? = some eventId) :
    Inv w ({ s with deleting := s.deleting.eraseIdx i }.removeRow w eventId) := by
  obtain ⟨hd, key, hkey, hc⟩ := h.halves eventId (List.mem_of_getElem? hi)
  have hfound : (removeReactionBySourceEventId s.reactions eventId).2 = true := by
    refine List.any_eq_true.2 ⟨⟨key, ⟨eventId, false⟩⟩, HashMap.mem_entries_iff.2 hc, ?_⟩
    simp
  have hmem : ∀ other, other ∈ s.deleting.eraseIdx i ↔ other ∈ s.deleting ∧ other ≠ eventId := by
    intro other
    obtain ⟨hlt, rfl⟩ := List.getElem?_eq_some_iff.1 hi
    rw [← h.nodup.erase_getElem i hlt, h.nodup.mem_erase_iff, and_comm]
  unfold Store.removeRow
  rw [if_pos hfound]
  refine ⟨h.times, h.begun, ?_, ?_, ?_, ?_, h.nodup.sublist (List.eraseIdx_sublist _ _)⟩
  · intro k other hk
    exact h.rows k other (counts_removeBySource.1 hk).1
  · intro other k hlive hk
    refine counts_removeBySource.2 ⟨h.live other k hlive hk, ?_⟩
    rintro rfl
    have hlive' : s.Live other := hlive
    rw [hlive'.not_storedDeleted] at hd
    cases hd
  · intro k other hk
    obtain ⟨hk, hne⟩ := counts_removeBySource.1 hk
    rcases h.named k other hk with hlive | hother
    · exact Or.inl hlive
    · exact Or.inr ((hmem other).2 ⟨hother, hne⟩)
  · intro other hother
    obtain ⟨hother, hne⟩ := (hmem other).1 hother
    obtain ⟨hd', k, hk, hc'⟩ := h.halves other hother
    exact ⟨hd', k, hk, counts_removeBySource.2 ⟨hc', hne⟩⟩

/-! ## Runs -/

theorem Inv.step (h : Inv w s) (i : Step) (hnot : s.revives i = false) :
    Inv w (Store.step w s i) := by
  cases i with
  | store eventId =>
      unfold Store.step
      dsimp only
      split
      · exact h
      · next hkind => exact h.store (by simpa using hkind)
  | select eventId => exact h.selectTarget eventId
  | finish i =>
      unfold Store.step
      unfold revives at hnot
      dsimp only at hnot ⊢
      cases ht : s.begun[i]? with
      | none => exact h
      | some t =>
          rw [ht] at hnot
          exact (h.eraseBegun i).finish (h.begun t (List.mem_of_getElem? ht)) hnot
  | abort i => exact h.eraseBegun i
  | delete eventId => exact h.softDelete eventId
  | remove i =>
      unfold Store.step
      dsimp only
      cases hi : s.deleting[i]? with
      | none => exact h
      | some eventId => exact h.removeRow hi

/-- The tables agree: every active row names an undeleted reaction event with its own key, and the
events of one row are deleted but for one. -/
def Agree (w : World) (s : Store) : Prop :=
  (s.deleting = [] → ∀ key eventId, s.Counts key eventId →
    s.Live eventId ∧ keyOf w eventId = some key) ∧
    ∀ key eventId eventId', keyOf w eventId = some key → keyOf w eventId' = some key →
      s.Live eventId → s.Live eventId' → eventId = eventId'

theorem Inv.agree (h : Inv w s) : Agree w s := by
  constructor
  · intro hnone key eventId hc
    refine ⟨?_, h.rows key eventId hc⟩
    rcases h.named key eventId hc with hlive | hmem
    · exact hlive
    · rw [hnone] at hmem
      exact absurd hmem List.not_mem_nil
  · intro key eventId eventId' hk hk' hlive hlive'
    have hc := (h.live eventId key hlive hk).symm.trans (h.live eventId' key hlive' hk')
    exact (ReactionRow.mk.inj (Option.some.inj hc)).1

/-- An insertion that finds its reaction active or its target missing changes no row of either
table. -/
def Untouched (w : World) (s : Store) : Prop :=
  (∀ t, (s.insertReaction w t).2 = .duplicate → (s.insertReaction w t).1 = s) ∧
    ∀ eventId, (s.selectTarget w eventId).2 = some .targetMissing →
      (s.selectTarget w eventId).1 = s

theorem untouched (w : World) (s : Store) : Untouched w s := by
  constructor
  · intro t hdup
    rcases insertReaction_cases w s t with ⟨hsame, -⟩ | ⟨-, hinserted, -⟩
    · exact hsame
    · rw [hinserted] at hdup
      cases hdup
  · intro eventId hmissing
    unfold selectTarget at hmissing ⊢
    cases hr : (w eventId).reaction with
    | none => rfl
    | some r =>
        simp only [hr] at hmissing ⊢
        cases ht : liveCreatedAt s.events r.targetEventId with
        | none => rfl
        | some createdAt => simp [ht] at hmissing

/-- In every state of a run without a reviving step the rows and the events agree, an active
duplicate and a missing target leave both tables as they are, and a deleted reaction does not
count. -/
theorem reactions_agree (w : World) (steps : List Step)
    (h : Run.Along (fun s i => s.revives i = false) (step w) empty steps) :
    Agree w (run w steps) ∧ Untouched w (run w steps) ∧
      ((run w steps).deleting = [] →
        ∀ eventId, (run w steps).storedDeleted eventId = true →
          ∀ key, ¬ (run w steps).Counts key eventId) := by
  have hinv : Inv w (run w steps) :=
    Run.invariant (Inv w) (fun s i hs hi => hs.step i hi) (Inv.empty w) h
  refine ⟨hinv.agree, untouched w _, ?_⟩
  intro hnone eventId hdel key hc
  have hlive := (hinv.agree.1 hnone key eventId hc).1
  rw [hlive.not_storedDeleted] at hdel
  cases hdel

/-! ## A replay -/

/-- Event 2 is a thumbs-up of actor 7 on event 1, event 3 is another of theirs. -/
def sampleWorld : World := fun eventId =>
  if eventId = 2 ∨ eventId = 3 then ⟨20, some ⟨1, 7, "+"⟩⟩ else ⟨10, none⟩

/-- A reaction is added, repeated, deleted and added again by another event. -/
def reactAgain : List Step :=
  [.store 1, .select 2, .select 2, .finish 0, .finish 0, .delete 2, .select 3, .finish 0,
    .remove 0, .select 3, .finish 0, .delete 2]

theorem reactAgain_agrees :
    Agree sampleWorld (run sampleWorld reactAgain) ∧
      (run sampleWorld reactAgain).Counts ⟨10, 1, 7, "+"⟩ 3 :=
  ⟨(reactions_agree sampleWorld reactAgain (by decide)).1, by decide⟩

/-- A reaction is added and deleted, and its event is sent once more. -/
def replayed : List Step :=
  [.store 1, .select 2, .finish 0, .delete 2, .remove 0, .select 2, .finish 0]

/-- The row of the deleted reaction is active again. -/
theorem replayed_disagrees :
    (run sampleWorld replayed).deleting = [] ∧
      (run sampleWorld replayed).Counts ⟨10, 1, 7, "+"⟩ 2 ∧
      (run sampleWorld replayed).storedDeleted 2 = true ∧
      ¬ Agree sampleWorld (run sampleWorld replayed) := by
  have hnone : (run sampleWorld replayed).deleting = [] := by decide
  have hcounts : (run sampleWorld replayed).Counts ⟨10, 1, 7, "+"⟩ 2 := by decide
  have hdel : (run sampleWorld replayed).storedDeleted 2 = true := by decide
  refine ⟨hnone, hcounts, hdel, ?_⟩
  intro hagree
  have hlive := (hagree.1 hnone _ _ hcounts).1
  rw [hlive.not_storedDeleted] at hdel
  cases hdel

end Store

end Reactions
end Db
end Maju
