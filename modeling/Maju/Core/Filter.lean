import Maju.Core.Kind

/-!
# Filter — NIP-01 filter matching

Several filters are a disjunction, the fields of one filter a conjunction.  The `#h` field has a
fallback: an event without any `h` tag is matched by the channel it is stored in.
-/

namespace Maju
namespace Core

open Lib

/-! ## Textual UUIDs -/

/-- Split 32 digits into the groups 8-4-4-4-12. -/
def hyphenate (digits : List Char) : List Char :=
  digits.take 8 ++ '-' :: (digits.drop 8).take 4 ++ '-' :: (digits.drop 12).take 4 ++
    '-' :: (digits.drop 16).take 4 ++ '-' :: digits.drop 20

/-- `uuid.to_string()`: hyphenated lowercase text. -/
def Uuid.toString (u : Uuid) : String :=
  String.ofList (hyphenate (hexDigits 32 u.toNat))

/-! ## Matching -/

/-- The values an event carries under a tag name. -/
def tagValues (event : Event) (name : String) : List String :=
  (event.tags.filter fun t => t.kind = name).filterMap Tag.content

/-- One iteration of the generic-tag loop of `filter_match_one`. -/
def genericTagMatches (ev : StoredEvent) (key : SingleLetterTag) (values : BTreeSet String) :
    Bool :=
  let hasMatch := values.toList.any fun v => (tagValues ev.event key.toString).any (· = v)
  if !hasMatch && key.toString = "h" then
    if ev.event.tags.any fun t => t.kind = "h" then
      false
    else
      match ev.channelId with
      | some ch => values.toList.any (· = Uuid.toString ch)
      | none => false
  else hasMatch

def filterMatchOne (f : Filter) (ev : StoredEvent) : Bool :=
  (f.kinds.all fun kinds => kinds.contains ev.event.kind) &&
  (f.authors.all fun authors => authors.contains ev.event.pubkey) &&
  (f.since.all fun since => !decide (ev.event.createdAt < since)) &&
  (f.untilAt.all fun untilAt => !decide (untilAt < ev.event.createdAt)) &&
  (f.ids.all fun ids =>
    ids.toList.any fun id => (toHex id).toList.isPrefixOf (toHex ev.event.id).toList) &&
  f.genericTags.entries.all fun tag => genericTagMatches ev tag.1 tag.2

def filtersMatch (filters : List Filter) (ev : StoredEvent) : Bool :=
  filters.any fun f => filterMatchOne f ev

/-! ## Result-level read authorization -/

/-- `reader_authorized_for_event`: viewer-private kinds are readable only by a key named in a
`p` tag. -/
def readerAuthorizedForEvent (event : Event) (readerPubkeyHex : String) : Bool :=
  let kind := eventKindU32 event
  if kind ≠ kindDmVisibility ∧ kind ≠ kindAgentTurnMetric then true
  else (event.tags.filter fun t => t.kind = "p").any fun t => t.content = some readerPubkeyHex

/-! ## What a match says -/

theorem tagValues_mem {event : Event} {name v : String} :
    v ∈ tagValues event name ↔ ∃ t ∈ event.tags, t.kind = name ∧ t.content = some v := by
  simp [tagValues, List.mem_filterMap, and_assoc]

/-- What a filter asks of an event, field by field. -/
structure Filter.Accepts (f : Filter) (ev : StoredEvent) : Prop where
  kinds : ∀ kinds, f.kinds = some kinds → ev.event.kind ∈ kinds.toList
  authors : ∀ authors, f.authors = some authors → ev.event.pubkey ∈ authors.toList
  since : ∀ since, f.since = some since → since.toNat ≤ ev.event.createdAt.toNat
  untilAt : ∀ untilAt, f.untilAt = some untilAt → ev.event.createdAt.toNat ≤ untilAt.toNat
  ids : ∀ ids, f.ids = some ids → ev.event.id ∈ ids.toList
  tags : ∀ key values, f.genericTags.lookup key = some values →
    genericTagMatches ev key values = true

theorem isPrefixOf_toHex {a b : EventId} :
    (toHex a).toList.isPrefixOf (toHex b).toList = true ↔ a = b := by
  rw [List.isPrefixOf_iff_prefix]
  constructor
  · intro h
    have hlen : (toHex a).toList.length = (toHex b).toList.length := by
      simp [toHex]
    have heq := h.eq_of_length hlen
    exact toHex_injective (String.toList_inj.1 heq)
  · rintro rfl
    exact List.prefix_refl _

theorem filterMatchOne_iff {f : Filter} {ev : StoredEvent} :
    filterMatchOne f ev = true ↔ f.Accepts ev := by
  simp only [filterMatchOne, Bool.and_eq_true, Option.all_eq_true, BTreeSet.contains_eq_true,
    List.any_eq_true, List.all_eq_true, isPrefixOf_toHex, Bool.not_eq_true',
    decide_eq_false_iff_not, UInt64.not_lt, UInt64.le_iff_toNat_le]
  constructor
  · rintro ⟨⟨⟨⟨⟨hkinds, hauthors⟩, hsince⟩, huntil⟩, hids⟩, htags⟩
    refine ⟨hkinds, hauthors, hsince, huntil, ?_, ?_⟩
    · intro ids hf
      obtain ⟨id, hmem, rfl⟩ := hids ids hf
      exact hmem
    · intro key values hlookup
      exact htags ⟨key, values⟩ (HashMap.mem_entries_iff.2 hlookup)
  · intro h
    refine ⟨⟨⟨⟨⟨h.kinds, h.authors⟩, h.since⟩, h.untilAt⟩, ?_⟩, ?_⟩
    · intro ids hf
      exact ⟨ev.event.id, h.ids ids hf, rfl⟩
    · rintro ⟨key, values⟩ hmem
      exact h.tags key values (HashMap.mem_entries_iff.1 hmem)

theorem filterMatchOne_kind {f : Filter} {ev : StoredEvent} {kinds : BTreeSet Kind}
    (h : filterMatchOne f ev = true) (hk : f.kinds = some kinds) :
    ev.event.kind ∈ kinds.toList := by
  simp only [filterMatchOne, hk, Bool.and_eq_true, Option.all_some,
    BTreeSet.contains_eq_true] at h
  exact h.1.1.1.1.1

theorem filterMatchOne_tag {f : Filter} {ev : StoredEvent} {key : SingleLetterTag}
    {values : BTreeSet String} (h : filterMatchOne f ev = true)
    (ht : f.genericTags.lookup key = some values) : genericTagMatches ev key values = true := by
  simp only [filterMatchOne, Bool.and_eq_true, List.all_eq_true] at h
  exact h.2 ⟨key, values⟩ (HashMap.mem_entries_iff.2 ht)

theorem genericTagMatches_of_ne_h {ev : StoredEvent} {key : SingleLetterTag}
    {values : BTreeSet String} (hkey : key.toString ≠ "h") :
    genericTagMatches ev key values = true ↔
      ∃ v ∈ values.toList, v ∈ tagValues ev.event key.toString := by
  simp [genericTagMatches, hkey]

end Core
end Maju
