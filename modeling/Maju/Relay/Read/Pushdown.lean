import Mathlib.Tactic.Tauto
import Maju.Relay.Read.Request

/-!
# Pushdown — where the statement and the filter agree

Each field of a filter is decided twice: by the in-memory matcher, and by a condition of the SQL
statement.  `Faithful f r` names, field by field, the circumstances under which the two say the
same about the row `r`.  One direction is mostly free (what the filter accepts, the statement
accepts); the other one fails for empty lists, for times out of range, for references and mentions
that only look alike, and for rows filed in another channel than the one they name.
-/

namespace Maju
namespace Relay

open Lib Core Db

/-! ## Readable rows -/

/-- The row is in no channel or in one of these. -/
def accessibleRow (accessible : List Uuid) (r : EventRow) : Bool :=
  r.channelId.all fun ch => decide (ch ∈ accessible)

/-- The filter accepts the row, and the reader may see it. -/
def readable (f : Filter) (accessible : List Uuid) (reader : PublicKey) (r : EventRow) : Bool :=
  filterMatchOne f r.stored && accessibleRow accessible r && eventVisibleToReader r.event reader

/-! ## Requested channels -/

section Requested

variable {f : Filter} {values : BTreeSet String}

/-- The channels that the `#h` values request. -/
def requestedChannels (values : BTreeSet String) : List Uuid :=
  (parsedChannels values).foldl insertNew []

theorem extractChannelIds_singleton (f : Filter) :
    extractChannelIdsFromFilters [f] = (hValues f).map requestedChannels := by
  unfold extractChannelIdsFromFilters requestedChannels
  rw [List.foldlM_cons]
  cases hValues f <;> rfl

theorem mem_requestedChannels {ch : Uuid} :
    ch ∈ requestedChannels values ↔ ch ∈ parsedChannels values := by
  simp [requestedChannels]

theorem extractChannelId_of_len (h : hValues f = some values) :
    extractChannelIdFromFilter f = if values.len = 1 then (parsedChannels values).head? else none := by
  unfold extractChannelIdFromFilter parsedChannels
  rw [h, Option.bind_some]
  rcases hlist : values.toList with _ | ⟨v, _ | ⟨w, rest⟩⟩
  · simp [BTreeSet.len, hlist]
  · cases hparse : Uuid.parse v <;> simp [BTreeSet.len, hlist, hparse]
  · simp [BTreeSet.len, hlist]

end Requested

/-! ## Faithful rows -/

/-- The row is filed in a channel that the `#h` values name. -/
def InRequested (values : BTreeSet String) (r : EventRow) : Prop :=
  ∃ ch ∈ parsedChannels values, r.channelId = some ch

/-- The statement can tell of the row what the filter says.  No list is set and empty, which the
statement drops and the filter rejects; the lower bound has a chrono timestamp and the upper one
does not wrap to a time before the epoch; the mention index, which is in lowercase, has the `p` tag
that the filter names; a tag with `e` and the id among its parts has them in the first two places;
the column of the first `d` tag is named when some `d` tag is; the row is filed in a channel that it
names. -/
structure Faithful (f : Filter) (r : EventRow) : Prop where
  authors : ∀ authors, f.authors = some authors → authors.toList ≠ []
  ids : ∀ ids, f.ids = some ids → ids.toList ≠ []
  tags : ∀ key values, f.genericTags.lookup key = some values → values.toList ≠ []
  since : ∀ since, f.since = some since → (since.toNat : Int) ≤ maxTimestamp
  untilAt : ∀ untilAt, f.untilAt = some untilAt →
    asI64 untilAt < minTimestamp ∨ 0 ≤ asI64 untilAt
  mention : ∀ values v, f.genericTags.lookup .p = some values → values.toList = [v] →
    (toAsciiLowercase v ∈ mentions r.event ↔ v ∈ tagValues r.event "p")
  reference : ∀ values, f.genericTags.lookup .e = some values →
    (∃ v ∈ values.toList, tagsContain r.event "e" v = true) →
      ∃ v ∈ values.toList, v ∈ tagValues r.event "e"
  address : isNip33Only f = true → ∀ values, f.genericTags.lookup .d = some values →
    ((∃ d ∈ values.toList, extractDTag r.event = some d) ↔
      ∃ d ∈ values.toList, d ∈ tagValues r.event "d")
  channel : ∀ values, hValues f = some values →
    (InRequested values r ↔ genericTagMatches r.stored .h values = true)

/-! ## Single conditions -/

section Clauses

variable {f : Filter} {ch : Option Uuid} {community : CommunityId} {r : EventRow}

theorem fromTimestamp_asI64 {s : UInt64} (h : (s.toNat : Int) ≤ maxTimestamp) :
    fromTimestamp (asI64 s) = some (s.toNat : Int) := by
  have hlt : s.toNat < 2 ^ 63 := by
    unfold maxTimestamp at h
    omega
  unfold fromTimestamp asI64 minTimestamp
  rw [if_pos hlt, if_pos ⟨by omega, h⟩]

theorem kindsClause_iff :
    (filterToQueryParams f ch community).kindsClause r = true ∧
        (filterToQueryParams f ch community).kinds.any List.isEmpty = false ↔
      ∀ kinds, f.kinds = some kinds → r.event.kind ∈ kinds.toList := by
  have hkinds : (filterToQueryParams f ch community).kinds =
      f.kinds.map fun ks => ks.toList.map Kind.asU32 := rfl
  unfold EventQuery.kindsClause
  rw [hkinds]
  cases f.kinds with
  | none => simp
  | some kinds =>
      cases hlist : kinds.toList with
      | nil => simp [hlist]
      | cons k ks =>
          have hinj : Function.Injective Kind.asU32 := fun a b h => UInt16.toNat_inj.1 h
          simp only [Option.map_some, hlist, Option.filter_some, List.map_cons, List.isEmpty_cons,
            Bool.not_false, if_true, Option.all_some, decide_eq_true_eq, Option.any_some,
            and_true, Option.some.injEq, forall_eq']
          rw [← List.map_cons, eventKindU32, List.mem_map_of_injective hinj]

theorem authorsClauses_iff (hne : ∀ authors, f.authors = some authors → authors.toList ≠ []) :
    (filterToQueryParams f ch community).pubkeyClause r = true ∧
        (filterToQueryParams f ch community).authorsClause r = true ↔
      ∀ authors, f.authors = some authors → r.event.pubkey ∈ authors.toList := by
  have hpubkey : (filterToQueryParams f ch community).pubkey =
      if (f.authors.elim [] BTreeSet.toList).length = 1 then (f.authors.elim [] BTreeSet.toList).head?
      else none := rfl
  have hauthors : (filterToQueryParams f ch community).authors =
      if 1 < (f.authors.elim [] BTreeSet.toList).length then
        some (f.authors.elim [] BTreeSet.toList) else none := rfl
  unfold EventQuery.pubkeyClause EventQuery.authorsClause
  rw [hpubkey, hauthors]
  cases ha : f.authors with
  | none => simp
  | some authors =>
      have := hne authors ha
      rcases hlist : authors.toList with _ | ⟨a, _ | ⟨b, rest⟩⟩
      · exact absurd hlist this
      · simp [hlist]
      · simp [hlist]

theorem idsClause_iff (hne : ∀ ids, f.ids = some ids → ids.toList ≠ []) :
    (filterToQueryParams f ch community).idsClause r = true ↔
      ∀ ids, f.ids = some ids → r.event.id ∈ ids.toList := by
  have hids : (filterToQueryParams f ch community).ids =
      f.ids.bind fun ids => if ids.isEmpty then none else some ids.toList := rfl
  unfold EventQuery.idsClause
  rw [hids]
  cases hi : f.ids with
  | none => simp
  | some ids =>
      have := hne ids hi
      simp [BTreeSet.isEmpty, this]

theorem sinceClause_iff (hrange : ∀ s, f.since = some s → (s.toNat : Int) ≤ maxTimestamp) :
    (filterToQueryParams f ch community).sinceClause r = true ↔
      ∀ s, f.since = some s → s.toNat ≤ r.event.createdAt.toNat := by
  have hsince : (filterToQueryParams f ch community).since =
      f.since.bind fun s => fromTimestamp (asI64 s) := rfl
  unfold EventQuery.sinceClause
  rw [hsince]
  cases hs : f.since with
  | none => simp
  | some s => simp [fromTimestamp_asI64 (hrange s hs), EventRow.createdAt]

theorem untilClause_iff
    (hrange : ∀ u, f.untilAt = some u → asI64 u < minTimestamp ∨ 0 ≤ asI64 u) :
    (filterToQueryParams f ch community).untilClause r = true ↔
      ∀ u, f.untilAt = some u → r.event.createdAt.toNat ≤ u.toNat := by
  have huntil : (filterToQueryParams f ch community).untilAt =
      f.untilAt.bind fun u => fromTimestamp (asI64 u) := rfl
  unfold EventQuery.untilClause
  rw [huntil]
  cases hu : f.untilAt with
  | none => simp
  | some u =>
      have hrange := hrange u hu
      have hlt : u.toNat < 2 ^ 64 := u.toNat_lt
      have hfits := r.fits
      simp only [Option.bind_some, Option.some.injEq, forall_eq', EventRow.createdAt]
      unfold fromTimestamp
      by_cases hsigned : u.toNat < 2 ^ 63
      · simp only [asI64, if_pos hsigned] at hrange ⊢
        split
        · simp
        · -- beyond the last timestamp the bound is dropped, and no row is that late
          unfold minTimestamp at *
          simp only [Option.all_none, true_iff]
          omega
      · simp only [asI64, if_neg hsigned] at hrange ⊢
        rw [if_neg (by omega)]
        unfold maxTimestamp at hfits
        simp only [Option.all_none, true_iff]
        omega

theorem mentionsClause_iff_indexed :
    (filterToQueryParams f ch community).mentionsClause r = true ↔
      ∀ values, f.genericTags.lookup .p = some values → ∀ v, values.toList = [v] →
        toAsciiLowercase v ∈ mentions r.event := by
  have hp : (filterToQueryParams f ch community).pTagHex =
      (f.genericTags.lookup .p).bind fun values =>
        if values.len = 1 then values.toList.head? else none := rfl
  unfold EventQuery.mentionsClause
  rw [hp]
  cases hl : f.genericTags.lookup .p with
  | none => simp
  | some values =>
      rcases hlist : values.toList with _ | ⟨v, _ | ⟨w, rest⟩⟩ <;> simp [BTreeSet.len, hlist]

theorem mentionsClause_iff
    (hmention : ∀ values v, f.genericTags.lookup .p = some values → values.toList = [v] →
      (toAsciiLowercase v ∈ mentions r.event ↔ v ∈ tagValues r.event "p")) :
    (filterToQueryParams f ch community).mentionsClause r = true ↔
      ∀ values, f.genericTags.lookup .p = some values → values.len = 1 →
        genericTagMatches r.stored .p values = true := by
  rw [mentionsClause_iff_indexed]
  refine forall_congr' fun values => forall_congr' fun hl => ?_
  have hkey : SingleLetterTag.p.toString ≠ "h" := by decide
  have hname : SingleLetterTag.p.toString = "p" := by decide
  rw [genericTagMatches_of_ne_h hkey, hname, BTreeSet.len, List.length_eq_one_iff]
  constructor
  · rintro hindexed ⟨v, hlist⟩
    exact ⟨v, by simp [hlist], (hmention values v hl hlist).1 (hindexed v hlist)⟩
  · intro hmatches v hlist
    obtain ⟨w, hw, hmem⟩ := hmatches ⟨v, hlist⟩
    rw [hlist, List.mem_singleton] at hw
    rw [hw] at hmem
    exact (hmention values v hl hlist).2 hmem

theorem tagsContain_of_mem {name v : String} (h : v ∈ tagValues r.event name) :
    tagsContain r.event name v = true := by
  obtain ⟨t, ht, hname, hcontent⟩ := tagValues_mem.1 h
  refine List.any_eq_true.2 ⟨t, ht, ?_⟩
  have hrest : v ∈ t.rest := List.mem_of_mem_head? hcontent
  simp [Tag.asSlice, ← show t.name = name from hname, hrest]

theorem eTagsClause_iff (hne : ∀ values, f.genericTags.lookup .e = some values → values.toList ≠ [])
    (href : ∀ values, f.genericTags.lookup .e = some values →
      (∃ v ∈ values.toList, tagsContain r.event "e" v = true) →
        ∃ v ∈ values.toList, v ∈ tagValues r.event "e") :
    (filterToQueryParams f ch community).eTagsClause r = true ↔
      ∀ values, f.genericTags.lookup .e = some values →
        genericTagMatches r.stored .e values = true := by
  have he : (filterToQueryParams f ch community).eTags = tagList f .e := rfl
  unfold EventQuery.eTagsClause
  rw [he, tagList]
  cases hl : f.genericTags.lookup .e with
  | none => simp
  | some values =>
      have hkey : SingleLetterTag.e.toString ≠ "h" := by decide
      have hname : SingleLetterTag.e.toString = "e" := by decide
      have hsome := hne values hl
      simp only [Option.bind_some, BTreeSet.isEmpty, List.isEmpty_iff, hsome, if_false,
        Option.filter_some, Option.some.injEq, forall_eq', genericTagMatches_of_ne_h hkey, hname]
      simp only [List.isEmpty_eq_false_iff.2 hsome, Bool.not_false, if_true, Option.all_some,
        List.any_eq_true]
      constructor
      · exact href values hl
      · rintro ⟨v, hv, hmem⟩
        exact ⟨v, hv, tagsContain_of_mem hmem⟩

theorem dTagClause_iff_column
    (hne : ∀ values, f.genericTags.lookup .d = some values → values.toList ≠ []) :
    (filterToQueryParams f ch community).dTagClause r = true ↔
      (isNip33Only f = true → ∀ values, f.genericTags.lookup .d = some values →
        ∃ d ∈ values.toList, extractDTag r.event = some d) := by
  have hd : (filterToQueryParams f ch community).dTag =
      if (if isNip33Only f then (f.genericTags.lookup .d).elim [] BTreeSet.toList else []).length = 1
      then (if isNip33Only f then (f.genericTags.lookup .d).elim [] BTreeSet.toList else []).head?
      else none := rfl
  have hds : (filterToQueryParams f ch community).dTags =
      if 1 < (if isNip33Only f then (f.genericTags.lookup .d).elim [] BTreeSet.toList else []).length
      then some (if isNip33Only f then (f.genericTags.lookup .d).elim [] BTreeSet.toList else [])
      else none := rfl
  unfold EventQuery.dTagClause
  rw [hd, hds]
  cases hnip : isNip33Only f with
  | false => simp
  | true =>
      cases hl : f.genericTags.lookup .d with
      | none => simp
      | some values =>
          simp only [if_true, Option.elim_some, forall_true_left, Option.some.injEq, forall_eq']
          rcases hlist : values.toList with _ | ⟨d, _ | ⟨d', rest⟩⟩
          · exact absurd hlist (hne values hl)
          · simp
          · cases extractDTag r.event <;> simp

theorem dTagClause_iff (hne : ∀ values, f.genericTags.lookup .d = some values → values.toList ≠ [])
    (haddress : isNip33Only f = true → ∀ values, f.genericTags.lookup .d = some values →
      ((∃ d ∈ values.toList, extractDTag r.event = some d) ↔
        ∃ d ∈ values.toList, d ∈ tagValues r.event "d")) :
    (filterToQueryParams f ch community).dTagClause r = true ↔
      (isNip33Only f = true → ∀ values, f.genericTags.lookup .d = some values →
        genericTagMatches r.stored .d values = true) := by
  rw [dTagClause_iff_column hne]
  refine forall_congr' fun hnip => forall_congr' fun values => forall_congr' fun hl => ?_
  have hkey : SingleLetterTag.d.toString ≠ "h" := by decide
  have hname : SingleLetterTag.d.toString = "d" := by decide
  rw [genericTagMatches_of_ne_h hkey, hname]
  exact haddress hnip values hl

/-! ## The whole filter -/

/-- The conditions of a statement that come from the filter alone, without the channel scope. -/
def FieldsHold (q : EventQuery) (r : EventRow) : Prop :=
  q.mentionsClause r = true ∧ q.kindsClause r = true ∧
    (q.pubkeyClause r = true ∧ q.authorsClause r = true) ∧ q.idsClause r = true ∧
    q.eTagsClause r = true ∧ q.sinceClause r = true ∧ q.dTagClause r = true

theorem commonWhere_iff {q : EventQuery} :
    q.commonWhere r = true ↔
      FieldsHold q r ∧ q.channelClause r = true ∧ q.channelIdsClause r = true := by
  simp only [EventQuery.commonWhere, FieldsHold, Bool.and_eq_true]
  tauto

theorem sharedClause_of_visible {q : EventQuery} {reader : PublicKey}
    (hq : q.sharedGatedReader.all (· = reader) = true)
    (h : eventVisibleToReader r.event reader = true) : q.sharedClause r = true := by
  unfold EventQuery.sharedClause
  cases hs : q.sharedGatedReader with
  | none => rfl
  | some reader' =>
      obtain rfl : reader' = reader := by simpa [hs] using hq
      have hgate := (eventVisibleToReader_eq_true.1 h).2.1
      simp only [isUnsharedGatedEvent, Bool.and_eq_false_iff, decide_eq_false_iff_not, ne_eq,
        not_not, Bool.not_eq_false'] at hgate
      simp only [Option.all_some, Bool.or_eq_true, Bool.not_eq_true', decide_eq_true_eq]
      rcases hgate with (hkind | hself) | hshared
      · exact Or.inl (Or.inl hkind)
      · exact Or.inl (Or.inr hself)
      · obtain ⟨t, ht, hname, hrest⟩ := exists_shared_tag hshared
        refine Or.inr (List.any_eq_true.2 ⟨t, ht, ?_⟩)
        simp [Tag.asSlice, hname, hrest]

theorem matchesNothing_params :
    (filterToQueryParams f ch community).matchesNothing =
      (filterToQueryParams f ch community).kinds.any List.isEmpty := by
  have hauthors : (filterToQueryParams f ch community).authors.any List.isEmpty = false := by
    have : (filterToQueryParams f ch community).authors =
        if 1 < (f.authors.elim [] BTreeSet.toList).length then
          some (f.authors.elim [] BTreeSet.toList) else none := rfl
    rw [this]
    split
    · next hlen =>
        rw [Option.any_some, List.isEmpty_eq_false_iff]
        rintro hnil
        rw [hnil] at hlen
        simp at hlen
    · rfl
  have hids : (filterToQueryParams f ch community).ids.any List.isEmpty = false := by
    have : (filterToQueryParams f ch community).ids =
        f.ids.bind fun ids => if ids.isEmpty then none else some ids.toList := rfl
    rw [this]
    cases f.ids with
    | none => rfl
    | some ids => cases hempty : ids.isEmpty <;> simp_all [BTreeSet.isEmpty]
  have heTags : (filterToQueryParams f ch community).eTags.any List.isEmpty = false := by
    have : (filterToQueryParams f ch community).eTags = tagList f .e := rfl
    rw [this, tagList]
    cases f.genericTags.lookup .e with
    | none => rfl
    | some values => cases hempty : values.isEmpty <;> simp_all [BTreeSet.isEmpty]
  rw [EventQuery.matchesNothing, hauthors, hids, heTags, Bool.or_false, Bool.or_false,
    Bool.or_false]

theorem fields_of_accepts (ch : Option Uuid) (community : CommunityId) (hf : Faithful f r)
    (h : f.Accepts r.stored) :
    FieldsHold (filterToQueryParams f ch community) r ∧
      (filterToQueryParams f ch community).untilClause r = true ∧
      (filterToQueryParams f ch community).matchesNothing = false := by
  obtain ⟨hkinds, hnothing⟩ :
      (filterToQueryParams f ch community).kindsClause r = true ∧
        (filterToQueryParams f ch community).kinds.any List.isEmpty = false :=
    kindsClause_iff.2 h.kinds
  rw [matchesNothing_params]
  refine ⟨⟨?_, hkinds, ?_, ?_, ?_, ?_, ?_⟩, ?_, hnothing⟩
  · exact (mentionsClause_iff hf.mention).2 fun values hl _ => h.tags .p values hl
  · exact (authorsClauses_iff hf.authors).2 h.authors
  · exact (idsClause_iff hf.ids).2 h.ids
  · exact (eTagsClause_iff (hf.tags .e) hf.reference).2 (h.tags .e)
  · exact (sinceClause_iff hf.since).2 h.since
  · exact (dTagClause_iff (hf.tags .d) hf.address).2 fun _ => h.tags .d
  · exact (untilClause_iff hf.untilAt).2 h.untilAt

theorem tagPushable_of_lookup (hpush : filterFullyPushable f = true) {key : SingleLetterTag}
    {values : BTreeSet String} (hl : f.genericTags.lookup key = some values) :
    tagPushable (isNip33Only f) key values = true := by
  simp only [filterFullyPushable, Bool.and_eq_true, List.all_eq_true] at hpush
  exact hpush.1 ⟨key, values⟩ (HashMap.mem_entries_iff.2 hl)

/-- Of a filter that is fully pushable, what the statement accepts the filter accepts, up to the
channel. -/
theorem accepts_of_fields (hf : Faithful f r) (hpush : filterFullyPushable f = true)
    (hfields : FieldsHold (filterToQueryParams f ch community) r)
    (huntil : (filterToQueryParams f ch community).untilClause r = true)
    (hnothing : (filterToQueryParams f ch community).matchesNothing = false)
    (hchannel : ∀ values, hValues f = some values →
      genericTagMatches r.stored .h values = true) : f.Accepts r.stored := by
  obtain ⟨hmention, hkinds, hauthors, hids, heTags, hsince, hdTag⟩ := hfields
  rw [matchesNothing_params] at hnothing
  refine ⟨kindsClause_iff.1 ⟨hkinds, hnothing⟩, (authorsClauses_iff hf.authors).1 hauthors,
    (sinceClause_iff hf.since).1 hsince, (untilClause_iff hf.untilAt).1 huntil,
    (idsClause_iff hf.ids).1 hids, ?_⟩
  intro key values hl
  have hkey := tagPushable_of_lookup hpush hl
  have hne := hf.tags key values hl
  unfold tagPushable at hkey
  split at hkey
  · next hh =>
      subst hh
      exact hchannel values hl
  · split at hkey
    · next hp =>
        subst hp
        refine (mentionsClause_iff hf.mention).1 hmention values hl ?_
        have hpos := List.length_pos_iff.2 hne
        simp only [decide_eq_true_eq] at hkey
        unfold BTreeSet.len at hkey ⊢
        omega
    · split at hkey
      · next hd =>
          subst hd
          refine (dTagClause_iff (hf.tags .d) hf.address).1 hdTag ?_ values hl
          simpa [hne] using hkey
      · split at hkey
        · next he =>
            subst he
            exact (eTagsClause_iff (hf.tags .e) hf.reference).1 heTags values hl
        · simp [hne] at hkey

end Clauses

end Relay
end Maju
