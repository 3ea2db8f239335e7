import Mathlib.Data.Finset.Card
import Maju.Lib.Counting
import Maju.Relay.Read.Count
import Maju.Relay.Read.Pushdown

/-!
# CountExact — when COUNT is exact

A number that COUNT answers is the sum over the filters.  It is the number of distinct events the
reader may see if the statement is faithful about every row that is judged, the channel scope
reaches the statement, and no event is accepted by two filters.
-/

namespace Maju
namespace Relay

open Lib Core Db

/-- The row is faithful, and the channel scope reaches the statement or does not matter for the
row: with several `#h` values of which one is a channel, the statement is left unscoped. -/
structure CountFaithful (f : Filter) (r : EventRow) : Prop extends Faithful f r where
  scopeReached : ∀ values, hValues f = some values → (requestedChannels values).length = 1 →
    values.len = 1 ∨ InRequested values r

/-! ## The channel scope -/

section Scope

variable {f : Filter} {accessible : List Uuid} {community : CommunityId} {reader : PublicKey}
  {r : EventRow} {values : BTreeSet String}

theorem countQueryOf_anywhere (h : hValues f = none) :
    countQueryOf community reader f accessible =
      { filterToQueryParams f (extractChannelIdFromFilter f) community with
        channelIds := some accessible
        sharedGatedReader := if filterCanMatchSharedGatedKinds f then some reader else none } := by
  unfold countQueryOf
  rw [extractChannelIds_singleton, h]
  dsimp only [Option.map_none]
  rw [countQueryAnywhere, withSharedGate_eq]
  rfl

/-- The channel that COUNT passes to the scoping of a filter with `#h`. -/
def countChannel (values : BTreeSet String) (accessible : List Uuid) : Option Uuid :=
  if (requestedChannels values).length = 1 then
    ((requestedChannels values).filter fun ch => decide (ch ∈ accessible)).head?
  else none

theorem countQueryOf_channels (h : hValues f = some values) :
    countQueryOf community reader f accessible =
      { filterToQueryParams f (extractChannelIdFromFilter f) community with
        channelIds :=
          if (countChannel values accessible).isSome then none
          else some ((parsedChannels values).filter fun ch => decide (ch ∈ accessible))
        channelIdsIncludeGlobal := (countChannel values accessible).isSome
        sharedGatedReader := if filterCanMatchSharedGatedKinds f then some reader else none } := by
  unfold countQueryOf
  rw [extractChannelIds_singleton, h]
  dsimp only [Option.map_some]
  rw [countQueryInChannels, withSharedGate_eq, applyChannelScopeToQuery_eq]
  simp only [scopedChannelIds, h, Option.elim_some, Option.isNone_some, Bool.or_false]
  rw [← countChannel]
  cases (countChannel values accessible).isSome <;> rfl

theorem countSkips_iff (h : hValues f = some values) :
    countSkips f accessible = true ↔ ∀ ch ∈ parsedChannels values, ch ∉ accessible := by
  rw [countSkips, extractChannelIds_singleton, h, Option.map_some, Option.any_some,
    List.isEmpty_iff, List.filter_eq_nil_iff]
  simp [mem_requestedChannels]

theorem countSkips_anywhere (h : hValues f = none) : countSkips f accessible = false := by
  rw [countSkips, extractChannelIds_singleton, h]
  rfl

theorem requested_eq_singleton (hlen : (requestedChannels values).length = 1) :
    ∃ c, ∀ ch, ch ∈ parsedChannels values ↔ ch = c := by
  obtain ⟨c, hc⟩ := List.length_eq_one_iff.1 hlen
  refine ⟨c, ?_⟩
  intro ch
  rw [← mem_requestedChannels, hc, List.mem_singleton]

/-- The channel conditions of a query that is not skipped: the row is in a requested channel that
is accessible. -/
theorem countScope_iff (h : hValues f = some values) (hskip : countSkips f accessible = false)
    (hscoped : (requestedChannels values).length = 1 → values.len = 1 ∨ InRequested values r) :
    (countQueryOf community reader f accessible).channelClause r = true ∧
        (countQueryOf community reader f accessible).channelIdsClause r = true ↔
      InRequested values r ∧ accessibleRow accessible r = true := by
  have hmiss : ¬∀ ch ∈ parsedChannels values, ch ∉ accessible := by
    rw [← countSkips_iff h, hskip]
    simp
  rw [countQueryOf_channels h]
  simp only [EventQuery.channelClause, EventQuery.channelIdsClause, InRequested, accessibleRow]
  rw [show (filterToQueryParams f (extractChannelIdFromFilter f) community).channelId =
      extractChannelIdFromFilter f from rfl,
    show (filterToQueryParams f (extractChannelIdFromFilter f) community).globalOnly = false
      from rfl, extractChannelId_of_len h]
  by_cases hone : (requestedChannels values).length = 1
  · obtain ⟨c, hc⟩ := requested_eq_singleton hone
    have hacc : c ∈ accessible := by
      by_contra hnot
      exact hmiss fun ch hch => (hc ch).1 hch ▸ hnot
    have hsome : (countChannel values accessible).isSome = true := by
      rw [countChannel, if_pos hone, List.isSome_head?]
      refine List.ne_nil_of_mem (a := c) ?_
      rw [List.mem_filter, mem_requestedChannels, hc]
      simpa using hacc
    have hin : (∃ ch ∈ parsedChannels values, r.channelId = some ch) ↔ r.channelId = some c := by
      constructor
      · rintro ⟨ch, hch, hr⟩
        rw [hr, (hc ch).1 hch]
      · intro hr
        exact ⟨c, (hc c).2 rfl, hr⟩
    rw [hin]
    simp only [hsome, if_true, Option.all_none, and_true]
    constructor
    · intro hclause
      have hr : r.channelId = some c := by
        rcases hscoped hone with hlen | hin'
        · have hhead : (parsedChannels values).head? = some c := by
            cases hp : parsedChannels values with
            | nil =>
                have := (hc c).2 rfl
                simp [hp] at this
            | cons ch rest =>
                have := (hc ch).1 (by simp [hp])
                simp [this]
          rw [if_pos hlen, hhead] at hclause
          simpa using hclause
        · exact hin.1 hin'
      exact ⟨hr, by simp [hr, hacc]⟩
    · rintro ⟨hr, _⟩
      split
      · next ch hch =>
          split at hch
          · have hmem : ch ∈ parsedChannels values := List.mem_of_mem_head? hch
            simp [hr, (hc ch).1 hmem]
          · cases hch
      · simp
  · have hnone : countChannel values accessible = none := by
      rw [countChannel, if_neg hone]
    have hchannel : (if values.len = 1 then (parsedChannels values).head? else none) = none := by
      split
      · next hlen =>
          -- a single value that is a channel would be one requested channel
          unfold BTreeSet.len at hlen
          obtain ⟨v, hv⟩ := List.length_eq_one_iff.1 hlen
          cases hparse : Uuid.parse v with
          | none => simp [parsedChannels, hv, hparse]
          | some ch =>
              exact absurd (by simp [requestedChannels, parsedChannels, hv, hparse, insertNew]) hone
      · rfl
    rw [hchannel, hnone]
    simp only [Option.isSome_none, Bool.false_eq_true, if_false, Bool.false_and, Bool.false_or,
      Option.all_some, true_and]
    cases hr : r.channelId with
    | none => simp
    | some ch => simp

end Scope

/-! ## The event gate -/

section Gate

variable {f : Filter} {reader : PublicKey} {r : EventRow}

/-- On the fast path the shape of the filter stands in for the event gate, up to the owner of the
owner-only kinds. -/
theorem visible_of_fastPath (hfast : countFastPath f (toHex reader) = true)
    (hkinds : ∀ kinds, f.kinds = some kinds → r.event.kind ∈ kinds.toList)
    (hauthors : ∀ authors, f.authors = some authors → authors.toList ≠ [] →
      r.event.pubkey ∈ authors.toList)
    (howner : eventKindU32 r.event ∈ resultGatedKinds → toHex reader ∈ tagValues r.event "p") :
    eventVisibleToReader r.event reader = true := by
  simp only [countFastPath, Bool.and_eq_true, Bool.or_eq_true, Bool.not_eq_true'] at hfast
  obtain ⟨⟨⟨_, hauthor⟩, _⟩, hshared⟩ := hfast
  rw [eventVisibleToReader_eq_true]
  refine ⟨?_, ?_, ?_⟩
  · by_contra hnot
    simp only [isAuthorOnlyEvent, Bool.not_eq_false, Bool.and_eq_true, decide_eq_true_eq] at hnot
    have hcan : filterCanMatchAuthorOnlyKinds f = true :=
      filterCanMatchKinds_of_kind hkinds hnot.1
    rcases hauthor with hcannot | hself
    · rw [hcan] at hcannot
      cases hcannot
    · obtain ⟨authors, hf, hne, hall⟩ := eq_of_authorsAreSelf hself
      exact hnot.2 (hall _ (hauthors authors hf hne))
  · by_contra hnot
    simp only [isUnsharedGatedEvent, isSharedGatedKind, Bool.not_eq_false, Bool.and_eq_true,
      decide_eq_true_eq] at hnot
    have hcan : filterCanMatchSharedGatedKinds f = true :=
      filterCanMatchKinds_of_kind hkinds hnot.1.1
    rw [hcan] at hshared
    cases hshared
  · by_cases hkind : eventKindU32 r.event ∈ resultGatedKinds
    · exact (readerAuthorized_of_gated hkind).2 (howner hkind)
    · exact readerAuthorized_of_not_gated hkind

theorem owner_of_fastPath (hfast : countFastPath f (toHex reader) = true)
    (h : f.Accepts r.stored) (hkind : eventKindU32 r.event ∈ resultGatedKinds) :
    toHex reader ∈ tagValues r.event "p" := by
  simp only [countFastPath, Bool.and_eq_true, Bool.not_eq_true', Bool.and_eq_false_iff,
    Bool.not_eq_false'] at hfast
  have hcan : filterCanMatchResultGatedKinds f = true :=
    filterCanMatchKinds_of_kind h.kinds hkind
  rcases hfast.1.2 with hcannot | hself
  · rw [hcan] at hcannot
    cases hcannot
  · unfold resultGatedCountSafeForPushdown pTagIsSelf at hself
    cases hl : f.genericTags.lookup .p with
    | none => simp [hl] at hself
    | some values =>
        simp only [hl, Option.any_some, Bool.and_eq_true, List.all_eq_true,
          decide_eq_true_eq] at hself
        have htag := h.tags .p values hl
        rw [genericTagMatches_of_ne_h (by decide)] at htag
        obtain ⟨v, hv, hmem⟩ := htag
        rw [hself.2 v hv] at hmem
        exact hmem

end Gate

/-! ## One filter -/

section OneFilter

variable {db : Database} {f : Filter} {accessible : List Uuid} {community : CommunityId}
  {reader : PublicKey} {r : EventRow}

theorem fieldsHold_countQueryOf (community : CommunityId) (reader : PublicKey) (f : Filter)
    (accessible : List Uuid) (r : EventRow) :
    (FieldsHold (countQueryOf community reader f accessible) r ↔
      FieldsHold (filterToQueryParams f (extractChannelIdFromFilter f) community) r) ∧
    (countQueryOf community reader f accessible).untilClause r =
      (filterToQueryParams f (extractChannelIdFromFilter f) community).untilClause r ∧
    (countQueryOf community reader f accessible).matchesNothing =
      (filterToQueryParams f (extractChannelIdFromFilter f) community).matchesNothing := by
  cases h : hValues f with
  | none =>
      rw [countQueryOf_anywhere h]
      exact ⟨Iff.rfl, rfl, rfl⟩
  | some values =>
      rw [countQueryOf_channels h]
      exact ⟨Iff.rfl, rfl, rfl⟩

theorem queryWhere_fallback_iff :
    (applyCountFallbackLimit (countQueryOf community reader f accessible)).queryWhere r = true ↔
      (countQueryOf community reader f accessible).countWhere r = true ∧
        (countQueryOf community reader f accessible).sharedClause r = true := by
  have hplain : (countQueryOf community reader f accessible).customTag = none ∧
      (countQueryOf community reader f accessible).beforeId = none := by
    cases h : hValues f with
    | none => rw [countQueryOf_anywhere h]; exact ⟨rfl, rfl⟩
    | some values => rw [countQueryOf_channels h]; exact ⟨rfl, rfl⟩
  generalize countQueryOf community reader f accessible = q at hplain ⊢
  have hcursor : (applyCountFallbackLimit q).cursorClause r = q.untilClause r := by
    simp [EventQuery.cursorClause, EventQuery.untilClause, applyCountFallbackLimit, hplain.2]
  have hcustom : (applyCountFallbackLimit q).customTagClause r = true := by
    simp [EventQuery.customTagClause, applyCountFallbackLimit, hplain.1]
  simp only [EventQuery.queryWhere, EventQuery.countWhere, hcursor, hcustom, Bool.and_true,
    Bool.and_eq_true]
  rfl

theorem sharedGatedReader_countQueryOf (community : CommunityId) (reader : PublicKey) (f : Filter)
    (accessible : List Uuid) :
    (countQueryOf community reader f accessible).sharedGatedReader.all (· = reader) = true := by
  cases h : hValues f with
  | none =>
      rw [countQueryOf_anywhere h]
      cases filterCanMatchSharedGatedKinds f <;> simp
  | some values =>
      rw [countQueryOf_channels h]
      cases filterCanMatchSharedGatedKinds f <;> simp

theorem channelClauses_iff (community : CommunityId) (reader : PublicKey) (hf : CountFaithful f r)
    (hskip : countSkips f accessible = false) :
    (countQueryOf community reader f accessible).channelClause r = true ∧
        (countQueryOf community reader f accessible).channelIdsClause r = true ↔
      (∀ values, hValues f = some values → genericTagMatches r.stored .h values = true) ∧
        accessibleRow accessible r = true := by
  cases h : hValues f with
  | none =>
      have hchannel : extractChannelIdFromFilter f = none := by
        rw [extractChannelIdFromFilter, h]
        rfl
      rw [countQueryOf_anywhere h]
      simp only [EventQuery.channelClause, EventQuery.channelIdsClause, accessibleRow]
      rw [show (filterToQueryParams f (extractChannelIdFromFilter f) community).channelId =
        extractChannelIdFromFilter f from rfl, hchannel]
      cases hr : r.channelId <;> simp [filterToQueryParams, EventQuery.forCommunity]
  | some values =>
      rw [countScope_iff h hskip (hf.scopeReached values h), hf.channel values h]
      simp

theorem not_accessible_of_skip (hf : Faithful f r) (hskip : countSkips f accessible = true)
    (h : f.Accepts r.stored) : accessibleRow accessible r = false := by
  cases hv : hValues f with
  | none =>
      rw [countSkips_anywhere hv] at hskip
      cases hskip
  | some values =>
      obtain ⟨ch, hch, hr⟩ := (hf.channel values hv).2 (h.tags .h values hv)
      have hmiss := (countSkips_iff hv).1 hskip ch hch
      simp [accessibleRow, hr, hmiss]

theorem countWhere_iff_readable (hfast : countFastPath f (toHex reader) = true)
    (hskip : countSkips f accessible = false)
    (hnothing : (countQueryOf community reader f accessible).matchesNothing = false)
    (hf : readable f accessible reader r = true ∨
      (countQueryOf community reader f accessible).countWhere r = true → CountFaithful f r) :
    (countQueryOf community reader f accessible).countWhere r = true ↔
      readable f accessible reader r = true := by
  obtain ⟨hfields, huntil, hsame⟩ := fieldsHold_countQueryOf community reader f accessible r
  simp only [readable, Bool.and_eq_true] at hf ⊢
  constructor
  · intro hwhere
    have hfaithful := hf (Or.inr hwhere)
    rw [EventQuery.countWhere, Bool.and_eq_true, commonWhere_iff, hfields, huntil] at hwhere
    obtain ⟨⟨hholds, hclauses⟩, hbefore⟩ := hwhere
    obtain ⟨hchannel, haccess⟩ := (channelClauses_iff community reader hfaithful hskip).1 hclauses
    have hpush : filterFullyPushable f = true := by
      simp only [countFastPath, Bool.and_eq_true] at hfast
      exact hfast.1.1.1
    have haccepts := accepts_of_fields hfaithful.toFaithful hpush hholds hbefore
      (hsame ▸ hnothing) hchannel
    have hvisible : eventVisibleToReader r.event reader = true :=
      visible_of_fastPath hfast haccepts.kinds (fun authors ha _ => haccepts.authors authors ha)
        (owner_of_fastPath hfast haccepts)
    exact ⟨⟨filterMatchOne_iff.2 haccepts, haccess⟩, hvisible⟩
  · rintro ⟨⟨hmatch, haccess⟩, hvisible⟩
    have hfaithful := hf (Or.inl ⟨⟨hmatch, haccess⟩, hvisible⟩)
    have haccepts := filterMatchOne_iff.1 hmatch
    obtain ⟨hholds, hbefore, _⟩ := fields_of_accepts (extractChannelIdFromFilter f) community
      hfaithful.toFaithful haccepts
    rw [EventQuery.countWhere, Bool.and_eq_true, commonWhere_iff, hfields, huntil]
    have hclauses := (channelClauses_iff community reader hfaithful hskip).2
      ⟨haccepts.tags .h, haccess⟩
    exact ⟨⟨hholds, hclauses⟩, hbefore⟩

theorem fallback_iff_readable (hskip : countSkips f accessible = false)
    (hf : readable f accessible reader r = true ∨
        ((applyCountFallbackLimit (countQueryOf community reader f accessible)).queryWhere r = true ∧
          (filterMatchOne f r.stored && eventVisibleToReader r.event reader) = true) →
      CountFaithful f r) :
    ((applyCountFallbackLimit (countQueryOf community reader f accessible)).queryWhere r = true ∧
        (filterMatchOne f r.stored && eventVisibleToReader r.event reader) = true) ↔
      readable f accessible reader r = true := by
  obtain ⟨hfields, huntil, _⟩ := fieldsHold_countQueryOf community reader f accessible r
  constructor
  · intro hcounted
    have hfaithful := hf (Or.inr hcounted)
    rw [queryWhere_fallback_iff, EventQuery.countWhere, Bool.and_eq_true, commonWhere_iff,
      Bool.and_eq_true] at hcounted
    obtain ⟨⟨⟨⟨_, hclauses⟩, _⟩, _⟩, hmatch, hvisible⟩ := hcounted
    have haccess := ((channelClauses_iff community reader hfaithful hskip).1 hclauses).2
    simp only [readable, hmatch, haccess, hvisible, Bool.and_self]
  · intro hreadable
    have hfaithful := hf (Or.inl hreadable)
    simp only [readable, Bool.and_eq_true] at hreadable
    obtain ⟨⟨hmatch, haccess⟩, hvisible⟩ := hreadable
    have haccepts := filterMatchOne_iff.1 hmatch
    obtain ⟨hholds, hbefore, _⟩ := fields_of_accepts (extractChannelIdFromFilter f) community
      hfaithful.toFaithful haccepts
    have hclauses := (channelClauses_iff community reader hfaithful hskip).2
      ⟨haccepts.tags .h, haccess⟩
    have hshared := sharedClause_of_visible
      (sharedGatedReader_countQueryOf community reader f accessible) hvisible
    rw [queryWhere_fallback_iff, EventQuery.countWhere, Bool.and_eq_true, commonWhere_iff, hfields,
      huntil, Bool.and_eq_true]
    exact ⟨⟨⟨⟨hholds, hclauses⟩, hbefore⟩, hshared⟩, hmatch, hvisible⟩

/-- The filter counts the row, given the accessible channels at its turn. -/
def counts (community : CommunityId) (reader : PublicKey) (f : Filter) (accessible : List Uuid)
    (r : EventRow) : Bool :=
  let q := countQueryOf community reader f accessible
  !(countSkips f accessible || q.matchesNothing) &&
    (if countFastPath f (toHex reader) then q.countWhere r
      else (applyCountFallbackLimit q).queryWhere r &&
        (filterMatchOne f r.stored && eventVisibleToReader r.event reader))

theorem length_countedRows (db : Database) (community : CommunityId) (reader : PublicKey)
    (f : Filter) (accessible : List Uuid) :
    (countedRows db community reader f accessible).length =
      (db.undeleted community).countP (counts community reader f accessible) := by
  have hcommunity :
      (applyCountFallbackLimit (countQueryOf community reader f accessible)).communityId =
        community := (countQueryOf_defaults community reader f accessible).1
  unfold countedRows counts
  dsimp only
  cases countSkips f accessible || (countQueryOf community reader f accessible).matchesNothing with
  | true => simp
  | false =>
      cases countFastPath f (toHex reader) with
      | true => simp [List.countP_eq_length_filter]
      | false =>
          simp only [Bool.false_eq_true, if_false, Bool.not_false, Bool.true_and]
          rw [← List.countP_eq_length_filter, selected, (List.perm_insertionSort _ _).countP_eq,
            List.countP_filter, hcommunity]
          refine List.countP_congr ?_
          intro r _
          rw [Bool.and_comm]

theorem counts_iff_readable
    (hf : readable f accessible reader r = true ∨
      counts community reader f accessible r = true → CountFaithful f r) :
    counts community reader f accessible r = true ↔ readable f accessible reader r = true := by
  have hnone : (counts community reader f accessible r = false) →
      (CountFaithful f r → readable f accessible reader r = false) →
      (counts community reader f accessible r = true ↔
        readable f accessible reader r = true) := by
    intro hcounts hreadable
    have : readable f accessible reader r = false := by
      by_contra hnot
      rw [Bool.not_eq_false] at hnot
      rw [hreadable (hf (Or.inl hnot))] at hnot
      cases hnot
    simp [hcounts, this]
  cases hskip : countSkips f accessible with
  | true =>
      refine hnone (by simp [counts, hskip]) ?_
      intro hfaithful
      cases hmatch : filterMatchOne f r.stored with
      | false => simp [readable, hmatch]
      | true =>
          have := not_accessible_of_skip hfaithful.toFaithful hskip (filterMatchOne_iff.1 hmatch)
          simp [readable, this]
  | false =>
      cases hnothing : (countQueryOf community reader f accessible).matchesNothing with
      | true =>
          refine hnone (by simp [counts, hnothing]) ?_
          intro hfaithful
          cases hmatch : filterMatchOne f r.stored with
          | false => simp [readable, hmatch]
          | true =>
              obtain ⟨_, _, hsame⟩ := fieldsHold_countQueryOf community reader f accessible r
              obtain ⟨_, _, hsome⟩ := fields_of_accepts (extractChannelIdFromFilter f) community
                hfaithful.toFaithful (filterMatchOne_iff.1 hmatch)
              rw [hsame, hsome] at hnothing
              cases hnothing
      | false =>
          cases hfast : countFastPath f (toHex reader) with
          | true =>
              simp only [counts, hskip, hnothing, hfast, Bool.or_false, Bool.not_false,
                Bool.true_and, if_true] at hf ⊢
              exact countWhere_iff_readable hfast hskip hnothing hf
          | false =>
              simp only [counts, hskip, hnothing, hfast, Bool.or_false, Bool.not_false,
                Bool.true_and, Bool.false_eq_true, if_false] at hf ⊢
              rw [Bool.and_eq_true] at hf ⊢
              exact fallback_iff_readable hskip hf

end OneFilter

/-! ## All filters -/

section AllFilters

variable {db : Database} {lookups : Lookups} {community : CommunityId} {ctx : AuthContext}
  {filters : List Filter}

theorem mayAccess_of_mem_countTurns {accessible : List Uuid}
    (haccess : ∀ ch ∈ accessible, lookups.mayAccess ctx ch = true) {turn : Filter × List Uuid}
    (hturn : turn ∈ countTurns lookups ctx filters accessible) :
    turn.1 ∈ filters ∧ ∀ ch ∈ turn.2, lookups.mayAccess ctx ch = true := by
  induction filters generalizing accessible with
  | nil => cases hturn
  | cons f filters ih =>
      have hnext : ∀ ch ∈ (accessAfter lookups ctx f accessible).toOption.getD accessible,
          lookups.mayAccess ctx ch = true := by
        cases hafter : accessAfter lookups ctx f accessible with
        | error e => exact haccess
        | ok accessible' =>
            intro ch hch
            unfold accessAfter at hafter
            cases hx : extractChannelIdsFromFilters [f] with
            | none =>
                rw [hx] at hafter
                rw [← Except.ok.inj hafter] at hch
                exact haccess ch hch
            | some requested =>
                rw [hx, Option.elim_some] at hafter
                rcases (mem_confirmChannels hafter ch).1 hch with hmem | ⟨_, htoken, hmember⟩
                · exact haccess ch hmem
                · simp [Lookups.mayAccess, htoken, hmember, Except.toOption]
      rw [countTurns, List.mem_cons] at hturn
      rcases hturn with rfl | hturn
      · exact ⟨List.mem_cons_self, hnext⟩
      · obtain ⟨hmem, hacc⟩ := ih hnext hturn
        exact ⟨List.mem_cons_of_mem _ hmem, hacc⟩

theorem map_fst_countTurns (lookups : Lookups) (ctx : AuthContext) (filters : List Filter)
    (accessible : List Uuid) : (countTurns lookups ctx filters accessible).map Prod.fst = filters := by
  induction filters generalizing accessible with
  | nil => rfl
  | cons f filters ih =>
      rw [countTurns, List.map_cons, ih]

variable (db lookups community ctx) in
/-- At its turn the filter is faithful about every row that is counted or should be, and the row's
channel is among those that the request knows of by then. -/
def TurnFaithful (turn : Filter × List Uuid) : Prop :=
  ∀ r ∈ db.undeleted community,
    wantedRow lookups ctx turn.1 r = true ∨ counts community ctx.pubkey turn.1 turn.2 r = true →
      CountFaithful turn.1 r ∧ accessibleRow turn.2 r = true

theorem counts_eq_wanted {turn : Filter × List Uuid}
    (hfaithful : TurnFaithful db lookups community ctx turn)
    (haccess : ∀ ch ∈ turn.2, lookups.mayAccess ctx ch = true) {r : EventRow}
    (hr : r ∈ db.undeleted community) :
    counts community ctx.pubkey turn.1 turn.2 r = wantedRow lookups ctx turn.1 r := by
  have hwanted : readable turn.1 turn.2 ctx.pubkey r = true → wantedRow lookups ctx turn.1 r = true := by
    simp only [readable, wantedRow, filtersMatch_singleton, accessibleRow, Bool.and_eq_true,
      Option.all_eq_true, decide_eq_true_eq]
    rintro ⟨⟨hmatch, hchannel⟩, hvisible⟩
    exact ⟨⟨hmatch, fun ch hch => haccess ch (hchannel ch hch)⟩, hvisible⟩
  have hiff : counts community ctx.pubkey turn.1 turn.2 r = true ↔
      readable turn.1 turn.2 ctx.pubkey r = true := by
    refine counts_iff_readable ?_
    rintro (h | h)
    · exact (hfaithful r hr (Or.inl (hwanted h))).1
    · exact (hfaithful r hr (Or.inr h)).1
  rw [Bool.eq_iff_iff, hiff]
  constructor
  · exact hwanted
  · intro h
    have hrow := (hfaithful r hr (Or.inl h)).2
    simp only [wantedRow, filtersMatch_singleton, Bool.and_eq_true] at h
    simp only [readable, h.1.1, hrow, h.2, Bool.and_self]

/-- The distinct events that the reader may count: undeleted events of the community, in no
channel or in an accessible one, that the filters accept and that are visible. -/
def countableEvents (db : Database) (lookups : Lookups) (community : CommunityId)
    (ctx : AuthContext) (filters : List Filter) : Finset EventId :=
  (((db.undeleted community).filter fun r =>
    filtersMatch filters r.stored && r.channelId.all (lookups.mayAccess ctx) &&
      eventVisibleToReader r.event ctx.pubkey).map fun r => r.event.id).toFinset

theorem card_countableEvents (db : Database) (lookups : Lookups) (community : CommunityId)
    (ctx : AuthContext) (filters : List Filter) :
    (countableEvents db lookups community ctx filters).card =
      (db.undeleted community).countP fun r => filters.any fun f => wantedRow lookups ctx f r := by
  unfold countableEvents
  rw [List.toFinset_card_of_nodup, List.length_map, ← List.countP_eq_length_filter]
  · refine List.countP_congr ?_
    intro r _
    simp only [wantedRow, filtersMatch, List.any_cons, List.any_nil, Bool.or_false, Bool.and_eq_true,
      List.any_eq_true]
    constructor
    · rintro ⟨⟨⟨f, hf, hmatch⟩, hacc⟩, hvisible⟩
      exact ⟨f, hf, ⟨hmatch, hacc⟩, hvisible⟩
    · rintro ⟨f, hf, ⟨hmatch, hacc⟩, hvisible⟩
      exact ⟨⟨⟨f, hf, hmatch⟩, hacc⟩, hvisible⟩
  · exact (db.nodup_undeleted community).sublist (List.filter_sublist.map _)

end AllFilters

/-- If every filter is faithful at its turn, and no two filters accept the same countable event,
the number that COUNT answers is the number of distinct events that the reader may count. -/
theorem handleCount_exact (db : Database) (lookups : Lookups) (community : CommunityId)
    (ctx : AuthContext) (subId : SubId) (filters : List Filter) (ids : List Uuid)
    (hids : lookups.accessibleChannelIds ctx.pubkey = .ok ids)
    (hfaithful : ∀ turn ∈ countTurns lookups ctx filters (ctx.narrow ids),
      TurnFaithful db lookups community ctx turn)
    (hdisjoint : filters.Pairwise fun f g => ∀ r ∈ db.undeleted community,
      ¬(wantedRow lookups ctx f r = true ∧ wantedRow lookups ctx g r = true))
    (subId' : SubId) (total : Nat)
    (h : handleCount db lookups community (some ctx) subId filters = .count subId' total) :
    total = (countableEvents db lookups community ctx filters).card := by
  obtain ⟨ctx', ids', hctx, hids', htotal⟩ := handleCount_count h
  obtain rfl := Option.some.inj hctx
  obtain rfl := Except.ok.inj (hids.symm.trans hids')
  have hturns : (filters.map fun f => (db.undeleted community).countP (wantedRow lookups ctx f)) =
      (countTurns lookups ctx filters (ctx.narrow ids)).map fun turn =>
        (db.undeleted community).countP (wantedRow lookups ctx turn.1) := by
    conv_lhs => rw [← map_fst_countTurns lookups ctx filters (ctx.narrow ids)]
    rw [List.map_map]
    rfl
  rw [htotal, card_countableEvents, ← Counting.sum_countP_eq_countP_any _ hdisjoint, hturns,
    counted, List.length_flatMap]
  congr 1
  refine List.map_congr_left ?_
  intro turn hturn
  rw [length_countedRows]
  refine List.countP_congr ?_
  intro r hr
  rw [counts_eq_wanted (hfaithful turn hturn) (mayAccess_of_mem_countTurns (mayAccess_of_mem_narrow hids) hturn).2 hr]

section Samples

theorem countFaithful_sampleFilter (kind : Kind) (r : EventRow) :
    CountFaithful (sampleFilter kind) r := by
  -- the fields that a clause is about are unset
  refine ⟨⟨?_, ?_, ?_, ?_, ?_, ?_, ?_, ?_, ?_⟩, ?_⟩ <;> intros <;> contradiction

theorem countFaithful_inChannels (kind : Kind) (id : EventId) :
    CountFaithful (inChannels (.singleton sampleChannelText) (sampleFilter kind))
      (sampleRow id kind (some 1)) := by
  have hlookup : ∀ key values,
      (inChannels (.singleton sampleChannelText) (sampleFilter kind)).genericTags.lookup key =
        some values → key = .h ∧ values = .singleton sampleChannelText := by
    intro key values h
    rw [inChannels, HashMap.lookup_insert_eq] at h
    split at h
    · next hkey => exact ⟨hkey, (Option.some.inj h).symm⟩
    · cases h
  refine ⟨⟨?_, ?_, ?_, ?_, ?_, ?_, ?_, ?_, ?_⟩, ?_⟩
  · intro _ h
    cases h
  · intro _ h
    cases h
  · intro key values h
    rw [(hlookup key values h).2]
    decide
  · intro _ h
    cases h
  · intro _ h
    cases h
  · intro values _ h
    cases (hlookup .p values h).1
  · intro values h
    cases (hlookup .e values h).1
  · intro _ values h
    cases (hlookup .d values h).1
  · intro values h
    rw [(hlookup .h values h).2]
    have hin : InRequested (.singleton sampleChannelText) (sampleRow id kind (some 1)) :=
      ⟨1, by decide, rfl⟩
    exact iff_of_true hin (by rfl)
  · intro values h _
    rw [(hlookup .h values h).2]
    exact Or.inl rfl

theorem handleCount_exact_sampleDb :
    handleCount sampleDb sampleLookups ⟨0⟩ (some sampleReader) "s"
        [inChannels (.singleton sampleChannelText) (sampleFilter 9), sampleFilter 1] =
      .count "s" 2 ∧
    2 = (countableEvents sampleDb sampleLookups ⟨0⟩ sampleReader
        [inChannels (.singleton sampleChannelText) (sampleFilter 9), sampleFilter 1]).card := by
  have hturns : countTurns sampleLookups sampleReader
      [inChannels (.singleton sampleChannelText) (sampleFilter 9), sampleFilter 1]
      (sampleReader.narrow [1]) =
        [(inChannels (.singleton sampleChannelText) (sampleFilter 9), [1]), (sampleFilter 1, [1])] :=
    rfl
  refine ⟨rfl, handleCount_exact sampleDb sampleLookups ⟨0⟩ sampleReader "s" _ [1] rfl ?_ ?_
    "s" 2 rfl⟩
  · intro turn hturn r hr hjudged
    rw [hturns] at hturn
    have hrows : r = sampleRow 1 9 (some 1) ∨ r = sampleRow 2 1 none ∨
        r = sampleRow 3 9 (some 2) := by
      have hmem := (Database.mem_undeleted.1 hr).1
      simpa [sampleDb] using hmem
    rcases List.mem_cons.1 hturn with rfl | hturn
    · rcases hrows with rfl | rfl | rfl
      · exact ⟨countFaithful_inChannels 9 1, rfl⟩
      · exact absurd hjudged (by decide)
      · exact absurd hjudged (by decide)
    · obtain rfl := List.mem_singleton.1 hturn
      refine ⟨countFaithful_sampleFilter 1 r, ?_⟩
      rcases hrows with rfl | rfl | rfl
      · rfl
      · rfl
      · exact absurd hjudged (by decide)
  · decide

/-- A `#h` list with a channel and a text that is no channel. -/
def mixedValues : BTreeSet String := ⟨[sampleChannelText, "x"], by decide⟩

/-- With a second `#h` value that is no channel the statement is left unscoped, and the message in
channel 2, which the reader may not access, is counted. -/
theorem unscoped_not_exact :
    handleCount sampleDb sampleLookups ⟨0⟩ (some sampleReader) "s"
        [inChannels mixedValues (sampleFilter 9)] = .count "s" 2 ∧
      (countableEvents sampleDb sampleLookups ⟨0⟩ sampleReader
        [inChannels mixedValues (sampleFilter 9)]).card ≠ 2 := by
  refine ⟨rfl, ?_⟩
  decide

end Samples

end Relay
end Maju
