import Maju.Lib.Paging
import Maju.Db.Timeline
import Maju.Relay.Read.Reach

/-!
# HistoryExact — when historical delivery is complete

The statement of a history request applies the limit; the checks of the relay come afterwards.  A
request therefore reads the timeline as a paging reader does: the statement fetches, the relay
drops, and the client asks again behind the last event it received.
-/

namespace Maju
namespace Relay

open Lib Core Db

/-! ## One request -/

/-- How many events a page should have. -/
def pageSize (f : Filter) : Nat :=
  min (f.limit.elim defaultMaxPageLimit.toNat UInt64.toNat) defaultMaxPageLimit.toNat

/-- How many rows the statement of a filter fetches at most: none for an empty list of kinds or a
limit that wraps to a negative number. -/
def fetchLimit (f : Filter) : Nat :=
  if f.kinds.any BTreeSet.isEmpty then 0
  else (f.limit.elim defaultMaxPageLimit fun l => min (asI64 l) defaultMaxPageLimit).toNat

theorem fetchLimit_le_pageSize (f : Filter) : fetchLimit f ≤ pageSize f := by
  unfold fetchLimit pageSize defaultMaxPageLimit
  split
  · exact Nat.zero_le _
  · cases f.limit with
    | none => simp
    | some l =>
        simp only [Option.elim_some, asI64]
        split <;> omega

theorem unseen_eq_self (seen : List EventId) (events : List StoredEvent)
    (hnodup : (events.map fun e => e.event.id).Nodup)
    (hfresh : ∀ e ∈ events, e.event.id ∉ seen) : unseen seen events = events := by
  induction events generalizing seen with
  | nil => rfl
  | cons e events ih =>
      obtain ⟨hnew, hnodup⟩ := List.nodup_cons.1 hnodup
      rw [unseen, if_neg (hfresh e List.mem_cons_self), ih _ hnodup]
      intro e' he' hmem
      rcases List.mem_cons.1 hmem with heq | hmem
      · exact hnew (List.mem_map.2 ⟨e', he', heq⟩)
      · exact hfresh e' (List.mem_cons_of_mem _ he') hmem

section Requests

variable (db : Database) (search : SearchService)
  (liveness : List Uuid → List Filter → List RelayMessage) (lookups : Lookups)
  (community : CommunityId) (ctx : AuthContext) (subId : SubId)

/-- The events that answer a REQ with one filter. -/
def history (subs : HashMap SubId (List Filter)) (f : Filter) (beforeId : Option EventId) :
    List Event :=
  sentEvents (handleReq db search liveness lookups community (some ctx) subs subId [(f, beforeId)])

/-- The query of a REQ with one filter. -/
def queryOf (accessible : List Uuid) (f : Filter) (beforeId : Option EventId) : EventQuery :=
  historyQuery community ctx.pubkey (extractChannelIdFromFilters [f]) accessible f beforeId

variable {db search liveness lookups community ctx subId}

theorem queryOf_fetchSize (accessible : List Uuid) (f : Filter) (beforeId : Option EventId) :
    (queryOf community ctx accessible f beforeId).fetchSize = fetchLimit f := by
  have hnothing : (queryOf community ctx accessible f beforeId).matchesNothing =
      f.kinds.any BTreeSet.isEmpty := by
    have hsame : (queryOf community ctx accessible f beforeId).matchesNothing =
        (filterToQueryParams f (historyChannel f) community).matchesNothing := by
      rw [queryOf, historyQuery_eq]
      rfl
    rw [hsame, matchesNothing_params]
    change (f.kinds.map _).any _ = _
    cases f.kinds <;> simp [BTreeSet.isEmpty]
  have hlimit : (queryOf community ctx accessible f beforeId).limitVal =
      f.limit.elim defaultMaxPageLimit fun l => min (asI64 l) defaultMaxPageLimit := by
    rw [queryOf, historyQuery_eq]
    change min (f.limit.elim defaultMaxPageLimit fun l => min (asI64 l) defaultMaxPageLimit)
      defaultMaxPageLimit = _
    cases f.limit <;> simp
  rw [EventQuery.fetchSize, hnothing, hlimit, fetchLimit]

theorem readable_stored (f : Filter) (accessible : List Uuid) (reader : PublicKey) (r : EventRow) :
    deliverable f accessible reader r.stored = readable f accessible reader r := by
  rw [deliverable, filtersMatch_singleton]
  rfl

theorem history_eq_page {subs : HashMap SubId (List Filter)} {f : Filter}
    {beforeId : Option EventId} {accessible : List Uuid}
    (hroute : routeReq lookups (some ctx) subs subId [f] = .history accessible)
    (hcursor : beforeId.isSome = true →
      (queryOf community ctx accessible f beforeId).untilAt.isSome = true) :
    history db search liveness lookups community ctx subId subs f beforeId =
      ((((timeline db community).filter
          (queryOf community ctx accessible f beforeId).queryWhere).take (fetchLimit f)).filter
        (readable f accessible ctx.pubkey)).map EventRow.event := by
  have hpage : Db.page db (queryOf community ctx accessible f beforeId) =
      ((timeline db community).filter
        (queryOf community ctx accessible f beforeId).queryWhere).take (fetchLimit f) := by
    rw [Db.page, selected_eq_filter, queryOf_fetchSize, queryOf, historyQuery_eq]
    rfl
  have hfields : (queryOf community ctx accessible f beforeId).offset = none ∧
      (queryOf community ctx accessible f beforeId).globalOnly = false ∧
      (queryOf community ctx accessible f beforeId).beforeId = beforeId := by
    rw [queryOf, historyQuery_eq]
    exact ⟨rfl, rfl, rfl⟩
  have hmessages : history db search liveness lookups community ctx subId subs f beforeId =
      sentEvents (deliverHistory db community ctx.pubkey (extractChannelIdFromFilters [f]) accessible
        subId [(f, beforeId)] []) := by
    unfold history handleReq
    simp only [List.map_cons, List.map_nil, hroute]
  rw [hmessages, ← hpage]
  have hquery : historyQuery community ctx.pubkey (extractChannelIdFromFilters [f]) accessible f
      beforeId = queryOf community ctx accessible f beforeId := rfl
  simp only [deliverHistory, hquery]
  by_cases hlimit : 0 ≤ (queryOf community ctx accessible f beforeId).limitVal
  · rw [queryEventsOn_eq_page (by rw [hfields.2.2]; exact hcursor) hfields.2.1 hfields.1 hlimit]
    dsimp only
    have hkept : ((Db.page db (queryOf community ctx accessible f beforeId)).map
          EventRow.stored).filter (deliverable f accessible ctx.pubkey) =
        ((Db.page db (queryOf community ctx accessible f beforeId)).filter
          (readable f accessible ctx.pubkey)).map EventRow.stored := by
      rw [List.filter_map]
      congr 1
      refine List.filter_congr ?_
      intro r _
      exact readable_stored f accessible ctx.pubkey r
    rw [hkept, unseen_eq_self]
    · simp [sentEvents, List.filterMap_map, Function.comp_def, EventRow.stored]
    · rw [List.map_map]
      have hids := nodup_ids_timeline db community
      rw [hpage]
      exact hids.sublist (((List.filter_sublist.trans (List.take_sublist _ _)).trans
        List.filter_sublist).map _)
    · simp
  · -- the statement fails or is not run
    have hnone : Db.page db (queryOf community ctx accessible f beforeId) = [] := by
      rw [Db.page, EventQuery.fetchSize, Int.toNat_of_nonpos (by omega), ite_self, List.take_zero]
    rw [hnone]
    cases hq : queryEventsOn db (queryOf community ctx accessible f beforeId) with
    | error e => rfl
    | ok events =>
        rw [queryEventsOn_ok hfields.1 hq, hnone]
        rfl

/-! ## The next request -/

/-- The filter of the next page, behind the row `c`. -/
def behindFilter (f : Filter) (c : EventRow) : Filter :=
  { f with untilAt := some c.event.createdAt }

section Cursor

variable {f : Filter} {accessible : List Uuid} {c : EventRow}

theorem queryOf_behindFilter (accessible : List Uuid) (f : Filter) (c : EventRow) :
    queryOf community ctx accessible (behindFilter f c) (some c.event.id) =
      { queryOf community ctx accessible f none with
        untilAt := some c.createdAt
        beforeId := some c.event.id } := by
  have hbound : fromTimestamp (asI64 c.event.createdAt) = some c.createdAt :=
    fromTimestamp_asI64 c.fits
  rw [queryOf, queryOf, historyQuery_eq, historyQuery_eq, ← hbound]
  rfl

theorem queryWhere_behindFilter
    (hc : (queryOf community ctx accessible f none).queryWhere c = true) (r : EventRow) :
    (queryOf community ctx accessible (behindFilter f c) (some c.event.id)).queryWhere r =
      (decide (Behind c r) && (queryOf community ctx accessible f none).queryWhere r) := by
  have hnone : (queryOf community ctx accessible f none).beforeId = none := by
    rw [queryOf, historyQuery_eq]
  rw [queryOf_behindFilter]
  generalize queryOf community ctx accessible f none = q at hc hnone ⊢
  have hcursor : EventQuery.cursorClause
      { q with untilAt := some c.createdAt, beforeId := some c.event.id } r =
        decide (Behind c r) := by
    rw [Bool.eq_iff_iff, decide_eq_true_eq]
    simp [EventQuery.cursorClause, Behind]
  have hwider : Behind c r → q.cursorClause c = true → q.cursorClause r = true := by
    unfold EventQuery.cursorClause Behind
    rw [hnone]
    cases q.untilAt with
    | none => simp
    | some u =>
        simp only [Option.all_some, decide_eq_true_eq]
        omega
  have hc' : q.cursorClause c = true := by
    simp only [EventQuery.queryWhere, Bool.and_eq_true] at hc
    exact hc.1.2
  unfold EventQuery.queryWhere
  rw [hcursor]
  by_cases hbehind : Behind c r
  · rw [decide_eq_true hbehind, hwider hbehind hc']
    rfl
  · simp [hbehind]

theorem readable_behindFilter {reader : PublicKey} (hc : readable f accessible reader c = true)
    {r : EventRow} (hbehind : r.createdAt ≤ c.createdAt) :
    readable (behindFilter f c) accessible reader r = readable f accessible reader r := by
  have hle : r.event.createdAt.toNat ≤ c.event.createdAt.toNat := by
    unfold EventRow.createdAt at hbehind
    omega
  have hmatch : filterMatchOne (behindFilter f c) r.stored = filterMatchOne f r.stored := by
    have hac : f.Accepts c.stored := by
      simp only [readable, Bool.and_eq_true] at hc
      exact filterMatchOne_iff.1 hc.1.1
    rw [Bool.eq_iff_iff, filterMatchOne_iff, filterMatchOne_iff]
    constructor
    · intro h
      exact ⟨h.kinds, h.authors, h.since, fun u hu => hle.trans (hac.untilAt u hu), h.ids, h.tags⟩
    · intro h
      refine ⟨h.kinds, h.authors, h.since, ?_, h.ids, h.tags⟩
      intro u hu
      obtain rfl := Option.some.inj hu
      exact hle
  simp only [readable, hmatch]

theorem history_behind {subs : HashMap SubId (List Filter)} {front back : List EventRow}
    (hsplit : timeline db community = front ++ c :: back)
    (hroute : routeReq lookups (some ctx) subs subId [f] = .history accessible)
    (hselected : (queryOf community ctx accessible f none).queryWhere c = true)
    (hreadable : readable f accessible ctx.pubkey c = true) :
    history db search liveness lookups community ctx subId subs (behindFilter f c)
        (some c.event.id) =
      (Paging.page (queryOf community ctx accessible f none).queryWhere
        (readable f accessible ctx.pubkey) (fetchLimit f) back).map EventRow.event := by
  have hcursor : (queryOf community ctx accessible (behindFilter f c)
      (some c.event.id)).untilAt.isSome = true := by
    rw [queryOf_behindFilter]
    rfl
  have hbehindRoute : routeReq lookups (some ctx) subs subId [behindFilter f c] =
      .history accessible := hroute
  rw [history_eq_page hbehindRoute fun _ => hcursor, funext (queryWhere_behindFilter hselected),
    filter_behind hsplit, Paging.page]
  congr 1
  refine List.filter_congr ?_
  intro r hr
  refine readable_behindFilter hreadable ?_
  have hback : r ∈ back := (List.mem_filter.1 (List.mem_of_mem_take hr)).1
  have hpairwise := pairwise_timeline db community
  rw [hsplit] at hpairwise
  have hnewest := List.rel_of_pairwise_cons (List.pairwise_append.1 hpairwise).2.1 hback
  unfold NewestFirst at hnewest
  omega

end Cursor

/-! ## Repeating the request -/

variable (db search liveness lookups community ctx subId) in
/-- The events of all pages: after each page the client sends the same subscription again, with
`until` and `before_id` of the last event it received, until a page is empty. -/
inductive Pages : HashMap SubId (List Filter) → Filter → Option EventId → List Event → Prop
  | stop {subs : HashMap SubId (List Filter)} {f : Filter} {beforeId : Option EventId}
      (h : history db search liveness lookups community ctx subId subs f beforeId = []) :
      Pages subs f beforeId []
  | next {subs : HashMap SubId (List Filter)} {f : Filter} {beforeId : Option EventId}
      {last : Event} {rest : List Event}
      (h : (history db search liveness lookups community ctx subId subs f beforeId).getLast? =
        some last)
      (hrest : Pages (subs.insert subId [f]) { f with untilAt := some last.createdAt }
        (some last.id) rest) :
      Pages subs f beforeId
        (history db search liveness lookups community ctx subId subs f beforeId ++ rest)

theorem Pages.unique {subs : HashMap SubId (List Filter)} {f : Filter}
    {beforeId : Option EventId} {evs evs' : List Event}
    (h : Pages db search liveness lookups community ctx subId subs f beforeId evs)
    (h' : Pages db search liveness lookups community ctx subId subs f beforeId evs') :
    evs = evs' := by
  induction h generalizing evs' with
  | stop hnil =>
      cases h' with
      | stop => rfl
      | next hlast => simp [hnil] at hlast
  | next hlast _ ih =>
      cases h' with
      | stop hnil => simp [hnil] at hlast
      | next hlast' hrest' =>
          obtain rfl := Option.some.inj (hlast.symm.trans hlast')
          rw [ih hrest']

section Paged

variable {f : Filter} {accessible : List Uuid}

theorem pages_of_paged {V all : List EventRow}
    (h : Paging.Paged (queryOf community ctx accessible f none).queryWhere
      (readable f accessible ctx.pubkey) (fetchLimit f) V all)
    {front : List EventRow} (hV : timeline db community = front ++ V)
    {subs : HashMap SubId (List Filter)} {g : Filter} {beforeId : Option EventId}
    (hg : ∃ untilAt, g = { f with untilAt := untilAt })
    (hroute : routeReq lookups (some ctx) subs subId [f] = .history accessible)
    (hsent : history db search liveness lookups community ctx subId subs g beforeId =
      (Paging.page (queryOf community ctx accessible f none).queryWhere
        (readable f accessible ctx.pubkey) (fetchLimit f) V).map EventRow.event) :
    Pages db search liveness lookups community ctx subId subs g beforeId
      (all.map EventRow.event) := by
  induction h generalizing front subs g beforeId with
  | stop hnil =>
      rw [hnil] at hsent
      exact .stop hsent
  | @next V₁ V₂ c rest hlast _ ih =>
      have hnodup : (V₁ ++ c :: V₂).Nodup := by
        have := nodup_timeline db community
        rw [hV] at this
        exact List.Nodup.of_append_right this
      obtain ⟨_, hselected, hreadable⟩ := Paging.page_of_last hnodup hlast
      have hsplit : timeline db community = (front ++ V₁) ++ c :: V₂ := by
        rw [hV, List.append_assoc]
      rw [List.map_append, ← hsent]
      refine .next (show _ = some c.event from ?_) ?_
      · rw [hsent, List.getLast?_map, hlast]
        rfl
      · have hagain := routeReq_again hroute [g]
        obtain ⟨untilAt, rfl⟩ := hg
        have hfront : timeline db community = (front ++ V₁ ++ [c]) ++ V₂ := by
          rw [hsplit, List.append_assoc _ [c] V₂]
          rfl
        have hnext : history db search liveness lookups community ctx subId
            (subs.insert subId [{ f with untilAt := untilAt }]) (behindFilter f c)
            (some c.event.id) = _ := history_behind hsplit hagain hselected hreadable
        exact ih hfront (g := behindFilter f c) ⟨some c.event.createdAt, rfl⟩ hagain hnext

end Paged

/-! ## Exactness -/

variable (db lookups community ctx) in
/-- The events that the reader should receive, newest first. -/
def newestWanted (f : Filter) : List EventRow :=
  (timeline db community).filter (wantedRow lookups ctx f)

variable (db community ctx) in
/-- The rows that the statement of a filter accepts, newest first. -/
def newestSelected (accessible : List Uuid) (f : Filter) : List EventRow :=
  (timeline db community).filter (queryOf community ctx accessible f none).queryWhere

variable (db lookups community ctx) in
/-- Nothing that the reader should receive is lost: every wanted row is reached, the newest wanted
rows are among the newest rows that the statement accepts, and no page full of accepted rows that
nobody wants stands in front of a wanted one. -/
structure HistoryFaithful (accessible : List Uuid) (f : Filter) : Prop where
  reached : ∀ r ∈ db.undeleted community, wantedRow lookups ctx f r = true → Reached lookups ctx f r
  first : ∀ r ∈ (newestWanted db lookups community ctx f).take (pageSize f),
    r ∈ (newestSelected db community ctx accessible f).take (fetchLimit f)
  bridged : Paging.Bridged (wantedRow lookups ctx f) (fetchLimit f)
    (newestSelected db community ctx accessible f)

theorem wanted_of_readable {f : Filter} {accessible : List Uuid}
    {subs : HashMap SubId (List Filter)}
    (hroute : routeReq lookups (some ctx) subs subId [f] = .history accessible) {r : EventRow}
    (h : readable f accessible ctx.pubkey r = true) : wantedRow lookups ctx f r = true := by
  simp only [readable, wantedRow, filtersMatch_singleton, accessibleRow, Bool.and_eq_true,
    Option.all_eq_true, decide_eq_true_eq] at h ⊢
  exact ⟨⟨h.1.1, fun ch hch => mayAccess_of_knows ((mem_accessible_iff (Or.inl hroute) ch).1 (h.1.2 ch hch))⟩,
    h.2⟩

theorem readable_iff_accessible {f : Filter} {accessible : List Uuid} {r : EventRow}
    (h : wantedRow lookups ctx f r = true) :
    readable f accessible ctx.pubkey r = true ↔ accessibleRow accessible r = true := by
  simp only [readable, wantedRow, filtersMatch_singleton, Bool.and_eq_true] at h ⊢
  tauto

end Requests

/-- Of a filter that is answered with history: the first answer has the newest events that the
reader should receive, up to the limit, and all answers together have each of them once, if and
only if no such event is lost by the statement, none is pushed off the first page, and no gap is
as long as a page. -/
theorem history_exact_iff (db : Database) (search : SearchService)
    (liveness : List Uuid → List Filter → List RelayMessage) (lookups : Lookups)
    (community : CommunityId) (ctx : AuthContext) (subId : SubId)
    (subs : HashMap SubId (List Filter)) (f : Filter) (accessible : List Uuid)
    (hroute : routeReq lookups (some ctx) subs subId [f] = .history accessible) :
    (history db search liveness lookups community ctx subId subs f none =
        ((newestWanted db lookups community ctx f).take (pageSize f)).map EventRow.event ∧
      ∃ evs, Pages db search liveness lookups community ctx subId subs f none evs ∧
        evs.Perm ((newestWanted db lookups community ctx f).map EventRow.event)) ↔
      HistoryFaithful db lookups community ctx accessible f := by
  obtain ⟨all, hpaged⟩ := Paging.exists_paged (queryOf community ctx accessible f none).queryWhere
    (readable f accessible ctx.pubkey) (fetchLimit f) (timeline db community)
  have hsent : history db search liveness lookups community ctx subId subs f none =
      (Paging.page (queryOf community ctx accessible f none).queryWhere
        (readable f accessible ctx.pubkey) (fetchLimit f) (timeline db community)).map
        EventRow.event := history_eq_page hroute (by simp)
  have hpages : Pages db search liveness lookups community ctx subId subs f none
      (all.map EventRow.event) :=
    pages_of_paged hpaged (List.nil_append _).symm ⟨f.untilAt, rfl⟩ hroute hsent
  have hspec := Paging.paged_exact_iff (fetchLimit_le_pageSize f) hpaged
    (nodup_timeline db community) fun r _ => wanted_of_readable hroute
  have hfirst : history db search liveness lookups community ctx subId subs f none =
        ((newestWanted db lookups community ctx f).take (pageSize f)).map EventRow.event ↔
      Paging.page (queryOf community ctx accessible f none).queryWhere
        (readable f accessible ctx.pubkey) (fetchLimit f) (timeline db community) =
          (newestWanted db lookups community ctx f).take (pageSize f) := by
    rw [hsent]
    constructor
    · refine eq_of_map_event_eq db community ?_ ?_
      · intro r hr
        exact (List.mem_filter.1 (List.mem_of_mem_take (List.mem_filter.1 hr).1)).1
      · intro r hr
        exact (List.mem_filter.1 (List.mem_of_mem_take hr)).1
    · intro h
      rw [h]
  have hall : (∃ evs, Pages db search liveness lookups community ctx subId subs f none evs ∧
        evs.Perm ((newestWanted db lookups community ctx f).map EventRow.event)) ↔
      ∀ r ∈ timeline db community, wantedRow lookups ctx f r = true → r ∈ all := by
    constructor
    · rintro ⟨evs, hevs, hperm⟩ r hr hwanted
      rw [hevs.unique hpages] at hperm
      have hmem : r.event ∈ all.map EventRow.event :=
        hperm.mem_iff.2 (List.mem_map_of_mem (List.mem_filter.2 ⟨hr, hwanted⟩))
      obtain ⟨s, hs, hevent⟩ := List.mem_map.1 hmem
      rw [← eq_of_id_eq (hpaged.mem hs).1 hr (congrArg Event.id hevent)]
      exact hs
    · intro hcomplete
      refine ⟨_, hpages, ?_⟩
      rw [hpaged.eq_filter_of_complete (nodup_timeline db community)
        (fun r _ => wanted_of_readable hroute) hcomplete]
      exact List.Perm.refl _
  have hreached : (∀ r ∈ timeline db community, wantedRow lookups ctx f r = true →
        readable f accessible ctx.pubkey r = true ∧
          (queryOf community ctx accessible f none).queryWhere r = true) ↔
      ∀ r ∈ db.undeleted community, wantedRow lookups ctx f r = true → Reached lookups ctx f r := by
    refine forall_congr' fun r => ?_
    rw [mem_timeline]
    refine imp_congr_right fun _ => imp_congr_right fun hwanted => ?_
    rw [readable_iff_accessible hwanted]
    exact reached_iff hroute hwanted
  rw [hfirst, hall]
  refine hspec.trans ?_
  rw [hreached]
  constructor
  · rintro ⟨hr, hpage, hbridged⟩
    exact ⟨hr, hpage, hbridged⟩
  · intro h
    exact ⟨h.reached, h.first, h.bridged⟩

section Samples

theorem reached_sampleFilter (kinds : BTreeSet Kind) (limit : Option UInt64) (r : EventRow)
    (hchannel : r.channelId = some 1 ∨ r.channelId = none)
    (hkinds : filtersAreNip43MembershipOnly [{ Filter.new with kinds := some kinds, limit := limit }] =
      false) :
    Reached sampleLookups sampleReader { Filter.new with kinds := some kinds, limit := limit } r := by
  refine ⟨?_, ?_, ?_, ?_, ?_⟩
  · intro ch hch
    rcases hchannel with h | h
    · obtain rfl := Option.some.inj (h.symm.trans hch)
      simp [Lookups.knows, hkinds, AuthContext.tokenAllows, sampleReader, sampleLookups,
        Except.toOption]
    · rw [h] at hch
      cases hch
  all_goals
    intros
    contradiction

/-- The history of the messages in channel 1 is complete. -/
theorem history_exact_iff_sampleDb :
    routeReq sampleLookups (some sampleReader) ∅ "s" [sampleFilter 9] = .history [1] ∧
    history sampleDb (fun _ => .ok []) (fun _ _ => []) sampleLookups ⟨0⟩ sampleReader "s" ∅
        (sampleFilter 9) none =
      ((newestWanted sampleDb sampleLookups ⟨0⟩ sampleReader (sampleFilter 9)).take
        (pageSize (sampleFilter 9))).map EventRow.event := by
  have hwanted : newestWanted sampleDb sampleLookups ⟨0⟩ sampleReader (sampleFilter 9) =
      [sampleRow 1 9 (some 1)] := rfl
  have hselected : newestSelected sampleDb ⟨0⟩ sampleReader [1] (sampleFilter 9) =
      [sampleRow 1 9 (some 1)] := rfl
  refine ⟨rfl, ((history_exact_iff sampleDb (fun _ => .ok []) (fun _ _ => []) sampleLookups ⟨0⟩
    sampleReader "s" ∅ (sampleFilter 9) [1] rfl).2 ⟨?_, ?_, ?_⟩).1⟩
  · intro r hr hwanted
    have hrows : r = sampleRow 1 9 (some 1) ∨ r = sampleRow 2 1 none ∨
        r = sampleRow 3 9 (some 2) := by
      have hmem := (Database.mem_undeleted.1 hr).1
      simpa [sampleDb] using hmem
    rcases hrows with rfl | rfl | rfl
    · exact reached_sampleFilter (.singleton 9) none _ (Or.inl rfl) rfl
    · exact reached_sampleFilter (.singleton 9) none _ (Or.inr rfl) rfl
    · exact absurd hwanted (by decide)
  · intro r hr
    rw [hselected]
    rw [hwanted] at hr
    exact hr
  · intro p q x s hsplit _ _
    rw [hselected] at hsplit
    have hlen := congrArg List.length hsplit
    simp only [List.length_append, List.length_cons, List.length_nil] at hlen
    have hfetch : fetchLimit (sampleFilter 9) = 1000 := rfl
    omega

/-- A reminder of another author, and behind it a message in channel 1. -/
def starvingDb : Database where
  rows := [sampleRow 1 30300 none, sampleRow 2 9 (some 1)]
  distinct := by decide

def starvedFilter : Filter :=
  { Filter.new with kinds := some ⟨[9, 30300], by decide⟩, limit := some 1 }

/-- The reminder, which only its author may see, takes the place of the message on the page: the
answer is empty, and so the client stops. -/
theorem starved_not_exact :
    routeReq sampleLookups (some sampleReader) ∅ "s" [starvedFilter] = .history [1] ∧
    history starvingDb (fun _ => .ok []) (fun _ _ => []) sampleLookups ⟨0⟩ sampleReader "s" ∅
        starvedFilter none = [] ∧
    ((newestWanted starvingDb sampleLookups ⟨0⟩ sampleReader starvedFilter).take
        (pageSize starvedFilter)).map EventRow.event = [(sampleRow 2 9 (some 1)).event] := by
  refine ⟨rfl, rfl, rfl⟩

end Samples

end Relay
end Maju
