import Maju.Relay.Live.Surfaces
import Maju.Relay.Read.CountExact
import Maju.Relay.Read.Reach

/-!
# Visibility — what each read surface lets through

History and search check every event they send with `event_visible_to_reader`.  COUNT replaces the
check on its fast path by the shape of the filter, and live delivery by stages of its own.  The
results say which events slip through: those of the owner-only kinds, and those counted by a
statement that was left without a channel scope.
-/

namespace Maju
namespace Relay

open Lib Core Db

/-! ## History and search -/

section Pull

variable {db : Database} {lookups : Lookups} {community : CommunityId} {ctx : AuthContext}
  {accessible : List Uuid} {subId : SubId}

/-- The event is stored in the community, in no channel or in one that the reader may access, and
the reader may see it. -/
def Readable (db : Database) (lookups : Lookups) (community : CommunityId) (ctx : AuthContext)
    (stored : StoredEvent) : Prop :=
  (∃ r ∈ db.undeleted community, r.stored = stored) ∧
    stored.channelId.all (lookups.mayAccess ctx) = true ∧
    eventVisibleToReader stored.event ctx.pubkey = true

theorem readable_of_deliverable
    (haccess : ∀ ch ∈ accessible, lookups.mayAccess ctx ch = true) {f : Filter} {r : EventRow}
    (hr : r ∈ db.undeleted community)
    (h : deliverable f accessible ctx.pubkey r.stored = true) :
    Readable db lookups community ctx r.stored := by
  simp only [deliverable, Bool.and_eq_true, Option.all_eq_true, decide_eq_true_eq] at h
  refine ⟨⟨r, hr, rfl⟩, ?_, h.2⟩
  rw [Option.all_eq_true]
  intro ch hch
  exact haccess ch (h.1.2 ch hch)

theorem unseen_subset (seen : List EventId) (events : List StoredEvent) :
    ∀ e ∈ unseen seen events, e ∈ events := by
  induction events generalizing seen with
  | nil => simp [unseen]
  | cons e events ih =>
      intro e' he'
      rw [unseen] at he'
      split at he'
      · exact List.mem_cons_of_mem _ (ih seen e' he')
      · rcases List.mem_cons.1 he' with rfl | he'
        · exact List.mem_cons_self
        · exact List.mem_cons_of_mem _ (ih _ e' he')

@[simp] theorem sentEvents_append (l₁ l₂ : List RelayMessage) :
    sentEvents (l₁ ++ l₂) = sentEvents l₁ ++ sentEvents l₂ := List.filterMap_append

theorem mem_sentEvents_map {events : List StoredEvent} {e : Event} :
    e ∈ sentEvents (events.map fun s => .event subId s.event) ↔ ∃ s ∈ events, s.event = e := by
  simp [sentEvents]

theorem readable_of_deliverHistory
    (haccess : ∀ ch ∈ accessible, lookups.mayAccess ctx ch = true) {channelId : Option Uuid}
    {requests : List (Filter × Option EventId)} {seen : List EventId} {e : Event}
    (he : e ∈ sentEvents (deliverHistory db community ctx.pubkey channelId accessible subId requests
      seen)) :
    ∃ stored, stored.event = e ∧ Readable db lookups community ctx stored := by
  induction requests generalizing seen with
  | nil => cases he
  | cons request requests ih =>
      obtain ⟨f, beforeId⟩ := request
      rw [deliverHistory] at he
      cases hq : queryEventsOn db
          (historyQuery community ctx.pubkey channelId accessible f beforeId) with
      | error err =>
          simp only [hq] at he
          cases he
      | ok events =>
          simp only [hq, sentEvents_append, List.mem_append, mem_sentEvents_map] at he
          rcases he with ⟨stored, hmem, rfl⟩ | he
          · have hoffset : (historyQuery community ctx.pubkey channelId accessible f
                beforeId).offset = none ∧
                (historyQuery community ctx.pubkey channelId accessible f beforeId).communityId =
                  community := by
              unfold historyQuery
              dsimp only
              rw [withSharedGate_eq, applyChannelScopeToQuery_eq]
              exact ⟨rfl, rfl⟩
            obtain ⟨hevents, hdeliverable⟩ := List.mem_filter.1 (unseen_subset _ _ _ hmem)
            rw [queryEventsOn_ok hoffset.1 hq] at hevents
            obtain ⟨r, hr, rfl⟩ := List.mem_map.1 hevents
            have hrow := (mem_selected.1 (List.mem_of_mem_take hr)).1
            rw [hoffset.2] at hrow
            exact ⟨r.stored, rfl, readable_of_deliverable haccess hrow hdeliverable⟩
          · exact ih he

theorem readable_of_emitHits (haccess : ∀ ch ∈ accessible, lookups.mayAccess ctx ch = true)
    {f : Filter} {hits : List EventId} {limit emitted : Nat} {seen : List EventId}
    {stored : StoredEvent}
    (h : stored ∈ emitHits f accessible ctx.pubkey (getEventsByIds db community hits) hits limit
      emitted seen) : Readable db lookups community ctx stored := by
  obtain ⟨hfound, hdeliverable⟩ :=
    List.mem_filter.1 (unseen_subset _ _ _ (List.mem_of_mem_take h))
  obtain ⟨id, _, hfind⟩ := List.mem_filterMap.1 hfound
  obtain ⟨r, hr, rfl⟩ := List.mem_map.1 (List.mem_of_find?_eq_some hfind)
  exact readable_of_deliverable haccess (List.mem_filter.1 hr).1 hdeliverable

theorem readable_of_searchPages (haccess : ∀ ch ∈ accessible, lookups.mayAccess ctx ch = true)
    {search : SearchService} {f : Filter} {query : Nat → SearchQuery}
    (hquery : ∀ page, (query page).community = community) {limit remaining page emitted : Nat}
    {seen : List EventId} {stored : StoredEvent}
    (h : stored ∈ searchPages db search f accessible ctx.pubkey query limit remaining page emitted
      seen) : Readable db lookups community ctx stored := by
  induction remaining generalizing page emitted seen with
  | zero => cases h
  | succ remaining ih =>
      rw [searchPages] at h
      split at h
      · cases h
      · split at h
        · cases h
        · dsimp only at h
          rw [hquery page] at h
          split at h
          · exact readable_of_emitHits haccess h
          · rcases List.mem_append.1 h with h | h
            · exact readable_of_emitHits haccess h
            · exact ih h

theorem readable_of_searchFilters (haccess : ∀ ch ∈ accessible, lookups.mayAccess ctx ch = true)
    {search : SearchService} {all : ChannelScope} {filters : List Filter} {seen : List EventId}
    {stored : StoredEvent}
    (h : stored ∈ searchFilters db search community ctx.pubkey accessible all filters seen) :
    Readable db lookups community ctx stored := by
  induction filters generalizing seen with
  | nil => cases h
  | cons f filters ih =>
      rw [searchFilters] at h
      rcases List.mem_append.1 h with h | h
      · split at h
        · split at h
          · cases h
          · refine readable_of_searchPages haccess ?_ h
            intro page
            rfl
        · cases h
      · exact ih h

theorem readable_of_handleSearchReq
    (haccess : ∀ ch ∈ accessible, lookups.mayAccess ctx ch = true) {search : SearchService}
    {includeGlobal : Bool} {filters : List Filter} {e : Event}
    (he : e ∈ sentEvents (handleSearchReq db search community ctx.pubkey accessible includeGlobal
      subId filters)) :
    ∃ stored, stored.event = e ∧ Readable db lookups community ctx stored := by
  unfold handleSearchReq at he
  split at he
  · cases he
  · rw [sentEvents_append, List.mem_append, mem_sentEvents_map] at he
    rcases he with ⟨stored, hmem, rfl⟩ | he
    · exact ⟨stored, rfl, readable_of_searchFilters haccess hmem⟩
    · cases he

theorem sentEvents_of_globalGates {filters : List Filter} {authedPubkeyHex : String}
    {message : RelayMessage} (h : globalGates subId filters authedPubkeyHex = some message) :
    sentEvents [message] = [] := by
  unfold globalGates at h
  split at h
  · cases h
    rfl
  · split at h
    · cases h
      rfl
    · split at h
      · cases h
        rfl
      · cases h

theorem sentEvents_of_refused {subs : HashMap SubId (List Filter)} {filters : List Filter}
    {messages : List RelayMessage}
    (h : routeReq lookups (some ctx) subs subId filters = .refused messages) :
    sentEvents messages = [] := by
  unfold routeReq at h
  dsimp only at h
  split at h
  · cases h
    rfl
  · split at h
    · cases h
      rfl
    · split at h
      · cases h
        rfl
      · split at h
        · cases h
          rfl
        · split at h
          · cases h
            rfl
          · unfold routeResolved at h
            dsimp only at h
            split at h
            · cases h
              rfl
            · split at h
              · cases h
              · split at h
                · next message hgate =>
                    cases h
                    split at hgate
                    · exact sentEvents_of_globalGates hgate
                    · cases hgate
                · split at h
                  · split at h
                    · cases h
                      rfl
                    · cases h
                  · cases h

/-- Every event that a REQ sends from the store is readable. -/
def PullSafe (db : Database) (search : SearchService)
    (liveness : List Uuid → List Filter → List RelayMessage) (lookups : Lookups)
    (community : CommunityId) (ctx : AuthContext) (subs : HashMap SubId (List Filter))
    (subId : SubId) (requests : List (Filter × Option EventId)) : Prop :=
  (∀ parents, routeReq lookups (some ctx) subs subId (requests.map Prod.fst) ≠
      .huddleLiveness parents) →
    ∀ e ∈ sentEvents (handleReq db search liveness lookups community (some ctx) subs subId requests),
      ∃ stored, stored.event = e ∧ Readable db lookups community ctx stored

theorem pullSafe (db : Database) (search : SearchService)
    (liveness : List Uuid → List Filter → List RelayMessage) (lookups : Lookups)
    (community : CommunityId) (ctx : AuthContext) (subs : HashMap SubId (List Filter))
    (subId : SubId) (requests : List (Filter × Option EventId)) :
    PullSafe db search liveness lookups community ctx subs subId requests := by
  intro hroute e he
  unfold handleReq at he
  dsimp only at he
  cases hr : routeReq lookups (some ctx) subs subId (requests.map Prod.fst) with
  | refused messages =>
      simp only [hr, sentEvents_of_refused hr] at he
      cases he
  | huddleLiveness parents => exact absurd hr (hroute parents)
  | search accessible =>
      simp only [hr] at he
      refine readable_of_handleSearchReq ?_ he
      intro ch hch
      exact mayAccess_of_knows ((mem_accessible_iff (Or.inr hr) ch).1 hch)
  | history accessible =>
      simp only [hr] at he
      refine readable_of_deliverHistory ?_ he
      intro ch hch
      exact mayAccess_of_knows ((mem_accessible_iff (Or.inl hr) ch).1 hch)

end Pull

/-! ## COUNT -/

section Counted

variable {db : Database} {lookups : Lookups} {community : CommunityId} {ctx : AuthContext}
  {f : Filter} {accessible : List Uuid} {reader : PublicKey} {r : EventRow}

/-- COUNT leaves the statement of the filter without a channel scope: it names several `#h` values,
and just one channel. -/
def Unscoped (f : Filter) : Prop :=
  ∃ values, hValues f = some values ∧ (requestedChannels values).length = 1 ∧ values.len ≠ 1

theorem countWhere_of_counts (h : counts community reader f accessible r = true) :
    countSkips f accessible = false ∧
      (countQueryOf community reader f accessible).matchesNothing = false ∧
      (countQueryOf community reader f accessible).countWhere r = true ∧
      (countFastPath f (toHex reader) = false → eventVisibleToReader r.event reader = true) := by
  unfold counts at h
  dsimp only at h
  rw [Bool.and_eq_true, Bool.not_eq_true', Bool.or_eq_false_iff] at h
  obtain ⟨⟨hskip, hnothing⟩, hcounts⟩ := h
  refine ⟨hskip, hnothing, ?_⟩
  split at hcounts
  · next hfast => exact ⟨hcounts, fun hslow => by rw [hfast] at hslow; cases hslow⟩
  · rw [Bool.and_eq_true, queryWhere_fallback_iff, Bool.and_eq_true] at hcounts
    exact ⟨hcounts.1.1, fun _ => hcounts.2.2⟩

theorem accessible_of_counts (h : counts community reader f accessible r = true)
    (hscoped : ¬Unscoped f) : accessibleRow accessible r = true := by
  obtain ⟨hskip, _, hwhere, _⟩ := countWhere_of_counts h
  rw [EventQuery.countWhere, Bool.and_eq_true, commonWhere_iff] at hwhere
  have hclauses := hwhere.1.2
  cases hv : hValues f with
  | none =>
      have hids := hclauses.2
      rw [countQueryOf_anywhere hv] at hids
      unfold accessibleRow
      cases hr : r.channelId with
      | none => rfl
      | some ch => simpa [EventQuery.channelIdsClause, hr] using hids
  | some values =>
      refine ((countScope_iff hv hskip ?_).1 hclauses).2
      intro hone
      by_contra hnot
      exact hscoped ⟨values, hv, hone, fun hlen => hnot (Or.inl hlen)⟩

theorem visible_of_counts (h : counts community reader f accessible r = true)
    (howner : countFastPath f (toHex reader) = true → eventKindU32 r.event ∈ resultGatedKinds →
      toHex reader ∈ tagValues r.event "p") : eventVisibleToReader r.event reader = true := by
  obtain ⟨_, hnothing, hwhere, hslow⟩ := countWhere_of_counts h
  cases hfast : countFastPath f (toHex reader) with
  | false => exact hslow hfast
  | true =>
      obtain ⟨hfields, _, hsame⟩ := fieldsHold_countQueryOf community reader f accessible r
      rw [EventQuery.countWhere, Bool.and_eq_true, commonWhere_iff, hfields] at hwhere
      obtain ⟨⟨⟨_, hkinds, hauthors, _⟩, _⟩, _⟩ := hwhere
      rw [hsame, matchesNothing_params] at hnothing
      refine visible_of_fastPath hfast (kindsClause_iff.1 ⟨hkinds, hnothing⟩) ?_ (howner hfast)
      intro authors ha hne
      refine (authorsClauses_iff ?_).1 hauthors authors ha
      intro authors' ha'
      obtain rfl := Option.some.inj (ha.symm.trans ha')
      exact hne

variable (db lookups community ctx) in
/-- COUNT answers, and a filter counts the row at its turn. -/
def CountedBy (subId : SubId) (filters : List Filter) (turn : Filter × List Uuid) (r : EventRow) :
    Prop :=
  (∃ subId' total, handleCount db lookups community (some ctx) subId filters =
      .count subId' total) ∧
    (∃ ids, lookups.accessibleChannelIds ctx.pubkey = .ok ids ∧
      turn ∈ countTurns lookups ctx filters (ctx.narrow ids)) ∧
    r ∈ db.undeleted community ∧ counts community ctx.pubkey turn.1 turn.2 r = true

variable (db lookups community ctx) in
/-- Every row that COUNT counts is readable. -/
def CountSafe (subId : SubId) (filters : List Filter) : Prop :=
  ∀ turn r, CountedBy db lookups community ctx subId filters turn r →
    Readable db lookups community ctx r.stored

variable (db lookups community ctx) in
/-- Rows of the owner-only kinds that are counted on the fast path name the reader as the reader's
key is written, and rows that are counted without a channel scope are accessible. -/
def CountGated (subId : SubId) (filters : List Filter) : Prop :=
  ∀ turn r, CountedBy db lookups community ctx subId filters turn r →
    (countFastPath turn.1 (toHex ctx.pubkey) = true → eventKindU32 r.event ∈ resultGatedKinds →
        toHex ctx.pubkey ∈ tagValues r.event "p") ∧
      (Unscoped turn.1 → r.channelId.all (lookups.mayAccess ctx) = true)

theorem countSafe_iff (subId : SubId) (filters : List Filter) :
    CountSafe db lookups community ctx subId filters ↔
      CountGated db lookups community ctx subId filters := by
  constructor
  · intro hsafe turn r hcounted
    obtain ⟨_, haccess, hvisible⟩ := hsafe turn r hcounted
    refine ⟨?_, fun _ => haccess⟩
    intro _ hkind
    exact (readerAuthorized_of_gated hkind).1 (eventVisibleToReader_eq_true.1 hvisible).2.2
  · intro hgated turn r hcounted
    obtain ⟨howner, hscope⟩ := hgated turn r hcounted
    obtain ⟨_, ⟨ids, hids, hturn⟩, hr, hcounts⟩ := hcounted
    refine ⟨⟨r, hr, rfl⟩, ?_, visible_of_counts hcounts howner⟩
    by_cases hunscoped : Unscoped turn.1
    · exact hscope hunscoped
    · have hrow := accessible_of_counts hcounts hunscoped
      simp only [accessibleRow, Option.all_eq_true, decide_eq_true_eq] at hrow
      have hcached := (mayAccess_of_mem_countTurns (mayAccess_of_mem_narrow hids) hturn).2
      rw [Option.all_eq_true]
      intro ch hch
      exact hcached ch (hrow ch hch)

end Counted

/-! ## Live delivery -/

section Live

variable {pod : PodLookups} {reg : SubscriptionRegistry} {communityId : CommunityId}
  {stored : StoredEvent} {threaded : Option ThreadedChannelVisibility} {connId : ConnId}

/-- The connection, if it is authenticated, may receive the event: its reader may see it, it is
bound to the event's community, and in a private channel the reader is a member. -/
def Permitted (pod : PodLookups) (communityId : CommunityId) (stored : StoredEvent)
    (threaded : Option ThreadedChannelVisibility) (connId : ConnId) : Prop :=
  ∀ reader, pod.pubkeyForConn connId = some reader →
    eventVisibleToReader stored.event reader = true ∧
      pod.communityForConn connId = some communityId ∧
      ∀ ch, stored.channelId = some ch →
        pod.visibilityFor communityId ch threaded = .ok "private" →
          pod.isMemberCached communityId ch reader = .ok true

theorem permitted_of_accessPasses
    (h : accessPasses pod communityId stored threaded connId = true)
    (howner : eventKindU32 stored.event ∈ resultGatedKinds →
      ∀ reader, pod.pubkeyForConn connId = some reader →
        toHex reader ∈ tagValues stored.event "p") :
    Permitted pod communityId stored threaded connId := by
  simp only [accessPasses, Bool.and_eq_true, decide_eq_true_eq] at h
  obtain ⟨⟨⟨hcommunity, hauthor⟩, hshared⟩, hchannel⟩ := h
  intro reader hreader
  rw [hreader] at hauthor hshared
  refine ⟨?_, hcommunity, ?_⟩
  · rw [eventVisibleToReader_eq_true]
    refine ⟨?_, ?_, ?_⟩
    · by_contra hnot
      simp only [isAuthorOnlyEvent, Bool.not_eq_false, Bool.and_eq_true, decide_eq_true_eq] at hnot
      have hkind : eventKindU32 stored.event ∈ authorOnlyKinds := hnot.1
      have hself : reader = stored.event.pubkey := by simpa [hkind] using hauthor
      exact hnot.2 hself.symm
    · by_contra hnot
      rw [Bool.not_eq_false] at hnot
      have hgate := hnot
      simp only [isUnsharedGatedEvent, Bool.and_eq_true, decide_eq_true_eq] at hgate
      have hkind : isSharedGatedKind (eventKindU32 stored.event) = true := hgate.1.1
      have hself : reader = stored.event.pubkey := by simpa [hkind, hnot] using hshared
      exact hgate.1.2 hself.symm
    · by_cases hkind : eventKindU32 stored.event ∈ resultGatedKinds
      · exact (readerAuthorized_of_gated hkind).2 (howner hkind reader hreader)
      · exact readerAuthorized_of_not_gated hkind
  · intro ch hch hprivate
    rw [hch, Option.all_some, hprivate] at hchannel
    have hmember : pod.memberConn communityId ch connId = true := by
      simpa [Except.toOption] using hchannel
    unfold PodLookups.memberConn at hmember
    rw [hreader, Option.any_some] at hmember
    split at hmember
    · next member hm =>
        rw [hm, hmember]
    · cases hmember

theorem privateEventOwner_of_gated {event : Event}
    (hkind : eventKindU32 event ∈ resultGatedKinds) :
    (∀ owner, privateEventOwner event = some owner → owner ∈ tagValues event "p") ∧
      (privateEventOwner event = none → tagValues event "p" = []) := by
  have howner : privateEventOwner event = (tagValues event "p").head? := by
    have hgated : eventKindU32 event = kindDmVisibility ∨
        eventKindU32 event = kindAgentTurnMetric := by
      simpa [resultGatedKinds] using hkind
    rw [privateEventOwner, if_pos hgated, tagValues, List.head?_filterMap]
  rw [howner]
  exact ⟨fun owner h => List.mem_of_mem_head? h, List.head?_eq_none_iff.1⟩

theorem privateEventOwner_of_not_gated {event : Event}
    (hkind : eventKindU32 event ∉ resultGatedKinds) : privateEventOwner event = none := by
  simp only [resultGatedKinds, List.mem_cons, List.not_mem_nil, or_false] at hkind
  rw [privateEventOwner, if_neg hkind]

variable (pod reg communityId stored threaded) in
/-- Every recipient on the three surfaces is permitted, where a remote pod receives what the
ingesting pod publishes. -/
structure LiveSafe (localEventIds remoteEventIds : LocalEventIds) : Prop where
  ingest : ∀ publishes, ∀ m ∈ (dispatchPersistentEventInner pod reg localEventIds communityId stored
    threaded publishes).recipients, Permitted pod communityId stored threaded m.1
  relayLocal : ∀ m ∈ fanOutEventToLocalSubscribers pod reg communityId stored,
    Permitted pod communityId stored none m.1
  remote : ∀ ce ∈ (dispatchPersistentEventInner pod reg localEventIds communityId stored threaded
    true).published, ∀ m ∈ (fanOutPubsubEvent pod reg remoteEventIds ce).2,
      Permitted pod communityId stored none m.1

variable (pod reg communityId stored threaded) in
/-- The ingesting pod and a remote pod deliver to the same subscriptions. -/
def PodsAgree (localEventIds remoteEventIds : LocalEventIds) : Prop :=
  ∀ ce ∈ (dispatchPersistentEventInner pod reg localEventIds communityId stored threaded
      true).published,
    (dispatchPersistentEventInner pod reg localEventIds communityId stored threaded
        true).recipients =
      (fanOutPubsubEvent pod reg remoteEventIds ce).2

variable (pod reg communityId stored) in
/-- Every matching connection that passes the access filter is the owner's; if an event of an
owner-only kind has no owner, none of them is authenticated. -/
def OwnerGated : Prop :=
  eventKindU32 stored.event ∈ resultGatedKinds →
    ∀ m ∈ reg.fanOutScoped communityId stored,
      accessPasses pod communityId stored none m.1 = true →
        match privateEventOwner stored.event with
        | some owner => (pod.pubkeyForConn m.1).map toHex = some owner
        | none => pod.pubkeyForConn m.1 = none

theorem stored_published (communityId : CommunityId) (stored : StoredEvent) :
    (⟨communityId, eventTopic stored, stored.event⟩ : ChannelEvent).stored = stored := by
  unfold ChannelEvent.stored eventTopic
  cases stored with
  | mk event channelId => cases channelId <;> rfl

variable (pod reg communityId stored) in
/-- The matching subscriptions whose connections pass the access filter. -/
def reachedRecipients : List Recipient :=
  (reg.fanOutScoped communityId stored).filter fun m =>
    accessPasses pod communityId stored none m.1

variable (pod communityId stored threaded) in
/-- A threaded visibility, if it is used, is what the lookup says. -/
def ThreadedAgrees : Prop :=
  ∀ ch, stored.channelId = some ch →
    pod.visibilityFor communityId ch threaded = pod.visibilityFor communityId ch none

theorem accessPasses_threaded (h : ThreadedAgrees pod communityId stored threaded)
    (connId : ConnId) :
    accessPasses pod communityId stored threaded connId =
      accessPasses pod communityId stored none connId := by
  unfold accessPasses
  cases hch : stored.channelId with
  | none => rfl
  | some ch => simp only [Option.all_some, h ch hch]

theorem permitted_threaded (h : ThreadedAgrees pod communityId stored threaded)
    (connId : ConnId) :
    Permitted pod communityId stored threaded connId ↔
      Permitted pod communityId stored none connId := by
  refine forall₂_congr fun reader _ => and_congr_right fun _ => and_congr_right fun _ =>
    forall₂_congr fun ch hch => ?_
  rw [h ch hch]

theorem fanOutEventToLocalSubscribers_eq :
    fanOutEventToLocalSubscribers pod reg communityId stored =
      reachedRecipients pod reg communityId stored :=
  filterFanoutByAccess_eq _

theorem recipients_dispatch (h : ThreadedAgrees pod communityId stored threaded)
    (localEventIds : LocalEventIds) (publishes : Bool) :
    (dispatchPersistentEventInner pod reg localEventIds communityId stored threaded
        publishes).recipients =
      (reachedRecipients pod reg communityId stored).filter fun m =>
        (privateEventOwner stored.event).all fun owner =>
          (pod.pubkeyForConn m.1).any fun pk => decide (toHex pk = owner) := by
  unfold dispatchPersistentEventInner reachedRecipients
  dsimp only
  rw [filterFanoutByAccess_eq]
  simp only [accessPasses_threaded h]

theorem recipients_remote {remoteEventIds : LocalEventIds}
    (hremote : (communityId, stored.event.id) ∉ remoteEventIds) :
    (fanOutPubsubEvent pod reg remoteEventIds
        ⟨communityId, eventTopic stored, stored.event⟩).2 =
      reachedRecipients pod reg communityId stored := by
  unfold fanOutPubsubEvent
  dsimp only
  rw [if_neg hremote, stored_published, filterFanoutByAccess_eq]
  rfl

theorem live_iff {localEventIds remoteEventIds : LocalEventIds}
    (hthreaded : ThreadedAgrees pod communityId stored threaded)
    (hremote : (communityId, stored.event.id) ∉ remoteEventIds) :
    (LiveSafe pod reg communityId stored threaded localEventIds remoteEventIds ∧
        PodsAgree pod reg communityId stored threaded localEventIds remoteEventIds) ↔
      OwnerGated pod reg communityId stored := by
  have hpublished : (dispatchPersistentEventInner pod reg localEventIds communityId stored threaded
      true).published = some ⟨communityId, eventTopic stored, stored.event⟩ := rfl
  constructor
  · rintro ⟨hsafe, hagree⟩ hkind m hm hpasses
    have hreached : m ∈ reachedRecipients pod reg communityId stored :=
      List.mem_filter.2 ⟨hm, hpasses⟩
    cases howner : privateEventOwner stored.event with
    | some owner =>
        have hsame := hagree _ hpublished
        rw [recipients_dispatch hthreaded, recipients_remote hremote, howner] at hsame
        have hself := List.filter_eq_self.1 hsame m hreached
        rw [Option.all_some] at hself
        cases hpk : pod.pubkeyForConn m.1 with
        | none =>
            rw [hpk] at hself
            cases hself
        | some pk =>
            rw [hpk, Option.any_some, decide_eq_true_eq] at hself
            rw [Option.map_some, hself]
    | none =>
        cases hpk : pod.pubkeyForConn m.1 with
        | none => rfl
        | some reader =>
            -- nobody may see the event, but the relay's own fan-out delivers it
            rw [← fanOutEventToLocalSubscribers_eq] at hreached
            have hvisible := (hsafe.relayLocal m hreached reader hpk).1
            have hnamed := (readerAuthorized_of_gated hkind).1
              (eventVisibleToReader_eq_true.1 hvisible).2.2
            rw [(privateEventOwner_of_gated hkind).2 howner] at hnamed
            cases hnamed
  · intro hgated
    have howned : ∀ m ∈ reachedRecipients pod reg communityId stored,
        eventKindU32 stored.event ∈ resultGatedKinds →
          ∀ reader, pod.pubkeyForConn m.1 = some reader →
            toHex reader ∈ tagValues stored.event "p" := by
      intro m hm hkind reader hreader
      obtain ⟨hmatch, hpasses⟩ := List.mem_filter.1 hm
      have hself := hgated hkind m hmatch hpasses
      cases howner : privateEventOwner stored.event with
      | none => simp [howner, hreader] at hself
      | some owner =>
          rw [howner] at hself
          simp only [hreader, Option.map_some, Option.some.injEq] at hself
          rw [hself]
          exact (privateEventOwner_of_gated hkind).1 owner howner
    have hpermitted : ∀ m ∈ reachedRecipients pod reg communityId stored,
        Permitted pod communityId stored none m.1 := fun m hm =>
      permitted_of_accessPasses (List.mem_filter.1 hm).2 (howned m hm)
    refine ⟨⟨?_, ?_, ?_⟩, ?_⟩
    · intro publishes m hm
      rw [recipients_dispatch hthreaded] at hm
      exact (permitted_threaded hthreaded m.1).2 (hpermitted m (List.mem_filter.1 hm).1)
    · intro m hm
      rw [fanOutEventToLocalSubscribers_eq] at hm
      exact hpermitted m hm
    · intro ce hce m hm
      obtain rfl := Option.some.inj (hpublished.symm.trans hce)
      rw [recipients_remote hremote] at hm
      exact hpermitted m hm
    · intro ce hce
      obtain rfl := Option.some.inj (hpublished.symm.trans hce)
      rw [recipients_dispatch hthreaded, recipients_remote hremote, List.filter_eq_self]
      intro m hm
      cases howner : privateEventOwner stored.event with
      | none => rfl
      | some owner =>
          have hkind : eventKindU32 stored.event ∈ resultGatedKinds := by
            by_contra hnot
            rw [privateEventOwner_of_not_gated hnot] at howner
            cases howner
          obtain ⟨hmatch, hpasses⟩ := List.mem_filter.1 hm
          have hself := hgated hkind m hmatch hpasses
          rw [howner] at hself
          rw [Option.all_some]
          cases hpk : pod.pubkeyForConn m.1 with
          | none => simp [hpk] at hself
          | some pk =>
              simp only [hpk, Option.map_some, Option.some.injEq] at hself
              simp [hself]

end Live

/-! ## All surfaces -/

/-- No read surface lets an event through that the reader may not see, and the pods agree, if and
only if what COUNT and live delivery leave unchecked is harmless. -/
theorem read_surfaces_safe_iff (db : Database) (search : SearchService)
    (liveness : List Uuid → List Filter → List RelayMessage) (lookups : Lookups)
    (community : CommunityId) (ctx : AuthContext) (subs : HashMap SubId (List Filter))
    (subId : SubId) (requests : List (Filter × Option EventId)) (filters : List Filter)
    (pod : PodLookups) (reg : SubscriptionRegistry) (stored : StoredEvent)
    (threaded : Option ThreadedChannelVisibility) (localEventIds remoteEventIds : LocalEventIds)
    (hthreaded : ThreadedAgrees pod community stored threaded)
    (hremote : (community, stored.event.id) ∉ remoteEventIds) :
    (PullSafe db search liveness lookups community ctx subs subId requests ∧
        CountSafe db lookups community ctx subId filters ∧
        LiveSafe pod reg community stored threaded localEventIds remoteEventIds ∧
        PodsAgree pod reg community stored threaded localEventIds remoteEventIds) ↔
      CountGated db lookups community ctx subId filters ∧
        OwnerGated pod reg community stored := by
  rw [and_iff_right (pullSafe db search liveness lookups community ctx subs subId requests),
    countSafe_iff, live_iff hthreaded hremote]

section Samples

/-- The turn metric of an agent, owned by this key. -/
def metricEvent (owner : PublicKey) : StoredEvent :=
  ⟨⟨1, 9, 100, 44200, [⟨"p", [toHex owner]⟩]⟩, none⟩

/-- A pod with connections of this reader. -/
def samplePod (reader : PublicKey) : PodLookups where
  communityForConn := fun _ => some ⟨0⟩
  pubkeyForConn := fun _ => some reader
  channelVisibilityCached := fun _ _ => .ok "open"
  isMemberCached := fun _ _ _ => .ok true

/-- A subscription to the event by its id, which the filter gates let pass. -/
def idFilter : Filter := { Filter.new with ids := some (.singleton 1) }

def idSubscription : SubscriptionRegistry :=
  (SubscriptionRegistry.new.registerScoped ⟨0⟩ 1 "s" [idFilter] none).1

/-- The owner receives the metric on both pods. -/
theorem read_surfaces_safe_owner :
    (fanOutPubsubEvent (samplePod 5) idSubscription []
        ⟨⟨0⟩, .global, (metricEvent 5).event⟩).2 = [(1, "s")] ∧
      LiveSafe (samplePod 5) idSubscription ⟨0⟩ (metricEvent 5) none [] [] ∧
      PodsAgree (samplePod 5) idSubscription ⟨0⟩ (metricEvent 5) none [] [] := by
  have hall := (read_surfaces_safe_iff sampleDb (fun _ => .ok []) (fun _ _ => []) sampleLookups ⟨0⟩
    sampleReader ∅ "s" [] [] (samplePod 5) idSubscription (metricEvent 5) none [] []
    (fun _ _ => rfl) (by simp)).2 ⟨?_, ?_⟩
  · exact ⟨rfl, hall.2.2.1, hall.2.2.2⟩
  · rintro turn r ⟨_, ⟨_, _, hturn⟩, _⟩
    cases hturn
  · intro _ m _ _
    rfl

/-- A remote pod delivers the metric of key 7 to the connection of key 5, which may not see it; the
ingesting pod does not. -/
theorem remote_metric_not_visible :
    routeReq sampleLookups (some sampleReader) ∅ "s" [idFilter] = .history [1] ∧
    (fanOutPubsubEvent (samplePod 5) idSubscription []
        ⟨⟨0⟩, .global, (metricEvent 7).event⟩).2 = [(1, "s")] ∧
    (samplePod 5).pubkeyForConn 1 = some 5 ∧
    eventVisibleToReader (metricEvent 7).event 5 = false ∧
    (dispatchPersistentEventInner (samplePod 5) idSubscription [] ⟨0⟩ (metricEvent 7) none
        true).recipients = [] := by
  refine ⟨rfl, rfl, rfl, ?_, ?_⟩
  · decide
  · decide

end Samples

end Relay
end Maju
