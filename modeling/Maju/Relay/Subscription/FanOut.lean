import Maju.Relay.Subscription.Runs

/-!
# FanOut — the indexed lookup agrees with a scan of all subscriptions

`fanOutScoped` looks an event up under a few keys (`lookupKeys`) and checks each candidate it
finds.  Every candidate it returns therefore matches; that it misses none rests on
`exists_lookupKey`: an entry that matches the event generates one of the keys that are looked up.
-/

namespace Maju
namespace Relay

open Lib Core

/-! ## Keys that a matching entry generates -/

theorem extractKindsLoop_spec {filters : List Filter} {acc kinds : List Kind}
    (h : extractKindsLoop filters acc = some kinds) :
    (∀ k ∈ acc, k ∈ kinds) ∧
      ∀ f ∈ filters, ∃ fk, f.kinds = some fk ∧ ∀ k ∈ fk.toList, k ∈ kinds := by
  induction filters generalizing acc with
  | nil =>
      obtain rfl := Option.some.inj h
      exact ⟨fun _ hk => hk, fun _ hf => absurd hf List.not_mem_nil⟩
  | cons f filters ih =>
      unfold extractKindsLoop at h
      cases hfk : f.kinds with
      | none => simp [hfk] at h
      | some fk =>
          simp only [hfk] at h
          obtain ⟨hacc, hrest⟩ := ih h
          refine ⟨fun k hk => hacc k (mem_foldl_insertNew.2 (Or.inl hk)), ?_⟩
          intro f' hf'
          rcases List.mem_cons.1 hf' with rfl | hf'
          · exact ⟨fk, hfk, fun k hk => hacc k (mem_foldl_insertNew.2 (Or.inr hk))⟩
          · exact hrest f' hf'

theorem kind_mem_of_filtersMatch {filters : List Filter} {ev : StoredEvent} {kinds : List Kind}
    (hk : extractKindsFromFilters filters = some kinds) (hm : filtersMatch filters ev = true) :
    ev.event.kind ∈ kinds := by
  obtain ⟨f, hf, hfm⟩ := List.any_eq_true.1 hm
  obtain ⟨fk, hfk, hsub⟩ := (extractKindsLoop_spec hk).2 f hf
  exact hsub _ (filterMatchOne_kind hfm hfk)

theorem extractGlobalPKindLoop_spec {communityId : CommunityId} {filters : List Filter}
    {acc keys : List GlobalPKindIndexKey}
    (h : extractGlobalPKindLoop communityId filters acc = some keys) :
    (∀ key ∈ acc, key ∈ keys) ∧
      ∀ f ∈ filters, ∃ fk, f.kinds = some fk ∧ ∀ k ∈ fk.toList,
        ∃ pValues, f.genericTags.lookup SingleLetterTag.p = some pValues ∧
          ∀ p ∈ pValues.toList, (⟨communityId, k, p⟩ : GlobalPKindIndexKey) ∈ keys := by
  induction filters generalizing acc with
  | nil =>
      obtain rfl := Option.some.inj h
      exact ⟨fun _ hk => hk, fun _ hf => absurd hf List.not_mem_nil⟩
  | cons f filters ih =>
      unfold extractGlobalPKindLoop at h
      cases hfk : f.kinds with
      | none => simp [hfk] at h
      | some fk =>
          simp only [hfk] at h
          split at h
          · -- `kinds: []` contributes no key and matches no event
            next hempty =>
              obtain ⟨hacc, hrest⟩ := ih h
              refine ⟨hacc, ?_⟩
              intro f' hf'
              rcases List.mem_cons.1 hf' with rfl | hf'
              · refine ⟨fk, hfk, ?_⟩
                intro k hk
                rw [BTreeSet.isEmpty_eq_true.1 hempty] at hk
                cases hk
              · exact hrest f' hf'
          · split at h
            · cases h
            · next pValues hp =>
                split at h
                · cases h
                · obtain ⟨hacc, hrest⟩ := ih h
                  refine ⟨fun key hkey => hacc key (mem_foldl_insertNew.2 (Or.inl hkey)), ?_⟩
                  intro f' hf'
                  rcases List.mem_cons.1 hf' with rfl | hf'
                  · refine ⟨fk, hfk, fun k hk => ⟨pValues, hp, fun p hpv => ?_⟩⟩
                    refine hacc _ (mem_foldl_insertNew.2 (Or.inr ?_))
                    exact List.mem_flatMap.2 ⟨k, hk, List.mem_map.2 ⟨p, hpv, rfl⟩⟩
                  · exact hrest f' hf'

theorem mem_eventPTagValues {ev : StoredEvent} {p : String} :
    p ∈ eventPTagValues ev ↔ p ∈ tagValues ev.event "p" := by
  simp [eventPTagValues]

/-- When every filter names kinds and `#p` values, a matching event is found under one of its
own `p` values. -/
theorem pKind_mem_of_filtersMatch {communityId : CommunityId} {filters : List Filter}
    {ev : StoredEvent} {keys : List GlobalPKindIndexKey}
    (hk : extractGlobalPKindIndexKeys communityId filters = some keys)
    (hm : filtersMatch filters ev = true) :
    ∃ p ∈ eventPTagValues ev,
      (⟨communityId, ev.event.kind, p⟩ : GlobalPKindIndexKey) ∈ keys := by
  obtain ⟨f, hf, hfm⟩ := List.any_eq_true.1 hm
  obtain ⟨fk, hfk, hsub⟩ := (extractGlobalPKindLoop_spec hk).2 f hf
  obtain ⟨pValues, hp, hkeys⟩ := hsub _ (filterMatchOne_kind hfm hfk)
  have htag := filterMatchOne_tag hfm hp
  obtain ⟨p, hpv, hpe⟩ := (genericTagMatches_of_ne_h (by decide)).1 htag
  exact ⟨p, mem_eventPTagValues.2 hpe, hkeys p hpv⟩

/-! ## The keys that are looked up -/

/-- The keys under which `fanOutScoped` looks an event up, in order. -/
def lookupKeys (communityId : CommunityId) (event : StoredEvent) : List AnyKey :=
  match event.channelId with
  | some channelId =>
      [.channelKind (communityId, ⟨channelId, event.event.kind⟩),
        .channelWildcard (communityId, channelId)]
  | none =>
      ((eventPTagValues event).map fun p =>
          .globalPKind ⟨communityId, event.event.kind, p⟩) ++
        [.globalKind (communityId, event.event.kind), .globalWildcard communityId]

theorem exists_lookupKey {e : SubEntry} {event : StoredEvent}
    (hscope : e.scope.matchesChannel event.channelId = true)
    (hm : filtersMatch e.filters event = true) :
    ∃ key ∈ lookupKeys e.communityId event, key ∈ e.keys := by
  unfold SubEntry.keys lookupKeys
  cases hs : e.scope with
  | channels channelIds =>
      cases hc : event.channelId with
      | none => simp [hs, hc, SubscriptionScope.matchesChannel] at hscope
      | some channelId =>
          have hmem : channelId ∈ channelIds := by
            simpa [hs, hc, SubscriptionScope.matchesChannel] using hscope
          cases hk : extractKindsFromFilters e.filters with
          | none =>
              refine ⟨.channelWildcard (e.communityId, channelId), by simp, ?_⟩
              exact List.mem_flatMap.2 ⟨channelId, hmem, by simp [channelKeys, hk]⟩
          | some kinds =>
              refine ⟨.channelKind (e.communityId, ⟨channelId, event.event.kind⟩), by simp, ?_⟩
              refine List.mem_flatMap.2 ⟨channelId, hmem, ?_⟩
              simpa [channelKeys, hk] using kind_mem_of_filtersMatch hk hm
  | global =>
      cases hc : event.channelId with
      | some channelId => simp [hs, hc, SubscriptionScope.matchesChannel] at hscope
      | none =>
          cases hp : extractGlobalPKindIndexKeys e.communityId e.filters with
          | some keys =>
              obtain ⟨p, hpe, hkey⟩ := pKind_mem_of_filtersMatch hp hm
              refine ⟨.globalPKind ⟨e.communityId, event.event.kind, p⟩, ?_, ?_⟩
              · exact List.mem_append_left _ (List.mem_map.2 ⟨p, hpe, rfl⟩)
              · simpa [keysOf, globalKeys, hp] using hkey
          | none =>
              cases hk : extractKindsFromFilters e.filters with
              | none =>
                  refine ⟨.globalWildcard e.communityId, by simp, ?_⟩
                  simp [keysOf, globalKeys, hp, hk]
              | some kinds =>
                  refine ⟨.globalKind (e.communityId, event.event.kind), by simp, ?_⟩
                  simpa [keysOf, globalKeys, hp, hk] using kind_mem_of_filtersMatch hk hm

/-! ## The lookup -/

namespace SubscriptionRegistry

variable {reg : SubscriptionRegistry}

theorem fanOutScoped_eq (communityId : CommunityId) (event : StoredEvent) :
    reg.fanOutScoped communityId event =
      (lookupKeys communityId event).foldl
        (fun results key =>
          ((reg.filed key).getD []).foldl (reg.pushMatch communityId event) results) [] := by
  unfold fanOutScoped lookupKeys
  cases event.channelId with
  | some channelId => rfl
  | none =>
      simp only [List.foldl_append, List.foldl_map]
      rfl

theorem mem_foldl_pushMatch {communityId : CommunityId} {event : StoredEvent}
    {candidates results : List (ConnId × SubId)} {place : ConnId × SubId} :
    place ∈ candidates.foldl (reg.pushMatch communityId event) results ↔
      place ∈ results ∨
        place ∈ candidates ∧ reg.candidateMatches communityId event place = true := by
  induction candidates generalizing results with
  | nil => simp
  | cons c candidates ih =>
      rw [List.foldl_cons, ih, pushMatch]
      by_cases hc : reg.candidateMatches communityId event c = true
      · rw [if_pos hc, mem_insertNew, List.mem_cons, or_assoc, or_and_right]
        have hself : place = c ↔
            place = c ∧ reg.candidateMatches communityId event place = true := by
          constructor
          · rintro rfl
            exact ⟨rfl, hc⟩
          · exact And.left
        rw [← hself]
      · have hnot : ¬ (place = c ∧ reg.candidateMatches communityId event place = true) := by
          rintro ⟨rfl, h⟩
          exact hc h
        rw [if_neg hc, List.mem_cons, or_and_right]
        simp only [hnot, false_or]

theorem nodup_foldl_pushMatch {communityId : CommunityId} {event : StoredEvent}
    {candidates results : List (ConnId × SubId)} (h : results.Nodup) :
    (candidates.foldl (reg.pushMatch communityId event) results).Nodup := by
  induction candidates generalizing results with
  | nil => exact h
  | cons c candidates ih =>
      refine ih ?_
      unfold pushMatch
      split
      · exact nodup_insertNew h c
      · exact h

theorem mem_fanOutScoped {communityId : CommunityId} {event : StoredEvent}
    {place : ConnId × SubId} :
    place ∈ reg.fanOutScoped communityId event ↔
      (∃ key ∈ lookupKeys communityId event, reg.filed.Holds key place) ∧
        reg.candidateMatches communityId event place = true := by
  have hloop : ∀ (keys : List AnyKey) (results : List (ConnId × SubId)),
      place ∈ keys.foldl (fun results key =>
          ((reg.filed key).getD []).foldl (reg.pushMatch communityId event) results) results ↔
        place ∈ results ∨ (∃ key ∈ keys, reg.filed.Holds key place) ∧
          reg.candidateMatches communityId event place = true := by
    intro keys
    induction keys with
    | nil => simp
    | cons key keys ih =>
        intro results
        rw [List.foldl_cons, ih, mem_foldl_pushMatch, ← Filing.holds_iff_mem_getD]
        simp only [List.mem_cons, exists_eq_or_imp]
        tauto
  rw [fanOutScoped_eq, hloop]
  simp

theorem nodup_fanOutScoped (communityId : CommunityId) (event : StoredEvent) :
    (reg.fanOutScoped communityId event).Nodup := by
  have hloop : ∀ (keys : List AnyKey) (results : List (ConnId × SubId)), results.Nodup →
      (keys.foldl (fun results key =>
        ((reg.filed key).getD []).foldl (reg.pushMatch communityId event) results)
          results).Nodup := by
    intro keys
    induction keys with
    | nil => exact fun _ h => h
    | cons key keys ih => exact fun _ h => ih _ (nodup_foldl_pushMatch h)
  rw [fanOutScoped_eq]
  exact hloop _ [] List.nodup_nil

theorem candidateMatches_iff {communityId : CommunityId} {event : StoredEvent}
    {connId : ConnId} {subId : SubId} :
    reg.candidateMatches communityId event (connId, subId) = true ↔
      ∃ e, reg.entry connId subId = some e ∧ e.communityId = communityId ∧
        e.scope.matchesChannel event.channelId = true ∧
        filtersMatch e.filters event = true := by
  unfold candidateMatches
  cases reg.entry connId subId with
  | none => simp
  | some e => simp [and_assoc]

theorem WellIndexed.mem_fanOutScoped_iff (h : reg.WellIndexed) {communityId : CommunityId}
    {event : StoredEvent} {connId : ConnId} {subId : SubId} :
    (connId, subId) ∈ reg.fanOutScoped communityId event ↔
      ∃ e, reg.entry connId subId = some e ∧ e.communityId = communityId ∧
        e.scope.matchesChannel event.channelId = true ∧
        filtersMatch e.filters event = true := by
  rw [mem_fanOutScoped, candidateMatches_iff]
  refine ⟨fun hm => hm.2, fun hm => ⟨?_, hm⟩⟩
  obtain ⟨e, he, rfl, hscope, hmatch⟩ := hm
  obtain ⟨key, hlookup, hkey⟩ := exists_lookupKey hscope hmatch
  exact ⟨key, hlookup, (h.holds_iff key connId subId).2 ⟨e, he, hkey⟩⟩

/-- After every sequence of calls, `fan_out_scoped` returns without duplicates exactly the live
subscriptions of the community whose scope and filters match the event. -/
theorem run_fanOutScoped_exact (calls : List RegistryCall) (communityId : CommunityId)
    (event : StoredEvent) :
    ((run calls).fanOutScoped communityId event).Nodup ∧
      ∀ connId subId, (connId, subId) ∈ (run calls).fanOutScoped communityId event ↔
        ∃ e, (run calls).entry connId subId = some e ∧ e.communityId = communityId ∧
          e.scope.matchesChannel event.channelId = true ∧
          filtersMatch e.filters event = true :=
  ⟨nodup_fanOutScoped communityId event,
    fun _ _ => (wellIndexed_run calls).mem_fanOutScoped_iff⟩

end SubscriptionRegistry

end Relay
end Maju
