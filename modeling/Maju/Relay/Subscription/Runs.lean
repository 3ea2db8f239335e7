import Maju.Relay.Subscription.Invariant

/-!
# Runs — the registry after any sequence of calls

`RegistryCall` is one call of the registry's public mutators and `SubscriptionRegistry.run` the
registry after a sequence of calls.  Beside it runs the abstract account of what is live: a plain
list of registrations, from which a call takes what it removes or replaces.  `Accounts` connects
the two, and with `WellIndexed` it says what the indexes and the counter of a run contain.
-/

namespace Maju
namespace Relay

open Lib Core

/-! ## Revoking a channel from all subscriptions of a connection -/

namespace SubEntry

/-- The entry is routed through this channel of this community. -/
def inChannel (e : SubEntry) (communityId : CommunityId) (channelId : Uuid) : Bool :=
  decide (e.communityId = communityId) && decide (channelId ∈ e.scope.channelIds)

theorem channels_of_inChannel {e : SubEntry} {communityId : CommunityId} {channelId : Uuid}
    (h : e.inChannel communityId channelId = true) :
    e.communityId = communityId ∧ ∃ channelIds, e.scope = .channels channelIds := by
  simp only [inChannel, Bool.and_eq_true, decide_eq_true_eq] at h
  refine ⟨h.1, ?_⟩
  cases hscope : e.scope with
  | global =>
      rw [hscope] at h
      simp [SubscriptionScope.channelIds] at h
  | channels channelIds => exact ⟨channelIds, rfl⟩

end SubEntry

namespace SubscriptionRegistry

variable {reg : SubscriptionRegistry}

theorem foldl_revokeChannel {communityId : CommunityId} {connId : ConnId} {channelId : Uuid}
    {subIds : List SubId} (updates : List ChannelSubscriptionUpdate) (hnodup : subIds.Nodup)
    (hin : ∀ subId ∈ subIds, ∃ e, reg.entry connId subId = some e ∧
      e.inChannel communityId channelId = true) (h : reg.WellIndexed) :
    let result := subIds.foldl (revokeChannel communityId connId channelId) (reg, updates)
    result.1.WellIndexed ∧
      (∀ connId' subId', result.1.entry connId' subId' =
        if connId' = connId ∧ subId' ∈ subIds then
          (reg.entry connId' subId').bind fun e => e.revoke channelId
        else reg.entry connId' subId') ∧
      result.2 = updates ++ subIds.map fun subId =>
        ⟨subId, ((reg.entry connId subId).bind fun e => e.revoke channelId).isNone⟩ := by
  induction subIds generalizing reg updates with
  | nil => simpa using h
  | cons subId subIds ih =>
      obtain ⟨hnot, hnodup⟩ := List.nodup_cons.1 hnodup
      obtain ⟨e, he, hein⟩ := hin subId List.mem_cons_self
      obtain ⟨rfl, channelIds, hscope⟩ := SubEntry.channels_of_inChannel hein
      have hentry := entry_revokeChannel e.communityId channelId updates he hscope
      obtain ⟨connSubs, _, hrevoke⟩ :=
        revokeChannel_of_entry e.communityId channelId updates he hscope
      have hother : ∀ subId' ∈ subIds,
          (revokeChannel e.communityId connId channelId (reg, updates) subId).1.entry
            connId subId' = reg.entry connId subId' := by
        intro subId' hmem
        rw [hentry, if_neg]
        rintro ⟨_, rfl⟩
        exact hnot hmem
      obtain ⟨hwell, hentries, hupdates⟩ := ih
        (revokeChannel e.communityId connId channelId (reg, updates) subId).2 hnodup
        (fun subId' hmem => by
          rw [hother subId' hmem]
          exact hin subId' (List.mem_cons_of_mem _ hmem))
        (wellIndexed_revokeChannel h channelId updates he hscope)
      refine ⟨hwell, ?_, ?_⟩
      · intro connId' subId'
        rw [List.foldl_cons, hentries, hentry]
        by_cases hc : connId' = connId
        · subst hc
          by_cases hs : subId' = subId
          · subst hs
            simp [hnot, he]
          · simp [hs]
        · simp [hc]
      · rw [List.foldl_cons, hupdates]
        have hmap : (subIds.map fun subId' => (⟨subId',
              (((revokeChannel e.communityId connId channelId (reg, updates) subId).1.entry
                connId subId').bind fun e => e.revoke channelId).isNone⟩ :
              ChannelSubscriptionUpdate)) =
            subIds.map fun subId' => ⟨subId',
              ((reg.entry connId subId').bind fun e => e.revoke channelId).isNone⟩ := by
          refine List.map_congr_left ?_
          intro subId' hmem
          rw [hother subId' hmem]
        rw [hmap, hrevoke]
        simp [he]

theorem subIdsInChannel_spec (ord : IterOrder (Sigma fun _ : SubId => SubEntry))
    (communityId : CommunityId) (channelId : Uuid) (connSubs : HashMap SubId SubEntry) :
    (subIdsInChannel ord communityId channelId connSubs).Nodup ∧
      ∀ subId, subId ∈ subIdsInChannel ord communityId channelId connSubs ↔
        ∃ e, connSubs.lookup subId = some e ∧ e.inChannel communityId channelId = true := by
  constructor
  · have hkeys : ((ord.run connSubs.entries).map Sigma.fst).Nodup :=
      ((ord.perm connSubs.entries).map Sigma.fst).nodup_iff.2 connSubs.nodupKeys
    exact hkeys.sublist (List.filter_sublist.map Sigma.fst)
  · intro subId
    simp only [subIdsInChannel, List.mem_map, List.mem_filter, IterOrder.mem_run]
    constructor
    · rintro ⟨e, ⟨hmem, hin⟩, rfl⟩
      exact ⟨e.2, HashMap.lookup_of_mem_entries hmem, hin⟩
    · rintro ⟨e, he, hin⟩
      exact ⟨⟨subId, e⟩, ⟨HashMap.mem_entries_iff.2 he, hin⟩, rfl⟩

/-- Revocation keeps the invariant, revokes the channel from every entry routed through it, and
reports each of these entries once. -/
theorem removeChannelSubscriptionsScoped_spec
    (ord : IterOrder (Sigma fun _ : SubId => SubEntry)) (communityId : CommunityId)
    (connId : ConnId) (channelId : Uuid) (h : reg.WellIndexed) :
    let result := removeChannelSubscriptionsScoped ord reg communityId connId channelId
    result.1.WellIndexed ∧
      (∀ connId' subId', result.1.entry connId' subId' =
          (reg.entry connId' subId').bind fun e =>
            if connId' = connId ∧ e.inChannel communityId channelId = true then
              e.revoke channelId
            else some e) ∧
      ∃ subIds : List SubId, subIds.Nodup ∧
        (∀ subId, subId ∈ subIds ↔ ∃ e, reg.entry connId subId = some e ∧
          e.inChannel communityId channelId = true) ∧
        result.2 = subIds.map fun subId =>
          ⟨subId, ((reg.entry connId subId).bind fun e => e.revoke channelId).isNone⟩ := by
  unfold removeChannelSubscriptionsScoped
  cases hconn : reg.subs.lookup connId with
  | none =>
      refine ⟨h, ?_, [], List.nodup_nil, ?_, rfl⟩
      · intro connId' subId'
        by_cases hc : connId' = connId
        · subst hc
          simp [entry, hconn]
        · simp [hc]
      · intro subId
        simp [entry, hconn]
  | some connSubs =>
      obtain ⟨hnodup, hmem⟩ := subIdsInChannel_spec ord communityId channelId connSubs
      have hin : ∀ subId, subId ∈ subIdsInChannel ord communityId channelId connSubs ↔
          ∃ e, reg.entry connId subId = some e ∧ e.inChannel communityId channelId = true := by
        intro subId
        rw [entry_of_lookup hconn]
        exact hmem subId
      obtain ⟨hwell, hentry, hupdates⟩ :=
        foldl_revokeChannel [] hnodup (fun subId => (hin subId).1) h
      refine ⟨hwell, ?_, _, hnodup, hin, hupdates⟩
      intro connId' subId'
      rw [hentry]
      by_cases hc : connId' = connId
      · subst hc
        simp only [true_and, hmem subId', entry_of_lookup hconn]
        cases connSubs.lookup subId' with
        | none => simp
        | some e => by_cases hein : e.inChannel communityId channelId = true <;> simp [hein]
      · simp [hc]

/-! ## Calls -/

/-- One call of the registry's mutators.  A call that iterates over a connection's subscriptions
carries the order of that iteration. -/
inductive RegistryCall where
  | registerScoped (communityId : CommunityId) (connId : ConnId) (subId : SubId)
      (filters : List Filter) (channelId : Option Uuid)
  | registerChannelsScoped (communityId : CommunityId) (connId : ConnId) (subId : SubId)
      (filters : List Filter) (channelIds : List Uuid)
  | removeSubscription (connId : ConnId) (subId : SubId)
  | removeConnection (ord : IterOrder (Sigma fun _ : SubId => SubEntry)) (connId : ConnId)
  | removeChannelSubscriptionsScoped (ord : IterOrder (Sigma fun _ : SubId => SubEntry))
      (communityId : CommunityId) (connId : ConnId) (channelId : Uuid)

def call (reg : SubscriptionRegistry) : RegistryCall → SubscriptionRegistry
  | .registerScoped communityId connId subId filters channelId =>
      (reg.registerScoped communityId connId subId filters channelId).1
  | .registerChannelsScoped communityId connId subId filters channelIds =>
      (reg.registerChannelsScoped communityId connId subId filters channelIds).1
  | .removeSubscription connId subId => (reg.removeSubscription connId subId).1
  | .removeConnection ord connId => (removeConnection ord reg connId).1
  | .removeChannelSubscriptionsScoped ord communityId connId channelId =>
      (removeChannelSubscriptionsScoped ord reg communityId connId channelId).1

/-- The registry after a sequence of calls, from the empty registry. -/
def run (calls : List RegistryCall) : SubscriptionRegistry :=
  calls.foldl call SubscriptionRegistry.new

theorem wellIndexed_call (h : reg.WellIndexed) (c : RegistryCall) :
    (reg.call c).WellIndexed := by
  cases c with
  | registerScoped communityId connId subId filters channelId =>
      exact wellIndexed_registerWithScope h communityId connId subId filters _
  | registerChannelsScoped communityId connId subId filters channelIds =>
      exact wellIndexed_registerWithScope h communityId connId subId filters _
  | removeSubscription connId subId => exact wellIndexed_removeSubscription h connId subId
  | removeConnection ord connId => exact wellIndexed_removeConnection ord h connId
  | removeChannelSubscriptionsScoped ord communityId connId channelId =>
      exact (removeChannelSubscriptionsScoped_spec ord communityId connId channelId h).1

theorem wellIndexed_run (calls : List RegistryCall) : (run calls).WellIndexed := by
  unfold run
  induction calls using List.reverseRecOn with
  | nil => exact wellIndexed_new
  | append_singleton calls c ih =>
      rw [List.foldl_append]
      exact wellIndexed_call ih c

end SubscriptionRegistry

/-! ## The registrations not yet removed or replaced -/

/-- A registration: where it was made and the entry it currently stands for. -/
structure Registration where
  connId : ConnId
  subId : SubId
  entry : SubEntry

namespace Registration

def key (r : Registration) : ConnId × SubId := (r.connId, r.subId)

/-- A new registration replaces the one made at the same place. -/
def replace (live : List Registration) (r : Registration) : List Registration :=
  live.filter (fun r' => decide (r'.key ≠ r.key)) ++ [r]

/-- The registration after a channel was revoked from the connection; `none` when the channel
was its last one. -/
def afterRevocation (communityId : CommunityId) (connId : ConnId) (channelId : Uuid)
    (r : Registration) : Option Registration :=
  if r.connId = connId ∧ r.entry.inChannel communityId channelId = true then
    (r.entry.revoke channelId).map fun e => { r with entry := e }
  else some r

/-- What a call does to the live registrations. -/
def step (live : List Registration) :
    SubscriptionRegistry.RegistryCall → List Registration
  | .registerScoped communityId connId subId filters (some channelId) =>
      replace live ⟨connId, subId, ⟨filters, communityId, .channels [channelId]⟩⟩
  | .registerScoped communityId connId subId filters none =>
      replace live ⟨connId, subId, ⟨filters, communityId, .global⟩⟩
  | .registerChannelsScoped communityId connId subId filters channelIds =>
      replace live ⟨connId, subId, ⟨filters, communityId, .channels channelIds⟩⟩
  | .removeSubscription connId subId =>
      live.filter fun r => decide (r.key ≠ (connId, subId))
  | .removeConnection _ connId => live.filter fun r => decide (r.connId ≠ connId)
  | .removeChannelSubscriptionsScoped _ communityId connId channelId =>
      live.filterMap (afterRevocation communityId connId channelId)

/-- The registrations of a run that were not removed or replaced since. -/
def live (calls : List SubscriptionRegistry.RegistryCall) : List Registration :=
  calls.foldl step []

end Registration

/-- The list `live` is what the registry stores: one registration for each place, with the
stored entry. -/
structure Accounts (live : List Registration) (reg : SubscriptionRegistry) : Prop where
  nodup : (live.map Registration.key).Nodup
  entry_iff : ∀ connId subId e, reg.entry connId subId = some e ↔
    (⟨connId, subId, e⟩ : Registration) ∈ live

namespace Accounts

variable {live : List Registration} {reg : SubscriptionRegistry}

theorem new : Accounts [] SubscriptionRegistry.new where
  nodup := List.nodup_nil
  entry_iff := by
    intro connId subId e
    simp [SubscriptionRegistry.entry, SubscriptionRegistry.new]

theorem filter (h : Accounts live reg) {reg' : SubscriptionRegistry}
    (p : ConnId × SubId → Bool)
    (hentry : ∀ connId subId, reg'.entry connId subId =
      if p (connId, subId) then reg.entry connId subId else none) :
    Accounts (live.filter fun r => p r.key) reg' where
  nodup := h.nodup.sublist (List.filter_sublist.map _)
  entry_iff := by
    intro connId subId e
    rw [hentry, List.mem_filter, ← h.entry_iff]
    by_cases hp : p (connId, subId) = true <;> simp [hp, Registration.key]

theorem replace (h : Accounts live reg) (communityId : CommunityId) (connId : ConnId)
    (subId : SubId) (filters : List Filter) (scope : SubscriptionScope) :
    Accounts (Registration.replace live ⟨connId, subId, ⟨filters, communityId, scope⟩⟩)
      (reg.registerWithScope communityId connId subId filters scope).1 where
  nodup := by
    simp only [Registration.replace, List.map_append, List.map_cons, List.map_nil]
    refine List.Nodup.append (h.nodup.sublist (List.filter_sublist.map _))
      (List.nodup_singleton _) ?_
    intro key hkey hnew
    obtain ⟨r, hr, rfl⟩ := List.mem_map.1 hkey
    rw [List.mem_singleton] at hnew
    simp [List.mem_filter, hnew] at hr
  entry_iff := by
    intro connId' subId' e
    rw [SubscriptionRegistry.entry_registerWithScope, Registration.replace, List.mem_append,
      List.mem_filter, ← h.entry_iff, List.mem_singleton]
    by_cases hcs : connId' = connId ∧ subId' = subId
    · obtain ⟨rfl, rfl⟩ := hcs
      simp [Registration.key, eq_comm]
    · simp [hcs, Registration.key, ← and_assoc]

theorem revoke (h : Accounts live reg) {reg' : SubscriptionRegistry} (communityId : CommunityId)
    (connId : ConnId) (channelId : Uuid)
    (hentry : ∀ connId' subId', reg'.entry connId' subId' =
      (reg.entry connId' subId').bind fun e =>
        if connId' = connId ∧ e.inChannel communityId channelId = true then
          e.revoke channelId
        else some e) :
    Accounts (live.filterMap (Registration.afterRevocation communityId connId channelId))
      reg' := by
  have hkey : ∀ r r', Registration.afterRevocation communityId connId channelId r = some r' →
      r'.key = r.key := by
    intro r r' hr
    unfold Registration.afterRevocation at hr
    split at hr
    · obtain ⟨e, _, rfl⟩ := Option.map_eq_some_iff.1 hr
      rfl
    · rw [Option.some.inj hr]
  constructor
  · refine h.nodup.sublist ?_
    clear h
    induction live with
    | nil => exact List.Sublist.refl _
    | cons r live ih =>
        cases hr : Registration.afterRevocation communityId connId channelId r with
        | none => simpa [hr] using ih.cons _
        | some r' => simpa [hr, hkey r r' hr] using ih.cons_cons r.key
  · intro connId' subId' e'
    rw [hentry, List.mem_filterMap, Option.bind_eq_some_iff]
    constructor
    · rintro ⟨e, he, hrevoke⟩
      refine ⟨⟨connId', subId', e⟩, (h.entry_iff _ _ _).1 he, ?_⟩
      unfold Registration.afterRevocation
      split at hrevoke
      · next hin => simp [hin, hrevoke]
      · next hin =>
          obtain rfl := Option.some.inj hrevoke
          rw [if_neg hin]
    · rintro ⟨⟨c, s, e⟩, hmem, hrevoke⟩
      have hk := hkey _ _ hrevoke
      simp only [Registration.key, Prod.mk.injEq] at hk
      obtain ⟨rfl, rfl⟩ := hk
      refine ⟨e, (h.entry_iff _ _ _).2 hmem, ?_⟩
      unfold Registration.afterRevocation at hrevoke
      split at hrevoke
      · next hin =>
          obtain ⟨e₂, he₂, heq⟩ := Option.map_eq_some_iff.1 hrevoke
          rw [if_pos hin, he₂]
          injection heq with _ _ heq
          rw [heq]
      · next hin =>
          rw [if_neg hin]
          have := Option.some.inj hrevoke
          injection this with _ _ heq
          rw [heq]

theorem call (h : Accounts live reg) (hwell : reg.WellIndexed)
    (c : SubscriptionRegistry.RegistryCall) :
    Accounts (Registration.step live c) (reg.call c) := by
  cases c with
  | registerScoped communityId connId subId filters channelId =>
      cases channelId with
      | none => exact h.replace communityId connId subId filters _
      | some channelId => exact h.replace communityId connId subId filters _
  | registerChannelsScoped communityId connId subId filters channelIds =>
      exact h.replace communityId connId subId filters _
  | removeSubscription connId subId =>
      refine h.filter (fun key => decide (key ≠ (connId, subId))) ?_
      intro connId' subId'
      rw [SubscriptionRegistry.call, SubscriptionRegistry.entry_removeSubscription]
      by_cases hcs : connId' = connId ∧ subId' = subId <;> simp [hcs]
  | removeConnection ord connId =>
      refine h.filter (fun key => decide (key.1 ≠ connId)) ?_
      intro connId' subId'
      rw [SubscriptionRegistry.call, SubscriptionRegistry.entry_removeConnection]
      by_cases hc : connId' = connId <;> simp [hc]
  | removeChannelSubscriptionsScoped ord communityId connId channelId =>
      exact h.revoke communityId connId channelId
        (SubscriptionRegistry.removeChannelSubscriptionsScoped_spec ord communityId connId
          channelId hwell).2.1

theorem run (calls : List SubscriptionRegistry.RegistryCall) :
    Accounts (Registration.live calls) (SubscriptionRegistry.run calls) := by
  unfold Registration.live SubscriptionRegistry.run
  induction calls using List.reverseRecOn with
  | nil => exact Accounts.new
  | append_singleton calls c ih =>
      rw [List.foldl_append, List.foldl_append]
      exact ih.call (SubscriptionRegistry.wellIndexed_run calls) c

end Accounts

/-! ## Counting -/

namespace SubscriptionRegistry

variable {reg : SubscriptionRegistry}

def places (reg : SubscriptionRegistry) : List (ConnId × SubId) :=
  reg.subs.entries.flatMap fun conn => conn.2.entries.map fun sub => (conn.1, sub.1)

theorem length_places (reg : SubscriptionRegistry) :
    reg.places.length = reg.totalSubscriptions := by
  simp [places, totalSubscriptions, HashMap.total, List.length_flatMap]

theorem nodup_places (reg : SubscriptionRegistry) : reg.places.Nodup := by
  refine List.nodup_flatMap.2 ⟨?_, ?_⟩
  · intro conn _
    have hsubs : (conn.2.entries.map Sigma.fst).Nodup := conn.2.nodupKeys
    have := hsubs.map (f := fun subId => (conn.1, subId)) (Prod.mk_right_injective conn.1)
    rwa [List.map_map] at this
  · have hconns : (reg.subs.entries.map Sigma.fst).Nodup := reg.subs.nodupKeys
    refine (List.pairwise_map.1 hconns).imp ?_
    intro conn conn' hne place hplace hplace'
    obtain ⟨sub, _, rfl⟩ := List.mem_map.1 hplace
    obtain ⟨sub', _, heq⟩ := List.mem_map.1 hplace'
    exact hne (Prod.mk.inj heq).1.symm

theorem mem_places {connId : ConnId} {subId : SubId} :
    (connId, subId) ∈ reg.places ↔ ∃ e, reg.entry connId subId = some e := by
  simp only [places, List.mem_flatMap, List.mem_map, Prod.mk.injEq]
  constructor
  · rintro ⟨conn, hconn, sub, hsub, rfl, rfl⟩
    refine ⟨sub.2, ?_⟩
    rw [entry_of_lookup (HashMap.lookup_of_mem_entries hconn)]
    exact HashMap.lookup_of_mem_entries hsub
  · rintro ⟨e, he⟩
    obtain ⟨connSubs, hconn, hsub⟩ := Option.bind_eq_some_iff.1 he
    exact ⟨⟨connId, connSubs⟩, HashMap.mem_entries_iff.2 hconn, ⟨subId, e⟩,
      HashMap.mem_entries_iff.2 hsub, rfl, rfl⟩

theorem places_perm {live : List Registration} (h : Accounts live reg) :
    reg.places.Perm (live.map Registration.key) := by
  refine (List.perm_ext_iff_of_nodup reg.nodup_places h.nodup).2 ?_
  rintro ⟨connId, subId⟩
  rw [mem_places, List.mem_map]
  constructor
  · rintro ⟨e, he⟩
    exact ⟨⟨connId, subId, e⟩, (h.entry_iff _ _ _).1 he, rfl⟩
  · rintro ⟨r, hr, hkey⟩
    obtain ⟨rfl, rfl⟩ := Prod.mk.inj hkey
    exact ⟨r.entry, (h.entry_iff _ _ _).2 hr⟩

theorem totalSubscriptions_eq {live : List Registration} (h : Accounts live reg) :
    reg.totalSubscriptions = live.length := by
  rw [← length_places, (places_perm h).length_eq, List.length_map]

theorem indexesEmpty_of_wellIndexed (h : reg.WellIndexed)
    (hnone : ∀ connId subId, reg.entry connId subId = none) : reg.IndexesEmpty := by
  have hfiled : ∀ key, reg.filed key = none := by
    refine Filing.eq_none_of_not_holds h.noEmptyKey ?_
    rintro key ⟨connId, subId⟩ hholds
    obtain ⟨e, he, _⟩ := (h.holds_iff key connId subId).1 hholds
    rw [hnone] at he
    cases he
  refine ⟨?_, ?_, ?_, ?_, ?_⟩
  · exact Index.eq_empty_iff.2 fun key => hfiled (.channelKind key)
  · exact Index.eq_empty_iff.2 fun key => hfiled (.channelWildcard key)
  · exact Index.eq_empty_iff.2 fun key => hfiled (.globalKind key)
  · exact Index.eq_empty_iff.2 fun key => hfiled (.globalPKind key)
  · exact Index.eq_empty_iff.2 fun key => hfiled (.globalWildcard key)

/-- After every sequence of calls, `(conn, sub)` is filed under a key exactly when it is live and
its current entry generates the key, no key is mapped to an empty vector, the indexes are empty
once nothing is live, and what is live, which `total_subscriptions` counts, are the registrations
not yet removed or replaced. -/
theorem run_indexes_exact (calls : List RegistryCall) :
    (∀ key connId subId, (run calls).filed.Holds key (connId, subId) ↔
        ∃ e, (run calls).entry connId subId = some e ∧ key ∈ e.keys) ∧
      (run calls).filed.NoEmptyKey ∧
      ((∀ connId subId, (run calls).entry connId subId = none) → (run calls).IndexesEmpty) ∧
      (∀ connId subId e, (run calls).entry connId subId = some e ↔
        (⟨connId, subId, e⟩ : Registration) ∈ Registration.live calls) ∧
      (run calls).totalSubscriptions = (Registration.live calls).length := by
  have hwell := wellIndexed_run calls
  have hlive := Accounts.run calls
  exact ⟨hwell.holds_iff, hwell.noEmptyKey, indexesEmpty_of_wellIndexed hwell,
    hlive.entry_iff, totalSubscriptions_eq hlive⟩

end SubscriptionRegistry

end Relay
end Maju
