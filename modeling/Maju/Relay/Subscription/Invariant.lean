import Maju.Relay.Subscription.Registry

/-!
# Invariant — index entries and live subscriptions correspond

The five indexes are read as one: `AnyKey` is a key of any of them and `keysOf` lists the keys
that a community, a filter list and a scope generate.  `WellIndexed` says that the registry holds
`(conn, sub)` under a key exactly when `(conn, sub)` is live and its current entry generates that
key, and that no key is mapped to an empty vector.  Every call of the registry preserves it.
-/

namespace Maju
namespace Relay

open Lib Core

/-! ## Keys of all five indexes -/

/-- A key of one of the five indexes. -/
inductive AnyKey where
  | channelKind (key : CommunityId × IndexKey)
  | channelWildcard (key : CommunityId × Uuid)
  | globalKind (key : CommunityId × Kind)
  | globalPKind (key : GlobalPKindIndexKey)
  | globalWildcard (key : CommunityId)
  deriving DecidableEq, Repr

/-- The keys one channel of a subscription generates. -/
def channelKeys (communityId : CommunityId) (filters : List Filter) (chId : Uuid) :
    List AnyKey :=
  match extractKindsFromFilters filters with
  | none => [.channelWildcard (communityId, chId)]
  | some kinds => kinds.map fun kind => .channelKind (communityId, ⟨chId, kind⟩)

/-- The keys a global subscription generates. -/
def globalKeys (communityId : CommunityId) (filters : List Filter) : List AnyKey :=
  match extractGlobalPKindIndexKeys communityId filters with
  | some keys => keys.map .globalPKind
  | none =>
      match extractKindsFromFilters filters with
      | none => [.globalWildcard communityId]
      | some kinds => kinds.map fun kind => .globalKind (communityId, kind)

/-- The keys that a community, a filter list and a scope generate. -/
def keysOf (communityId : CommunityId) (filters : List Filter) : SubscriptionScope → List AnyKey
  | .channels channelIds => channelIds.flatMap (channelKeys communityId filters)
  | .global => globalKeys communityId filters

def SubEntry.keys (e : SubEntry) : List AnyKey :=
  keysOf e.communityId e.filters e.scope

namespace SubscriptionRegistry

variable {reg : SubscriptionRegistry}

/-- What is stored under a key of any of the five indexes. -/
def filed (reg : SubscriptionRegistry) : Filing AnyKey (ConnId × SubId)
  | .channelKind key => reg.channelKindIndex.filing key
  | .channelWildcard key => reg.channelWildcardIndex.filing key
  | .globalKind key => reg.globalKindIndex.filing key
  | .globalPKind key => reg.globalPKindIndex.filing key
  | .globalWildcard key => reg.globalWildcardIndex.filing key

def IndexesEmpty (reg : SubscriptionRegistry) : Prop :=
  reg.channelKindIndex = ∅ ∧ reg.channelWildcardIndex = ∅ ∧ reg.globalKindIndex = ∅ ∧
    reg.globalPKindIndex = ∅ ∧ reg.globalWildcardIndex = ∅

/-- Every index entry belongs to a live subscription that generates its key, and conversely. -/
structure WellIndexed (reg : SubscriptionRegistry) : Prop where
  holds_iff : ∀ key connId subId, reg.filed.Holds key (connId, subId) ↔
    ∃ e, reg.entry connId subId = some e ∧ key ∈ e.keys
  noEmptyKey : reg.filed.NoEmptyKey

theorem filed_set_subs (subs : HashMap ConnId (HashMap SubId SubEntry)) :
    ({ reg with subs := subs } : SubscriptionRegistry).filed = reg.filed := by
  funext key
  cases key <;> rfl

/-! ## Updating one key -/

/-- Apply an index update at one key of any of the five indexes. -/
def updateAt (update : IndexUpdate) (e : ConnId × SubId) (reg : SubscriptionRegistry) :
    AnyKey → SubscriptionRegistry
  | .channelKind key =>
      { reg with channelKindIndex := update.apply e reg.channelKindIndex key }
  | .channelWildcard key =>
      { reg with channelWildcardIndex := update.apply e reg.channelWildcardIndex key }
  | .globalKind key =>
      { reg with globalKindIndex := update.apply e reg.globalKindIndex key }
  | .globalPKind key =>
      { reg with globalPKindIndex := update.apply e reg.globalPKindIndex key }
  | .globalWildcard key =>
      { reg with globalWildcardIndex := update.apply e reg.globalWildcardIndex key }

theorem filed_push (e : ConnId × SubId) (key : AnyKey) :
    (updateAt .push e reg key).filed = Filing.pushed e reg.filed key := by
  funext key'
  -- Off the diagonal the index that is read is not the one that was written.
  cases key <;> cases key' <;>
    simp [updateAt, IndexUpdate.apply, filed, Filing.pushed, Index.filing_push]

theorem filed_drop (e : ConnId × SubId) (key : AnyKey) :
    (updateAt .drop e reg key).filed = Filing.dropped e reg.filed key := by
  funext key'
  cases key <;> cases key' <;>
    simp [updateAt, IndexUpdate.apply, filed, Filing.dropped, Index.filing_drop]

/-! ## The walk visits the generated keys -/

theorem foldl_channelKind (update : IndexUpdate) (e : ConnId × SubId)
    (keys : List (CommunityId × IndexKey)) (reg : SubscriptionRegistry) :
    { reg with channelKindIndex := keys.foldl (update.apply e) reg.channelKindIndex } =
      (keys.map AnyKey.channelKind).foldl (updateAt update e) reg := by
  induction keys generalizing reg with
  | nil => rfl
  | cons key keys ih =>
      simp only [List.map_cons, List.foldl_cons]
      exact ih (updateAt update e reg (.channelKind key))

theorem foldl_globalKind (update : IndexUpdate) (e : ConnId × SubId)
    (keys : List (CommunityId × Kind)) (reg : SubscriptionRegistry) :
    { reg with globalKindIndex := keys.foldl (update.apply e) reg.globalKindIndex } =
      (keys.map AnyKey.globalKind).foldl (updateAt update e) reg := by
  induction keys generalizing reg with
  | nil => rfl
  | cons key keys ih =>
      simp only [List.map_cons, List.foldl_cons]
      exact ih (updateAt update e reg (.globalKind key))

theorem foldl_globalPKind (update : IndexUpdate) (e : ConnId × SubId)
    (keys : List GlobalPKindIndexKey) (reg : SubscriptionRegistry) :
    { reg with globalPKindIndex := keys.foldl (update.apply e) reg.globalPKindIndex } =
      (keys.map AnyKey.globalPKind).foldl (updateAt update e) reg := by
  induction keys generalizing reg with
  | nil => rfl
  | cons key keys ih =>
      simp only [List.map_cons, List.foldl_cons]
      exact ih (updateAt update e reg (.globalPKind key))

theorem updateChannel_eq (update : IndexUpdate) (e : ConnId × SubId)
    (communityId : CommunityId) (filters : List Filter) (chId : Uuid) :
    updateChannel update e communityId filters reg chId =
      (channelKeys communityId filters chId).foldl (updateAt update e) reg := by
  unfold updateChannel channelKeys
  cases extractKindsFromFilters filters with
  | none => rfl
  | some kinds =>
      cases kinds with
      | nil => rfl
      | cons kind kinds =>
          have h := foldl_channelKind update e
            ((kind :: kinds).map fun kind => (communityId, ⟨chId, kind⟩)) reg
          rw [List.map_map] at h
          exact h

theorem updateScope_eq (update : IndexUpdate) (e : ConnId × SubId) (communityId : CommunityId)
    (filters : List Filter) (scope : SubscriptionScope) :
    updateScope update e communityId filters scope reg =
      (keysOf communityId filters scope).foldl (updateAt update e) reg := by
  cases scope with
  | channels channelIds =>
      simp only [updateScope, keysOf, List.foldl_flatMap]
      congr 1
      funext reg chId
      exact updateChannel_eq update e communityId filters chId
  | global =>
      simp only [updateScope, keysOf, globalKeys]
      cases extractGlobalPKindIndexKeys communityId filters with
      | some keys => exact foldl_globalPKind update e keys reg
      | none =>
          cases extractKindsFromFilters filters with
          | none => rfl
          | some kinds =>
              cases kinds with
              | nil => rfl
              | cons kind kinds =>
                  have h := foldl_globalKind update e
                    ((kind :: kinds).map fun kind => (communityId, kind)) reg
                  rw [List.map_map] at h
                  exact h

@[simp] theorem subs_updateScope (update : IndexUpdate) (e : ConnId × SubId)
    (communityId : CommunityId) (filters : List Filter) (scope : SubscriptionScope) :
    (updateScope update e communityId filters scope reg).subs = reg.subs := by
  rw [updateScope_eq]
  induction keysOf communityId filters scope generalizing reg with
  | nil => rfl
  | cons key keys ih =>
      rw [List.foldl_cons, ih]
      cases key <;> rfl

@[simp] theorem entry_updateScope (update : IndexUpdate) (e : ConnId × SubId)
    (communityId : CommunityId) (filters : List Filter) (scope : SubscriptionScope)
    (connId : ConnId) (subId : SubId) :
    (updateScope update e communityId filters scope reg).entry connId subId =
      reg.entry connId subId := by
  simp [entry]

theorem filed_addToIndex (e : ConnId × SubId) (communityId : CommunityId)
    (filters : List Filter) (scope : SubscriptionScope) :
    (addToIndex e communityId filters scope reg).filed =
      (keysOf communityId filters scope).foldl (Filing.pushed e) reg.filed := by
  rw [addToIndex, updateScope_eq]
  induction keysOf communityId filters scope generalizing reg with
  | nil => rfl
  | cons key keys ih => rw [List.foldl_cons, List.foldl_cons, ih, filed_push]

theorem filed_removeFromIndex (e : ConnId × SubId) (communityId : CommunityId)
    (filters : List Filter) (scope : SubscriptionScope) :
    (removeFromIndex e communityId filters scope reg).filed =
      (keysOf communityId filters scope).foldl (Filing.dropped e) reg.filed := by
  rw [removeFromIndex, updateScope_eq]
  induction keysOf communityId filters scope generalizing reg with
  | nil => rfl
  | cons key keys ih => rw [List.foldl_cons, List.foldl_cons, ih, filed_drop]

/-! ## Entries after each call -/

theorem entry_insert_subs (connId : ConnId) (connSubs : HashMap SubId SubEntry)
    (connId' : ConnId) (subId' : SubId) :
    ({ reg with subs := reg.subs.insert connId connSubs } : SubscriptionRegistry).entry
        connId' subId' =
      if connId' = connId then connSubs.lookup subId' else reg.entry connId' subId' := by
  simp only [entry, HashMap.lookup_insert_eq]
  split <;> rfl

theorem entry_of_lookup {connId : ConnId} {connSubs : HashMap SubId SubEntry}
    (h : reg.subs.lookup connId = some connSubs) (subId : SubId) :
    reg.entry connId subId = connSubs.lookup subId := by
  simp [entry, h]

theorem removeSubscription_cases (reg : SubscriptionRegistry) (connId : ConnId)
    (subId : SubId) :
    (reg.entry connId subId = none ∧ reg.removeSubscription connId subId = (reg, none)) ∨
    ∃ e connSubs, reg.entry connId subId = some e ∧ reg.subs.lookup connId = some connSubs ∧
      reg.removeSubscription connId subId =
        (removeFromIndex (connId, subId) e.communityId e.filters e.scope
            { reg with subs := reg.subs.insert connId (connSubs.erase subId) },
          some ⟨e.communityId, e.scope⟩) := by
  unfold removeSubscription
  cases hconn : reg.subs.lookup connId with
  | none => exact Or.inl ⟨by simp [entry, hconn], rfl⟩
  | some connSubs =>
      cases hsub : connSubs.lookup subId with
      | none => exact Or.inl ⟨by simp [entry, hconn, hsub], by simp [hsub]⟩
      | some e =>
          exact Or.inr ⟨e, connSubs, by simp [entry, hconn, hsub], rfl, by simp [hsub]⟩

theorem entry_removeSubscription (reg : SubscriptionRegistry) (connId : ConnId) (subId : SubId)
    (connId' : ConnId) (subId' : SubId) :
    (reg.removeSubscription connId subId).1.entry connId' subId' =
      if connId' = connId ∧ subId' = subId then none else reg.entry connId' subId' := by
  obtain ⟨hnone, hrem⟩ | ⟨e, connSubs, _, hconn, hrem⟩ :=
    removeSubscription_cases reg connId subId
  · rw [hrem]
    split
    · next h => rw [h.1, h.2, hnone]
    · rfl
  · rw [hrem]
    simp only [removeFromIndex, entry_updateScope, entry_insert_subs, HashMap.lookup_erase_eq]
    by_cases hc : connId' = connId
    · subst hc
      simp [entry_of_lookup hconn]
    · simp [hc]

theorem entry_registerWithScope (communityId : CommunityId) (connId : ConnId) (subId : SubId)
    (filters : List Filter) (scope : SubscriptionScope) (connId' : ConnId) (subId' : SubId) :
    (reg.registerWithScope communityId connId subId filters scope).1.entry connId' subId' =
      if connId' = connId ∧ subId' = subId then some ⟨filters, communityId, scope⟩
      else reg.entry connId' subId' := by
  have hrem := entry_removeSubscription reg connId subId
  simp only [registerWithScope, addToIndex, entry_updateScope, entry_insert_subs,
    HashMap.lookup_insert_eq]
  by_cases hc : connId' = connId
  · subst hc
    by_cases hs : subId' = subId
    · simp [hs]
    · have hold := hrem connId' subId'
      simp only [hs, and_false, if_false] at hold
      simp only [hs, and_false, if_false, if_true]
      rw [← hold]
      unfold entry
      cases (reg.removeSubscription connId' subId).1.subs.lookup connId' with
      | none => simp
      | some connSubs => rfl
  · have hold := hrem connId' subId'
    simp only [hc, false_and, if_false] at hold ⊢
    exact hold

theorem entry_foldl_removeFromIndex (connId : ConnId)
    (visited : List (Sigma fun _ : SubId => SubEntry)) (connId' : ConnId) (subId' : SubId) :
    (visited.foldl
        (fun reg e =>
          removeFromIndex (connId, e.1) e.2.communityId e.2.filters e.2.scope reg)
        reg).entry connId' subId' = reg.entry connId' subId' := by
  induction visited generalizing reg with
  | nil => rfl
  | cons e visited ih => rw [List.foldl_cons, ih, removeFromIndex, entry_updateScope]

theorem entry_removeConnection (ord : IterOrder (Sigma fun _ : SubId => SubEntry))
    (reg : SubscriptionRegistry) (connId connId' : ConnId) (subId' : SubId) :
    (removeConnection ord reg connId).1.entry connId' subId' =
      if connId' = connId then none else reg.entry connId' subId' := by
  unfold removeConnection
  cases hconn : reg.subs.lookup connId with
  | none =>
      by_cases h : connId' = connId
      · subst h
        simp [entry, hconn]
      · simp [h]
  | some connSubs =>
      simp only [entry_foldl_removeFromIndex]
      simp only [entry, HashMap.lookup_erase_eq]
      split <;> rfl

/-! ## Every call preserves the invariant -/

theorem wellIndexed_new : SubscriptionRegistry.new.WellIndexed where
  holds_iff := by
    intro key connId subId
    constructor
    · rintro ⟨es, hes, _⟩
      cases key <;> simp [filed, Index.filing, SubscriptionRegistry.new] at hes
    · rintro ⟨e, he, _⟩
      simp [entry, SubscriptionRegistry.new] at he
  noEmptyKey := by
    intro key
    cases key <;> simp [filed, Index.filing, SubscriptionRegistry.new]

theorem wellIndexed_removeSubscription (h : reg.WellIndexed) (connId : ConnId)
    (subId : SubId) : (reg.removeSubscription connId subId).1.WellIndexed := by
  have hentry := entry_removeSubscription reg connId subId
  obtain ⟨_, hrem⟩ | ⟨e, connSubs, he, _, hrem⟩ := removeSubscription_cases reg connId subId
  · rw [hrem]
    exact h
  · constructor
    · intro key connId' subId'
      rw [hentry, hrem, filed_removeFromIndex, Filing.holds_foldl_dropped]
      have hold := h.holds_iff key connId' subId'
      by_cases hcs : connId' = connId ∧ subId' = subId
      · obtain ⟨rfl, rfl⟩ := hcs
        have : reg.filed.Holds key (connId', subId') ↔ key ∈ e.keys := by
          rw [hold, he]
          simp
        rw [filed_set_subs, this]
        simp [SubEntry.keys]
      · simp only [hcs, if_false, Prod.mk.injEq, and_false, not_false_eq_true, and_true]
        exact hold
    · rw [hrem, filed_removeFromIndex]
      exact Filing.noEmptyKey_foldl_dropped h.noEmptyKey _

theorem wellIndexed_registerWithScope (h : reg.WellIndexed) (communityId : CommunityId)
    (connId : ConnId) (subId : SubId) (filters : List Filter) (scope : SubscriptionScope) :
    (reg.registerWithScope communityId connId subId filters scope).1.WellIndexed := by
  have hremoved := wellIndexed_removeSubscription h connId subId
  constructor
  · intro key connId' subId'
    rw [entry_registerWithScope]
    have hold := hremoved.holds_iff key connId' subId'
    rw [entry_removeSubscription] at hold
    simp only [registerWithScope]
    rw [filed_addToIndex, Filing.holds_foldl_pushed]
    rw [filed_set_subs, hold]
    by_cases hcs : connId' = connId ∧ subId' = subId
    · obtain ⟨rfl, rfl⟩ := hcs
      simp [SubEntry.keys]
    · simp [hcs]
  · simp only [registerWithScope]
    rw [filed_addToIndex]
    exact Filing.noEmptyKey_foldl_pushed hremoved.noEmptyKey _

theorem holds_foldl_removeFromIndex (connId : ConnId)
    (visited : List (Sigma fun _ : SubId => SubEntry)) (key : AnyKey) (connId' : ConnId)
    (subId' : SubId) :
    (visited.foldl
        (fun reg e =>
          removeFromIndex (connId, e.1) e.2.communityId e.2.filters e.2.scope reg)
        reg).filed.Holds key (connId', subId') ↔
      reg.filed.Holds key (connId', subId') ∧
        ¬ ∃ v ∈ visited, key ∈ v.2.keys ∧ connId' = connId ∧ subId' = v.1 := by
  induction visited generalizing reg with
  | nil => simp
  | cons v visited ih =>
      rw [List.foldl_cons, ih, filed_removeFromIndex, Filing.holds_foldl_dropped]
      simp only [List.mem_cons, exists_eq_or_imp, Prod.mk.injEq, SubEntry.keys]
      rw [not_or, and_assoc]

theorem noEmptyKey_foldl_removeFromIndex (h : reg.filed.NoEmptyKey) (connId : ConnId)
    (visited : List (Sigma fun _ : SubId => SubEntry)) :
    (visited.foldl
        (fun reg e =>
          removeFromIndex (connId, e.1) e.2.communityId e.2.filters e.2.scope reg)
        reg).filed.NoEmptyKey := by
  induction visited generalizing reg with
  | nil => exact h
  | cons v visited ih =>
      refine ih ?_
      rw [filed_removeFromIndex]
      exact Filing.noEmptyKey_foldl_dropped h _

theorem wellIndexed_removeConnection (ord : IterOrder (Sigma fun _ : SubId => SubEntry))
    (h : reg.WellIndexed) (connId : ConnId) :
    (removeConnection ord reg connId).1.WellIndexed := by
  have hentry := entry_removeConnection ord reg connId
  cases hconn : reg.subs.lookup connId with
  | none =>
      have hsame : (removeConnection ord reg connId).1 = reg := by
        simp [removeConnection, hconn]
      rw [hsame]
      exact h
  | some connSubs =>
      constructor
      · intro key connId' subId'
        rw [hentry]
        simp only [removeConnection, hconn]
        rw [holds_foldl_removeFromIndex, filed_set_subs, h.holds_iff]
        by_cases hc : connId' = connId
        · subst hc
          simp only [if_true]
          constructor
          · rintro ⟨⟨e, he, hkey⟩, hnot⟩
            rw [entry_of_lookup hconn] at he
            have hmem : (⟨subId', e⟩ : Sigma fun _ : SubId => SubEntry) ∈
                ord.run connSubs.entries :=
              ord.mem_run.2 (HashMap.mem_entries_iff.2 he)
            exact absurd ⟨_, hmem, hkey, trivial, rfl⟩ hnot
          · rintro ⟨e, he, _⟩
            cases he
        · simp [hc]
      · simp only [removeConnection, hconn]
        refine noEmptyKey_foldl_removeFromIndex ?_ connId _
        rw [filed_set_subs]
        exact h.noEmptyKey

/-! ## Revoking one channel -/

end SubscriptionRegistry

theorem channelKeys_channel {communityId : CommunityId} {filters : List Filter} {a b : Uuid}
    {key : AnyKey} (ha : key ∈ channelKeys communityId filters a)
    (hb : key ∈ channelKeys communityId filters b) : a = b := by
  unfold channelKeys at ha hb
  cases hk : extractKindsFromFilters filters with
  | none =>
      rw [hk] at ha hb
      simp only [List.mem_singleton] at ha hb
      rw [ha] at hb
      injection hb with hkey
      exact (Prod.mk.inj hkey).2
  | some kinds =>
      rw [hk] at ha hb
      simp only [List.mem_map] at ha hb
      obtain ⟨_, _, rfl⟩ := ha
      obtain ⟨_, _, hkey⟩ := hb
      injection hkey with hkey
      have := (Prod.mk.inj hkey).2
      injection this with hch
      exact hch.symm

theorem mem_keysOf_filter {communityId : CommunityId} {filters : List Filter}
    {channelIds : List Uuid} {channelId : Uuid} {key : AnyKey} :
    key ∈ keysOf communityId filters
        (.channels (channelIds.filter fun candidate => decide (candidate ≠ channelId))) ↔
      key ∈ keysOf communityId filters (.channels channelIds) ∧
        key ∉ keysOf communityId filters (.channels [channelId]) := by
  simp only [keysOf, List.mem_flatMap, List.mem_filter, decide_eq_true_eq,
    List.flatMap_cons, List.flatMap_nil, List.append_nil]
  constructor
  · rintro ⟨c, ⟨hc, hne⟩, hkey⟩
    exact ⟨⟨c, hc, hkey⟩, fun hkey' => hne (channelKeys_channel hkey hkey')⟩
  · rintro ⟨⟨c, hc, hkey⟩, hnot⟩
    refine ⟨c, ⟨hc, ?_⟩, hkey⟩
    rintro rfl
    exact hnot hkey

/-- The entry after one of its channels was revoked; `none` when no channel is left. -/
def SubEntry.revoke (e : SubEntry) (channelId : Uuid) : Option SubEntry :=
  match e.scope with
  | .global => some e
  | .channels channelIds =>
      let kept := channelIds.filter fun candidate => decide (candidate ≠ channelId)
      if kept.isEmpty then none else some { e with scope := .channels kept }

theorem SubEntry.mem_keys_revoke {e : SubEntry} {channelIds : List Uuid} {channelId : Uuid}
    (hscope : e.scope = .channels channelIds) {key : AnyKey} :
    (∃ e', e.revoke channelId = some e' ∧ key ∈ e'.keys) ↔
      key ∈ e.keys ∧ key ∉ keysOf e.communityId e.filters (.channels [channelId]) := by
  have hkept : key ∈ e.keys ∧ key ∉ keysOf e.communityId e.filters (.channels [channelId]) ↔
      key ∈ keysOf e.communityId e.filters
        (.channels (channelIds.filter fun candidate => decide (candidate ≠ channelId))) := by
    rw [SubEntry.keys, hscope, mem_keysOf_filter]
  rw [hkept, SubEntry.revoke, hscope]
  dsimp only
  split
  · next hempty =>
      rw [List.isEmpty_iff.1 hempty]
      simp [keysOf]
  · simp [SubEntry.keys]

namespace SubscriptionRegistry

theorem revokeChannel_of_entry (communityId : CommunityId) {connId : ConnId} (channelId : Uuid)
    (updates : List ChannelSubscriptionUpdate) {subId : SubId} {e : SubEntry}
    {channelIds : List Uuid} (he : reg.entry connId subId = some e)
    (hscope : e.scope = .channels channelIds) :
    ∃ connSubs, reg.subs.lookup connId = some connSubs ∧
      revokeChannel communityId connId channelId (reg, updates) subId =
        (removeFromIndex (connId, subId) communityId e.filters (.channels [channelId])
            { reg with
              subs := reg.subs.insert connId
                (match e.revoke channelId with
                | none => connSubs.erase subId
                | some e' => connSubs.insert subId e') },
          updates ++ [⟨subId, (e.revoke channelId).isNone⟩]) := by
  unfold entry at he
  cases hconn : reg.subs.lookup connId with
  | none => simp [hconn] at he
  | some connSubs =>
      have hsub : connSubs.lookup subId = some e := by simpa [hconn] using he
      refine ⟨connSubs, rfl, ?_⟩
      simp only [revokeChannel, hconn, hsub, hscope, SubEntry.revoke]
      by_cases hempty :
          (channelIds.filter fun candidate => decide (candidate ≠ channelId)).isEmpty = true
      · simp only [hempty, if_true, Option.isNone_none]
      · simp only [hempty, if_false, Bool.false_eq_true, Option.isNone_some]

theorem entry_revokeChannel (communityId : CommunityId) {connId : ConnId} (channelId : Uuid)
    (updates : List ChannelSubscriptionUpdate) {subId : SubId} {e : SubEntry}
    {channelIds : List Uuid} (he : reg.entry connId subId = some e)
    (hscope : e.scope = .channels channelIds) (connId' : ConnId) (subId' : SubId) :
    (revokeChannel communityId connId channelId (reg, updates) subId).1.entry connId' subId' =
      if connId' = connId ∧ subId' = subId then e.revoke channelId
      else reg.entry connId' subId' := by
  obtain ⟨connSubs, hconn, hrevoke⟩ :=
    revokeChannel_of_entry communityId channelId updates he hscope
  rw [hrevoke]
  simp only [removeFromIndex, entry_updateScope, entry_insert_subs]
  by_cases hc : connId' = connId
  · subst hc
    rw [entry_of_lookup hconn]
    cases e.revoke channelId with
    | none => simp [HashMap.lookup_erase_eq]
    | some e' => simp [HashMap.lookup_insert_eq]
  · simp [hc]

theorem wellIndexed_revokeChannel (h : reg.WellIndexed) {connId : ConnId} (channelId : Uuid)
    (updates : List ChannelSubscriptionUpdate) {subId : SubId} {e : SubEntry}
    {channelIds : List Uuid} (he : reg.entry connId subId = some e)
    (hscope : e.scope = .channels channelIds) :
    (revokeChannel e.communityId connId channelId (reg, updates) subId).1.WellIndexed := by
  have hentry := entry_revokeChannel e.communityId channelId updates he hscope
  obtain ⟨connSubs, hconn, hrevoke⟩ :=
    revokeChannel_of_entry e.communityId channelId updates he hscope
  constructor
  · intro key connId' subId'
    rw [hentry, hrevoke]
    dsimp only
    rw [filed_removeFromIndex, Filing.holds_foldl_dropped, filed_set_subs, h.holds_iff]
    by_cases hcs : connId' = connId ∧ subId' = subId
    · obtain ⟨rfl, rfl⟩ := hcs
      simp only [and_self, if_true, he, Option.some.injEq, exists_eq_left', and_true]
      exact (SubEntry.mem_keys_revoke hscope).symm
    · simp only [hcs, if_false, Prod.mk.injEq, and_false, not_false_eq_true, and_true]
  · rw [hrevoke, filed_removeFromIndex]
    refine Filing.noEmptyKey_foldl_dropped ?_ _
    rw [filed_set_subs]
    exact h.noEmptyKey

end SubscriptionRegistry

end Relay
end Maju
