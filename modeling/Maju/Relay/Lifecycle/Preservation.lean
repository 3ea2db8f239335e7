import Mathlib.Algebra.Order.BigOperators.Group.List
import Mathlib.Algebra.Order.Group.Nat
import Maju.Relay.Lifecycle.Turns

/-!
# Preservation — every step keeps the invariant

Steps that leave the registry alone share one argument; the registration, the two removals and the
revocation each add the equation for the topics they exchange.  From the invariant follows
`Orderly`, in every state of a run in which tasks take turns.
-/

namespace Maju
namespace Relay

open Lib Core Pubsub

namespace Pod

section Steps

variable {tenant : ConnId → CommunityId} {s : Pod} {k : Nat} {τ : Task}

/-! ## Pending topics -/

theorem pendingRetains_set {s' : Pod} {τ' : Task} (hτ : s.tasks[k]? = some τ)
    (htasks : s'.tasks = s.tasks.set k τ') (t : EventTopicKey) :
    s'.pendingRetains t + τ.retains.count t = s.pendingRetains t + τ'.retains.count t := by
  unfold pendingRetains
  rw [htasks]
  exact Slots.sum_map_set (fun τ => τ.retains.count t) hτ τ'

theorem pendingReleases_set (tenant : ConnId → CommunityId) {s' : Pod} {τ' : Task}
    (hτ : s.tasks[k]? = some τ) (htasks : s'.tasks = s.tasks.set k τ') (t : EventTopicKey) :
    s'.pendingReleases tenant t + (τ.releases tenant).count t =
      s.pendingReleases tenant t + (τ'.releases tenant).count t := by
  unfold pendingReleases
  rw [htasks]
  exact Slots.sum_map_set (fun τ => (τ.releases tenant).count t) hτ τ'

theorem retains_covered (hok : s.TaskOk τ) {t : EventTopicKey} (hpos : 0 < τ.retains.count t) :
    τ.isStarted = false ∧ τ.isDone = false ∧
      ∃ subId e, τ.ownId = some subId ∧ s.registry.entry τ.connId subId = some e ∧
        τ.retains.count t ≤ e.topics.count t := by
  obtain ⟨connId, job, phase⟩ := τ
  cases phase with
  | working releases retains =>
      refine ⟨rfl, rfl, ?_⟩
      cases job with
      | req subId filters =>
          obtain ⟨e, he, hsub⟩ := hok
          exact ⟨subId, e, rfl, he, hsub.count_le t⟩
      | close subId =>
          have hnil : retains = [] := hok
          simp [Task.retains, hnil] at hpos
      | cleanup =>
          have hnil : retains = [] := hok
          simp [Task.retains, hnil] at hpos
      | revoke channelId =>
          have hnil : retains = [] := hok
          simp [Task.retains, hnil] at hpos
  | _ => simp [Task.retains] at hpos

theorem pendingRetains_le (h : Inv tenant s) {live : List Registration}
    (haccounts : Accounts live s.registry) (t : EventTopicKey) :
    s.pendingRetains t ≤ wanted live t := by
  refine Slots.sum_le_of_keyed (fun τ : Task => τ.retains.count t)
    (fun r : Registration => r.entry.topics.count t) (fun τ : Task => (τ.connId, τ.ownId))
    (fun r : Registration => (r.connId, some r.subId)) ?_ ?_
  · intro τ hτ hpos
    obtain ⟨j, hj⟩ := List.mem_iff_getElem?.1 hτ
    obtain ⟨_, _, subId, e, hown, he, hle⟩ := retains_covered (h.taskOk j τ hj) hpos
    exact ⟨⟨τ.connId, subId, e⟩, (haccounts.entry_iff _ _ _).1 he, by rw [hown], hle⟩
  · refine List.pairwise_iff_getElem.2 ?_
    intro i j hi hj hij hposi hposj hkey
    have hi' : s.tasks[i]? = some s.tasks[i] := List.getElem?_eq_getElem hi
    have hj' : s.tasks[j]? = some s.tasks[j] := List.getElem?_eq_getElem hj
    obtain ⟨_, hdone, _⟩ := retains_covered (h.taskOk i _ hi') hposi
    obtain ⟨hstarted, _, _⟩ := retains_covered (h.taskOk j _ hj') hposj
    obtain ⟨hconn, hown⟩ := Prod.mk.inj hkey
    -- two tasks that retain for one subscription conflict
    have := h.turns j _ hj' hstarted i _ hij hi' ⟨hconn, Or.inr (Or.inr hown)⟩
    rw [hdone] at this
    cases this

theorem refcount_pos (h : Inv tenant s) (hτ : s.tasks[k]? = some τ) {t : EventTopicKey}
    (hpos : 0 < (τ.releases tenant).count t) : 0 < s.desired.refcount t := by
  obtain ⟨live, haccounts, htopics⟩ := h.topics
  have hle := pendingRetains_le h haccounts t
  have hpending : (τ.releases tenant).count t ≤ s.pendingReleases tenant t :=
    List.le_sum_of_mem (List.mem_map.2 ⟨τ, List.mem_of_getElem? hτ, rfl⟩)
  have := htopics t
  omega

/-! ## Steps that leave the registry alone -/

/-- While a task is between two steps, a live id that it touches is in the table, unless the task is
the CLOSE of the id. -/
theorem live_in_table (h : Inv tenant s) (hτ : s.tasks[k]? = some τ) (hturn : s.EarlierDone k τ)
    (hactive : τ.isDone = false) {subId : SubId} (htouch : τ.Touches τ.connId subId)
    (he : s.registry.entry τ.connId subId ≠ none) :
    subId ∈ s.table τ.connId ∨ (τ.job = .close subId ∧ τ.phase = .checked) := by
  rcases h.liveInTable τ.connId subId he with hmem | ⟨j, σ, hσ, hconn, hjob, hphase⟩
  · exact Or.inl hmem
  · by_cases hjk : j = k
    · subst hjk
      rw [hτ] at hσ
      obtain rfl := Option.some.inj hσ
      exact Or.inr ⟨hjob, hphase⟩
    · have hclose : σ.Touches τ.connId subId := hconn ▸ Task.touches_close hjob
      have hquiet := others_quiet h hτ hturn hactive hjk hσ (hclose.conflicts htouch)
      simp [Task.isDone, Task.isStarted, hphase] at hquiet

theorem mem_table_of_live (h : Inv tenant s) (hτ : s.tasks[k]? = some τ)
    (hturn : s.EarlierDone k τ) (hactive : τ.isDone = false)
    (hclose : ∀ subId, τ.job = .close subId → τ.phase ≠ .checked) {subId : SubId}
    (htouch : τ.Touches τ.connId subId) (he : s.registry.entry τ.connId subId ≠ none) :
    subId ∈ s.table τ.connId :=
  (live_in_table h hτ hturn hactive htouch he).resolve_right fun hc => hclose subId hc.1 hc.2

theorem bounded_of_subset (h : Inv tenant s) {s' : Pod} {connId : ConnId}
    (hsubset : ∀ subId, s'.Occupied connId subId → s.Occupied connId subId) :
    ∃ ids : List SubId, ids.length ≤ maxSubscriptions ∧
      ∀ subId, s'.Occupied connId subId → subId ∈ ids := by
  obtain ⟨ids, hlen, hids⟩ := h.bounded connId
  exact ⟨ids, hlen, fun subId hoccupied => hids subId (hsubset subId hoccupied)⟩

theorem mem_liveSubs {connId : ConnId} {subId : SubId} :
    subId ∈ (s.liveSubs connId).keys ↔ s.registry.entry connId subId ≠ none := by
  rw [← AList.mem_keys, ← AList.lookup_isSome, Option.isSome_iff_ne_none]
  unfold liveSubs SubscriptionRegistry.entry
  cases s.registry.subs.lookup connId with
  | none => simp
  | some connSubs => rfl

theorem mem_occupied {connId : ConnId} {subId : SubId} :
    subId ∈ s.occupied connId ↔ s.Occupied connId subId := by
  unfold occupied Occupied
  rw [List.mem_dedup, List.mem_append, mem_liveSubs, AList.mem_keys]

theorem inv_of_same_registry (h : Inv tenant s) (hτ : s.tasks[k]? = some τ)
    (hturn : s.EarlierDone k τ) (hactive : τ.isDone = false) {s' : Pod} {phase : Phase}
    (hl : LocalStep s s' k τ phase) (hregistry : s'.registry = s.registry)
    (hcleanup : τ.job = .cleanup → τ.isStarted = false)
    (hpast : τ.pastRegistry = true → ({ τ with phase := phase } : Task).pastRegistry = true)
    (hnew : ∀ subId, s.registry.entry τ.connId subId ≠ none →
      Settles { τ with phase := phase } subId → Settles τ subId)
    (hinTable : ∀ subId, τ.Touches τ.connId subId → s.registry.entry τ.connId subId ≠ none →
      subId ∈ s'.table τ.connId ∨ (τ.job = .close subId ∧ phase = .checked))
    (hstray : s'.strayReleases = s.strayReleases)
    (hcounts : ∀ t, s'.desired.refcount t +
        (({ τ with phase := phase } : Task).retains.count t + (τ.releases tenant).count t) =
      s.desired.refcount t +
        (τ.retains.count t + (({ τ with phase := phase } : Task).releases tenant).count t)) :
    Inv tenant s' := by
  refine hl.inv h hτ hturn hactive ?_ ?_ ?_ ?_ ?_ ?_ ?_
  · rw [hregistry]
    exact h.wellIndexed
  · rw [hregistry]
    exact h.entries τ.connId
  · rw [hregistry]
    rintro (⟨_, hnone⟩ | hjob)
    · exact hnone
    · exact h.cleaned k τ hτ hjob (hcleanup hjob)
  · rw [hregistry, hl.tasks]
    intro subId e he
    refine (h.opened τ.connId subId e he).set hτ hpast fun _ => hnew subId ?_
    rw [he]
    simp
  · rw [hregistry]
    exact hinTable
  · rw [hstray]
    exact h.noStray
  · obtain ⟨live, haccounts, htopics⟩ := h.topics
    refine ⟨live, hregistry ▸ haccounts, ?_⟩
    intro t
    have hretains := pendingRetains_set hτ hl.tasks t
    have hreleases := pendingReleases_set tenant hτ hl.tasks t
    have hcount := hcounts t
    have := htopics t
    omega

theorem table_setTable (s : Pod) (connId : ConnId) (table : HashMap SubId (List Filter))
    (connId' : ConnId) :
    (s.setTable connId table).table connId' =
      if connId' = connId then table else s.table connId' := by
  unfold setTable Pod.table
  rw [HashMap.lookup_insert_eq]
  split <;> rfl

theorem dropRemoved_spec (updates : List ChannelSubscriptionUpdate)
    (table : HashMap SubId (List Filter)) (subId : SubId) :
    (subId ∈ dropRemoved updates table → subId ∈ table) ∧
      (subId ∈ table → (∀ u ∈ updates, u.removed = true → u.subId ≠ subId) →
        subId ∈ dropRemoved updates table) := by
  unfold dropRemoved
  induction updates generalizing table with
  | nil => exact ⟨id, fun hmem _ => hmem⟩
  | cons u updates ih =>
      rw [List.foldl_cons]
      by_cases hu : u.removed = true
      · rw [if_pos hu]
        obtain ⟨hold, hmem⟩ := ih (table.erase u.subId)
        refine ⟨fun hin => (AList.mem_erase.1 (hold hin)).2, ?_⟩
        intro hsub hkept
        refine hmem ?_ fun u' hu' => hkept u' (List.mem_cons_of_mem _ hu')
        exact AList.mem_erase.2 ⟨(hkept u List.mem_cons_self hu).symm, hsub⟩
      · rw [if_neg hu]
        obtain ⟨hold, hmem⟩ := ih table
        exact ⟨hold, fun hsub hkept => hmem hsub fun u' hu' =>
          hkept u' (List.mem_cons_of_mem _ hu')⟩

/-! ## Steps that exchange registrations -/

/-- A registry step replaces the live registrations, and lists what is to be released and
retained for the difference. -/
theorem topics_of_exchange (h : Inv tenant s) (hτ : s.tasks[k]? = some τ) {s' : Pod} {τ' : Task}
    (htasks : s'.tasks = s.tasks.set k τ') (hdesired : s'.desired = s.desired)
    (hretains : τ.retains = []) (hreleases : τ.releases tenant = [])
    (hexchange : ∀ live, Accounts live s.registry → ∃ live', Accounts live' s'.registry ∧
      ∀ t, wanted live' t + (τ'.releases tenant).count t =
        wanted live t + τ'.retains.count t) :
    ∃ live, Accounts live s'.registry ∧
      ∀ t, s'.desired.refcount t + s'.pendingRetains t =
        wanted live t + s'.pendingReleases tenant t := by
  obtain ⟨live, haccounts, htopics⟩ := h.topics
  obtain ⟨live', haccounts', hwanted⟩ := hexchange live haccounts
  refine ⟨live', haccounts', ?_⟩
  intro t
  have hpendingRetains := pendingRetains_set hτ htasks t
  have hpendingReleases := pendingReleases_set tenant hτ htasks t
  rw [hretains, List.count_nil] at hpendingRetains
  rw [hreleases, List.count_nil] at hpendingReleases
  have := hwanted t
  have := htopics t
  rw [hdesired]
  omega

theorem count_removedTopics (h : Inv tenant s) (connId : ConnId) (subId : SubId)
    (t : EventTopicKey) :
    (removedTopics tenant connId ((s.registry.entry connId subId).map fun e =>
        (⟨e.communityId, e.scope⟩ : RemovedSubscription)).toList).count t =
      optTopics (s.registry.entry connId subId) t := by
  cases he : s.registry.entry connId subId with
  | none => rfl
  | some e =>
      simp [removedTopics, optTopics, SubEntry.topics, (h.entries connId subId e he).1]

theorem inv_register (h : Inv tenant s) {connId : ConnId} {subId : SubId}
    {filters : List Filter} {scope : RequestedScope}
    (hτ : s.tasks[k]? = some ⟨connId, .req subId filters, .inserted scope⟩)
    (hturn : s.EarlierDone k ⟨connId, .req subId filters, .inserted scope⟩) :
    Inv tenant ({ s with
        registry := (s.registry.registerWithScope (tenant connId) connId subId filters
          scope.scope).1 }.setPhase k ⟨connId, .req subId filters, .inserted scope⟩
      (.working
        (removedTopics tenant connId
          (s.registry.registerWithScope (tenant connId) connId subId filters
            scope.scope).2.toList)
        (scopeTopics (tenant connId) scope.scope))) := by
  have hentry : ∀ connId' subId', (s.registry.registerWithScope (tenant connId) connId subId filters
      scope.scope).1.entry connId' subId' = _ :=
    SubscriptionRegistry.entry_registerWithScope (tenant connId) connId subId filters scope.scope
  have hmine : subId ∈ s.table connId := h.taskOk k _ hτ
  have hown : ∀ {connId' subId'}, connId' = connId ∧ subId' = subId →
      Task.Touches ⟨connId, .req subId filters, .inserted scope⟩ connId' subId' := by
    rintro _ _ ⟨rfl, rfl⟩
    exact Task.touches_req rfl
  refine LocalStep.inv (s := s) (k := k) (τ := ⟨connId, .req subId filters, .inserted scope⟩)
    ⟨rfl, fun _ _ _ => Iff.rfl, ?_, ?_, bounded_of_subset h ?_⟩ h hτ hturn rfl ?_ ?_ ?_ ?_ ?_
    h.noStray ?_
  · intro connId' subId' hfar
    exact (hentry connId' subId').trans (if_neg fun hand => hfar (hown hand))
  · exact ⟨_, (hentry connId subId).trans (if_pos ⟨rfl, rfl⟩), List.Sublist.refl _⟩
  · -- the id that is registered is in the table
    rintro subId' (hmem | he)
    · exact Or.inl hmem
    · change (s.registry.registerWithScope (tenant connId) connId subId filters scope.scope).1.entry
        connId subId' ≠ none at he
      rw [hentry] at he
      by_cases hsub : subId' = subId
      · subst hsub
        exact Or.inl hmine
      · rw [if_neg fun hand => hsub hand.2] at he
        exact Or.inr he
  · exact SubscriptionRegistry.wellIndexed_registerWithScope h.wellIndexed _ _ _ _ _
  · intro subId' e he
    rw [setPhase, hentry] at he
    split at he
    · obtain rfl := Option.some.inj he
      exact ⟨rfl, scope.nodup⟩
    · exact h.entries connId subId' e he
  · rintro (⟨⟨_, hjob⟩, _⟩ | hjob) <;> cases hjob
  · intro subId' e he
    rw [setPhase, hentry] at he
    split at he
    · next hsub =>
        obtain rfl := hsub.2
        obtain rfl := Option.some.inj he
        refine ⟨k, _, List.getElem?_set_self (List.getElem?_eq_some_iff.1 hτ).1, rfl, rfl, rfl, ?_⟩
        -- the tasks of the id received later have not begun
        intro j σ hkj hσ hconn hsettles
        rw [setPhase, List.getElem?_set_ne (Nat.ne_of_lt hkj)] at hσ
        have hpast := hsettles.2
        have hstarted : σ.isStarted = false := by
          unfold Task.isDecided at hpast
          unfold Task.isStarted
          split at hpast <;> simp_all
        have hconflict := (Task.touches_req rfl : Task.Touches ⟨connId, .req subId' filters,
          .inserted scope⟩ connId subId').conflicts (hconn ▸ hsettles.touches)
        cases h.turns j σ hσ hstarted k _ hkj hτ hconflict
    · next hsub =>
        refine (h.opened connId subId' e he).set hτ (fun hp => by cases hp) ?_
        rintro - ⟨⟨_, hjob⟩ | hjob, _⟩
        · cases hjob
          exact absurd ⟨rfl, rfl⟩ hsub
        · cases hjob
  · rintro subId' ⟨_, hsame⟩ _
    rcases hsame with hnone | hsome
    · cases hnone
    · cases hsome
      exact Or.inl hmine
  · refine topics_of_exchange h hτ rfl rfl rfl rfl ?_
    intro live haccounts
    refine ⟨_, haccounts.replace (tenant connId) connId subId filters scope.scope, ?_⟩
    intro t
    have hwanted := haccounts.wanted_replace
      ⟨connId, subId, ⟨filters, tenant connId, scope.scope⟩⟩ t
    simp only [Task.releases, Task.retains, SubscriptionRegistry.registerWithScope_result,
      count_removedTopics h]
    exact hwanted

theorem inv_closeRegistry (h : Inv tenant s) {connId : ConnId} {subId : SubId}
    (hτ : s.tasks[k]? = some ⟨connId, .close subId, .checked⟩)
    (hturn : s.EarlierDone k ⟨connId, .close subId, .checked⟩) :
    Inv tenant ({ s with registry := (s.registry.removeSubscription connId subId).1 }.setPhase k
      ⟨connId, .close subId, .checked⟩
      (.working (removedTopics tenant connId
        (s.registry.removeSubscription connId subId).2.toList) [])) := by
  have hentry := SubscriptionRegistry.entry_removeSubscription s.registry connId subId
  have hkept : ∀ subId' e, (s.registry.removeSubscription connId subId).1.entry connId subId' =
      some e → subId' ≠ subId ∧ s.registry.entry connId subId' = some e := by
    intro subId' e he
    rw [hentry] at he
    split at he
    · cases he
    · next hsub => exact ⟨fun heq => hsub ⟨rfl, heq⟩, he⟩
  refine LocalStep.inv (s := s) (k := k) (τ := ⟨connId, .close subId, .checked⟩)
    ⟨rfl, fun _ _ _ => Iff.rfl, ?_, rfl, bounded_of_subset h ?_⟩ h hτ hturn rfl ?_ ?_ ?_ ?_ ?_
    h.noStray ?_
  · intro connId' subId' hfar
    refine (hentry connId' subId').trans (if_neg ?_)
    rintro ⟨rfl, rfl⟩
    exact hfar (Task.touches_close rfl)
  · rintro subId' (hmem | hlive)
    · exact Or.inl hmem
    · obtain ⟨e, he⟩ := Option.ne_none_iff_exists'.1 hlive
      refine Or.inr ?_
      rw [(hkept subId' e he).2]
      simp
  · exact SubscriptionRegistry.wellIndexed_removeSubscription h.wellIndexed connId subId
  · intro subId' e he
    exact h.entries connId subId' e (hkept subId' e he).2
  · rintro (⟨⟨_, hjob⟩, _⟩ | hjob) <;> cases hjob
  · intro subId' e he
    obtain ⟨hsub, he⟩ := hkept subId' e he
    refine (h.opened connId subId' e he).set hτ (fun hp => by cases hp) ?_
    rintro - ⟨⟨_, hjob⟩ | hjob, _⟩
    · cases hjob
    · cases hjob
      exact absurd rfl hsub
  · -- the id that the CLOSE touches is gone
    rintro subId' ⟨_, hsame⟩ hlive
    obtain ⟨e, he⟩ := Option.ne_none_iff_exists'.1 hlive
    rcases hsame with hnone | hsome
    · cases hnone
    · cases hsome
      exact absurd rfl (hkept subId e he).1
  · refine topics_of_exchange h hτ rfl rfl rfl rfl ?_
    intro live haccounts
    refine ⟨_, haccounts.filter (fun place => decide (place ≠ (connId, subId))) ?_, ?_⟩
    · intro connId' subId'
      refine (hentry connId' subId').trans ?_
      by_cases hplace : connId' = connId ∧ subId' = subId <;> simp [hplace]
    · intro t
      simp only [Task.releases, Task.retains, SubscriptionRegistry.removeSubscription_result,
        count_removedTopics h, List.count_nil, Nat.add_zero]
      exact haccounts.wanted_remove connId subId t

theorem inv_cleanup (h : Inv tenant s) (ord : IterOrder (Sigma fun _ : SubId => SubEntry))
    {connId : ConnId} (hτ : s.tasks[k]? = some ⟨connId, .cleanup, .started⟩)
    (hturn : s.EarlierDone k ⟨connId, .cleanup, .started⟩) :
    Inv tenant ({ s with
        registry := (SubscriptionRegistry.removeConnection ord s.registry
          connId).1 }.setPhase k ⟨connId, .cleanup, .started⟩
      (.working (removedTopics tenant connId
        (SubscriptionRegistry.removeConnection ord s.registry connId).2) [])) := by
  have hentry := SubscriptionRegistry.entry_removeConnection ord s.registry connId
  have hnone : ∀ subId, (SubscriptionRegistry.removeConnection ord s.registry connId).1.entry
      connId subId = none := fun subId => (hentry connId subId).trans (if_pos rfl)
  refine LocalStep.inv (s := s) (k := k) (τ := ⟨connId, .cleanup, .started⟩)
    ⟨rfl, fun _ _ _ => Iff.rfl, ?_, rfl, bounded_of_subset h ?_⟩ h hτ hturn rfl ?_ ?_ ?_ ?_ ?_
    h.noStray ?_
  · intro connId' subId' hfar
    exact (hentry connId' subId').trans (if_neg fun hc => hfar ⟨hc.symm, Or.inl rfl⟩)
  · rintro subId (hmem | hlive)
    · exact Or.inl hmem
    · exact absurd (hnone subId) hlive
  · exact SubscriptionRegistry.wellIndexed_removeConnection ord h.wellIndexed connId
  · intro subId e he
    rw [setPhase, hnone] at he
    cases he
  · exact fun _ => hnone
  · intro subId e he
    rw [setPhase, hnone] at he
    cases he
  · exact fun subId _ hlive => absurd (hnone subId) hlive
  · refine topics_of_exchange h hτ rfl rfl rfl rfl ?_
    intro live haccounts
    refine ⟨_, haccounts.filter (fun place => decide (place.1 ≠ connId)) ?_, ?_⟩
    · intro connId' subId'
      refine (hentry connId' subId').trans ?_
      by_cases hc : connId' = connId <;> simp [hc]
    · intro t
      exact SubscriptionRegistry.wanted_removeConnection haccounts ord
        (fun subId e he => (h.entries connId subId e he).1) t

/-! ## Revocation -/

theorem revoke_some {e e' : SubEntry} {channelId : Uuid} (h : e.revoke channelId = some e') :
    e'.filters = e.filters ∧ e'.communityId = e.communityId ∧
      e'.scope.channelIds.Sublist e.scope.channelIds := by
  unfold SubEntry.revoke at h
  split at h
  · obtain rfl := Option.some.inj h
    exact ⟨rfl, rfl, List.Sublist.refl _⟩
  · next channelIds hscope =>
      dsimp only at h
      split at h
      · cases h
      · obtain rfl := Option.some.inj h
        rw [hscope]
        exact ⟨rfl, rfl, List.filter_sublist⟩

/-- The subscriptions a revocation visits are those of the connection that are routed through
the channel. -/
theorem length_eq_countP {live : List Registration} {reg : SubscriptionRegistry}
    (haccounts : Accounts live reg) {connId : ConnId} {communityId : CommunityId}
    {channelId : Uuid} {subIds : List SubId} (hnodup : subIds.Nodup)
    (hmem : ∀ subId, subId ∈ subIds ↔ ∃ e, reg.entry connId subId = some e ∧
      e.inChannel communityId channelId = true) :
    subIds.length = live.countP fun r =>
      decide (r.connId = connId) && r.entry.inChannel communityId channelId := by
  rw [List.countP_eq_length_filter, ← List.length_map (f := Registration.subId)]
  refine List.Perm.length_eq ((List.perm_ext_iff_of_nodup hnodup ?_).2 ?_)
  · refine List.Nodup.of_map (fun subId => (connId, subId)) ?_
    have hkeys := haccounts.nodup.sublist (List.filter_sublist (p := fun r : Registration =>
      decide (r.connId = connId) && r.entry.inChannel communityId channelId).map _)
    rw [List.map_map]
    refine (List.map_congr_left ?_).symm ▸ hkeys
    intro r hr
    have := (List.mem_filter.1 hr).2
    simp only [Bool.and_eq_true, decide_eq_true_eq] at this
    rw [Registration.key, Function.comp_apply, this.1]
  · intro subId
    simp only [hmem, List.mem_map, List.mem_filter, Bool.and_eq_true, decide_eq_true_eq]
    constructor
    · rintro ⟨e, he, hin⟩
      exact ⟨⟨connId, subId, e⟩, ⟨(haccounts.entry_iff _ _ _).1 he, rfl, hin⟩, rfl⟩
    · rintro ⟨⟨c, sub, e⟩, ⟨hr, hc, hin⟩, hsub⟩
      dsimp only at hc hsub hin
      subst hc hsub
      exact ⟨e, (haccounts.entry_iff _ _ _).2 hr, hin⟩

theorem count_releases_revoke (connId : ConnId) (channelId : Uuid)
    (updates : List ChannelSubscriptionUpdate) (t : EventTopicKey) :
    (Task.releases tenant ⟨connId, .revoke channelId,
        if updates.isEmpty then .finished else .updated updates⟩).count t =
      if t = ⟨tenant connId, .channel channelId⟩ then updates.length else 0 := by
  cases updates with
  | nil => simp [Task.releases]
  | cons u updates =>
      simp only [List.isEmpty_cons, Bool.false_eq_true, if_false, Task.releases, List.map_const']
      rw [List.count_replicate]
      by_cases ht : t = ⟨tenant connId, .channel channelId⟩
      · simp [ht]
      · simp [ht, Ne.symm ht]

theorem inv_revokeRegistry (h : Inv tenant s)
    (ord : IterOrder (Sigma fun _ : SubId => SubEntry)) {connId : ConnId} {channelId : Uuid}
    (hτ : s.tasks[k]? = some ⟨connId, .revoke channelId, .started⟩)
    (hturn : s.EarlierDone k ⟨connId, .revoke channelId, .started⟩) :
    Inv tenant ({ s with
        registry := (SubscriptionRegistry.removeChannelSubscriptionsScoped ord s.registry
          (tenant connId) connId channelId).1 }.setPhase k
      ⟨connId, .revoke channelId, .started⟩
      (if (SubscriptionRegistry.removeChannelSubscriptionsScoped ord s.registry
          (tenant connId) connId channelId).2.isEmpty then .finished
        else .updated (SubscriptionRegistry.removeChannelSubscriptionsScoped ord s.registry
          (tenant connId) connId channelId).2)) := by
  obtain ⟨hwell, hentry, subIds, hnodup, hmem, hupdates⟩ :=
    SubscriptionRegistry.removeChannelSubscriptionsScoped_spec ord (tenant connId) connId
      channelId h.wellIndexed
  generalize SubscriptionRegistry.removeChannelSubscriptionsScoped ord s.registry
    (tenant connId) connId channelId = r at hwell hentry hupdates ⊢
  have hold : ∀ subId e', r.1.entry connId subId = some e' → ∃ e,
      s.registry.entry connId subId = some e ∧ e'.filters = e.filters ∧
        e'.communityId = e.communityId ∧
        e'.scope.channelIds.Sublist e.scope.channelIds := by
    intro subId e' he'
    rw [hentry] at he'
    obtain ⟨e, he, hrevoked⟩ := Option.bind_eq_some_iff.1 he'
    refine ⟨e, he, ?_⟩
    split at hrevoked
    · exact revoke_some hrevoked
    · obtain rfl := Option.some.inj hrevoked
      exact ⟨rfl, rfl, List.Sublist.refl _⟩
  have hlive : ∀ subId, r.1.entry connId subId ≠ none →
      s.registry.entry connId subId ≠ none := by
    intro subId hne
    obtain ⟨e', he'⟩ := Option.ne_none_iff_exists'.1 hne
    obtain ⟨e, he, _⟩ := hold subId e' he'
    rw [he]
    simp
  refine LocalStep.inv (s := s) (k := k) (τ := ⟨connId, .revoke channelId, .started⟩)
    ⟨rfl, fun _ _ _ => Iff.rfl, ?_, ?_, bounded_of_subset h ?_⟩ h hτ hturn rfl hwell ?_ ?_ ?_ ?_
    h.noStray ?_
  · intro connId' subId hfar
    have hc : connId' ≠ connId := fun hc => hfar ⟨hc.symm, Or.inl rfl⟩
    refine (hentry connId' subId).trans ?_
    cases s.registry.entry connId' subId <;> simp [hc]
  · -- an update that removed its subscription left no entry
    split
    · trivial
    · intro u hu hremoved
      rw [hupdates] at hu
      obtain ⟨subId, hsub, rfl⟩ := List.mem_map.1 hu
      obtain ⟨e, he, hin⟩ := (hmem subId).1 hsub
      have hgone : e.revoke channelId = none := by simpa [he] using hremoved
      refine (hentry connId subId).trans ?_
      simp [he, hin, hgone]
  · rintro subId (hmem | hne)
    · exact Or.inl hmem
    · exact Or.inr (hlive subId hne)
  · intro subId e' he'
    obtain ⟨e, he, _, hcommunity, hsublist⟩ := hold subId e' he'
    obtain ⟨hown, hchannels⟩ := h.entries connId subId e he
    exact ⟨hcommunity.trans hown, hchannels.sublist hsublist⟩
  · rintro (⟨_, hnone⟩ | hjob)
    · intro subId
      refine (hentry connId subId).trans ?_
      rw [hnone subId]
      rfl
    · cases hjob
  · intro subId e' he'
    obtain ⟨e, he, hfilters, _⟩ := hold subId e' he'
    rw [hfilters]
    refine (h.opened connId subId e he).set hτ (fun hp => by cases hp) ?_
    rintro - ⟨⟨_, hjob⟩ | hjob, _⟩ <;> cases hjob
  · intro subId htouch hne
    exact Or.inl (mem_table_of_live h hτ hturn rfl (fun _ hjob => (by cases hjob)) htouch
      (hlive subId hne))
  · refine topics_of_exchange h hτ rfl rfl rfl rfl ?_
    intro live haccounts
    refine ⟨_, haccounts.revoke (tenant connId) connId channelId hentry, ?_⟩
    intro t
    have hscopes : ∀ r ∈ live, r.entry.scope.channelIds.Nodup := by
      rintro ⟨c, sub, e⟩ hr
      exact (h.entries c sub e ((haccounts.entry_iff c sub e).2 hr)).2
    have hwanted := wanted_revoke (tenant connId) connId channelId hscopes t
    have hlength : r.2.length = live.countP fun r =>
        decide (r.connId = connId) && r.entry.inChannel (tenant connId) channelId := by
      rw [hupdates, List.length_map]
      exact length_eq_countP haccounts hnodup hmem
    have hretains : Task.retains ⟨connId, .revoke channelId,
        if r.2.isEmpty then .finished else .updated r.2⟩ = [] := by
      split <;> rfl
    rw [count_releases_revoke, hretains, List.count_nil, hlength]
    exact hwanted

/-! ## Steps on the topic counts -/

theorem inv_release (h : Inv tenant s) (hτ : s.tasks[k]? = some τ) (hturn : s.EarlierDone k τ)
    {t : EventTopicKey} {releases retains : List EventTopicKey}
    (hphase : τ.phase = .working (t :: releases) retains) :
    Inv tenant ((s.releaseTopic t).setPhase k τ (.working releases retains)) := by
  obtain ⟨connId, job, phase⟩ := τ
  obtain rfl := hphase
  have hok := h.taskOk k _ hτ
  have hpos : 0 < s.desired.refcount t :=
    refcount_pos h hτ (by simp [Task.releases])
  refine inv_of_same_registry h hτ hturn rfl ⟨rfl, fun _ _ _ => Iff.rfl, fun _ _ _ => rfl,
    ?_, h.bounded connId⟩ rfl (fun _ => rfl) (fun _ => rfl) (fun _ _ hs => ⟨hs.1, rfl⟩) ?_ ?_ ?_
  · cases job <;> exact hok
  · exact fun _ htouch he => Or.inl (mem_table_of_live h hτ hturn rfl
      (fun _ _ hphase => (by cases hphase)) htouch he)
  · exact if_neg (DesiredTopics.refcount_release hpos t).1
  · intro t'
    have hrelease := (DesiredTopics.refcount_release hpos t').2
    simp only [Task.retains, Task.releases, setPhase, releaseTopic, List.count_cons,
      beq_iff_eq]
    by_cases ht : t' = t
    · subst ht
      simp only [if_true] at hrelease ⊢
      omega
    · simp only [ht, Ne.symm ht, if_false] at hrelease ⊢
      omega

theorem inv_retain (h : Inv tenant s) (hτ : s.tasks[k]? = some τ) (hturn : s.EarlierDone k τ)
    {t : EventTopicKey} {retains : List EventTopicKey}
    (hphase : τ.phase = .working [] (t :: retains)) :
    Inv tenant ((s.retainTopic t).setPhase k τ (.working [] retains)) := by
  obtain ⟨connId, job, phase⟩ := τ
  obtain rfl := hphase
  have hok := h.taskOk k _ hτ
  refine inv_of_same_registry h hτ hturn rfl ⟨rfl, fun _ _ _ => Iff.rfl, fun _ _ _ => rfl,
    ?_, h.bounded connId⟩ rfl (fun _ => rfl) (fun _ => rfl) (fun _ _ hs => ⟨hs.1, rfl⟩) ?_ rfl
    ?_
  · cases job with
    | req subId filters =>
        obtain ⟨e, he, hsub⟩ := hok
        exact ⟨e, he, (List.sublist_cons_self t retains).trans hsub⟩
    | _ => cases hok
  · exact fun _ htouch he => Or.inl (mem_table_of_live h hτ hturn rfl
      (fun _ _ hphase => (by cases hphase)) htouch he)
  · intro t'
    have hretain := DesiredTopics.refcount_retain s.desired t t'
    simp only [Task.retains, Task.releases, setPhase, retainTopic, List.count_cons,
      beq_iff_eq]
    by_cases ht : t' = t
    · subst ht
      simp only [if_true] at hretain ⊢
      omega
    · simp only [ht, Ne.symm ht, if_false] at hretain ⊢
      omega

theorem inv_finish (h : Inv tenant s) (hτ : s.tasks[k]? = some τ) (hturn : s.EarlierDone k τ)
    (hphase : τ.phase = .working [] []) :
    Inv tenant (s.setPhase k τ .finished) := by
  obtain ⟨connId, job, phase⟩ := τ
  obtain rfl := hphase
  refine inv_of_same_registry h hτ hturn rfl ⟨rfl, fun _ _ _ => Iff.rfl, fun _ _ _ => rfl,
    ?_, h.bounded connId⟩ rfl (fun _ => rfl) (fun _ => rfl) (fun _ _ hs => ⟨hs.1, rfl⟩) ?_ rfl
    (fun _ => rfl)
  · cases job <;> trivial
  · exact fun _ htouch he => Or.inl (mem_table_of_live h hτ hturn rfl
      (fun _ _ hphase => (by cases hphase)) htouch he)

/-! ## Steps on the table of a connection -/

theorem inv_refuse (h : Inv tenant s) (hτ : s.tasks[k]? = some τ) (hturn : s.EarlierDone k τ)
    {outcome : Option RequestedScope} (hadmits : s.admits τ outcome = true) {subId : SubId}
    {filters : List Filter} (hjob : τ.job = .req subId filters)
    (hphase : (τ.phase = .started ∧ subId ∉ s.table τ.connId) ∨
      (τ.phase = .checked ∧ outcome = none)) :
    Inv tenant (s.setPhase k τ .refused) := by
  obtain ⟨connId, job, phase⟩ := τ
  obtain rfl := hjob
  have hearly : phase = .started ∨ phase = .checked := hphase.imp And.left And.left
  have hactive : Task.isDone ⟨connId, .req subId filters, phase⟩ = false := by
    rcases hearly with rfl | rfl <;> rfl
  have hopen : ∀ subId', Task.Touches ⟨connId, .req subId filters, phase⟩ connId subId' →
      s.registry.entry connId subId' ≠ none → subId' ∈ s.table connId :=
    fun _ htouch he =>
      mem_table_of_live h hτ hturn hactive (fun _ hjob => (by cases hjob)) htouch he
  -- the refused id is not live
  have hnone : s.registry.entry connId subId = none := by
    rcases hphase with ⟨_, hfull⟩ | ⟨rfl, rfl⟩
    · by_contra he
      exact hfull (hopen subId (Task.touches_req rfl) he)
    · exact Option.isNone_iff_eq_none.1 hadmits
  refine inv_of_same_registry h hτ hturn hactive ⟨rfl, fun _ _ _ => Iff.rfl, fun _ _ _ => rfl,
    trivial, h.bounded connId⟩ rfl (fun hj => (by cases hj)) ?_ ?_
    (fun subId' htouch he => Or.inl (hopen subId' htouch he)) rfl ?_
  · rcases hearly with rfl | rfl <;> exact fun hp => (by cases hp)
  · rintro subId' he ⟨⟨_, hjob⟩ | hjob, _⟩
    · cases hjob
      exact absurd hnone he
    · cases hjob
  · rcases hearly with rfl | rfl <;> exact fun _ => rfl

theorem inv_check (h : Inv tenant s) (hτ : s.tasks[k]? = some τ) (hturn : s.EarlierDone k τ)
    {subId : SubId} {filters : List Filter} (hjob : τ.job = .req subId filters)
    (hphase : τ.phase = .started) :
    Inv tenant (s.setPhase k τ .checked) := by
  obtain ⟨connId, job, phase⟩ := τ
  obtain rfl := hjob
  obtain rfl := hphase
  refine inv_of_same_registry h hτ hturn rfl ⟨rfl, fun _ _ _ => Iff.rfl, fun _ _ _ => rfl,
    trivial, h.bounded connId⟩ rfl (fun hj => (by cases hj)) (fun hp => (by cases hp))
    (fun _ _ hs => (by cases hs.2)) ?_ rfl (fun _ => rfl)
  exact fun _ htouch he => Or.inl (mem_table_of_live h hτ hturn rfl
    (fun _ hjob => (by cases hjob)) htouch he)

theorem inv_insert (h : Inv tenant s) (hτ : s.tasks[k]? = some τ) (hturn : s.EarlierDone k τ)
    {scope : RequestedScope} (hadmits : s.admits τ (some scope) = true) {subId : SubId}
    {filters : List Filter} (hjob : τ.job = .req subId filters)
    (hphase : τ.phase = .checked) :
    Inv tenant ((s.setTable τ.connId ((s.table τ.connId).insert subId filters)).setPhase k τ
      (.inserted scope)) := by
  obtain ⟨connId, job, phase⟩ := τ
  obtain rfl := hjob
  obtain rfl := hphase
  have htable : ∀ c, ((s.setTable connId ((s.table connId).insert subId filters)).setPhase k
      ⟨connId, .req subId filters, .checked⟩ (.inserted scope)).table c =
        if c = connId then (s.table connId).insert subId filters else s.table c :=
    table_setTable s connId _
  have hmem : ∀ c subId', subId' ∈ ((s.setTable connId ((s.table connId).insert subId
      filters)).setPhase k ⟨connId, .req subId filters, .checked⟩ (.inserted scope)).table c ↔
        (c = connId ∧ subId' = subId) ∨ subId' ∈ s.table c := by
    intro c subId'
    rw [htable]
    by_cases hc : c = connId
    · subst hc
      rw [if_pos rfl, AList.mem_insert]
      simp
    · rw [if_neg hc]
      simp [hc]
  refine inv_of_same_registry h hτ hturn rfl ⟨rfl, ?_, fun _ _ _ => rfl, ?_, ?_⟩ rfl
    (fun hj => (by cases hj)) (fun hp => (by cases hp)) (fun _ _ hs => (by cases hs.2)) ?_ rfl
    (fun _ => rfl)
  · intro c subId' hfar
    rw [hmem]
    refine or_iff_right ?_
    rintro ⟨rfl, rfl⟩
    exact hfar (Task.touches_req rfl)
  · exact (hmem connId subId).2 (Or.inl ⟨rfl, rfl⟩)
  · -- the id has its place, or there is room for it
    rcases of_decide_eq_true hadmits with hold | hroom
    · refine bounded_of_subset h ?_
      rintro subId' (hin | he)
      · rcases (hmem connId subId').1 hin with ⟨_, rfl⟩ | hin
        · exact Or.inl hold
        · exact Or.inl hin
      · exact Or.inr he
    · refine ⟨subId :: s.occupied connId, hroom, ?_⟩
      rintro subId' (hin | he)
      · rcases (hmem connId subId').1 hin with ⟨_, rfl⟩ | hin
        · exact List.mem_cons_self
        · exact List.mem_cons_of_mem _ (mem_occupied.2 (Or.inl hin))
      · exact List.mem_cons_of_mem _ (mem_occupied.2 (Or.inr he))
  · intro subId' htouch he
    have hin := mem_table_of_live h hτ hturn rfl (fun _ hjob => (by cases hjob)) htouch he
    exact Or.inl ((hmem connId subId').2 (Or.inr hin))

theorem inv_closeTable (h : Inv tenant s) (hτ : s.tasks[k]? = some τ) (hturn : s.EarlierDone k τ)
    {subId : SubId} (hjob : τ.job = .close subId)
    (hphase : τ.phase = .started) :
    Inv tenant ((s.setTable τ.connId ((s.table τ.connId).erase subId)).setPhase k τ .checked) := by
  obtain ⟨connId, job, phase⟩ := τ
  obtain rfl := hjob
  obtain rfl := hphase
  have htable : ∀ c, ((s.setTable connId ((s.table connId).erase subId)).setPhase k
      ⟨connId, .close subId, .started⟩ .checked).table c =
        if c = connId then (s.table connId).erase subId else s.table c :=
    table_setTable s connId _
  refine inv_of_same_registry h hτ hturn rfl ⟨rfl, ?_, fun _ _ _ => rfl, trivial,
    bounded_of_subset h ?_⟩ rfl (fun hj => (by cases hj)) (fun hp => (by cases hp))
    (fun _ _ hs => (by cases hs.2)) ?_ rfl (fun _ => rfl)
  · intro c subId' hfar
    rw [htable]
    by_cases hc : c = connId
    · subst hc
      have hne : subId' ≠ subId := by
        rintro rfl
        exact hfar (Task.touches_close rfl)
      rw [if_pos rfl, AList.mem_erase]
      exact and_iff_right hne
    · rw [if_neg hc]
  · rintro subId' (hin | he)
    · change subId' ∈ Pod.table _ connId at hin
      rw [htable, if_pos rfl] at hin
      exact Or.inl (AList.mem_erase.1 hin).2
    · exact Or.inr he
  · intro subId' htouch he
    have hmem := mem_table_of_live h hτ hturn rfl (fun _ _ hphase => (by cases hphase)) htouch
      he
    by_cases hsub : subId' = subId
    · exact Or.inr ⟨by rw [hsub], rfl⟩
    · left
      rw [htable, if_pos rfl]
      exact AList.mem_erase.2 ⟨hsub, hmem⟩

theorem inv_revokeTable (h : Inv tenant s) (hτ : s.tasks[k]? = some τ) (hturn : s.EarlierDone k τ)
    {channelId : Uuid} {updates : List ChannelSubscriptionUpdate}
    (hjob : τ.job = .revoke channelId)
    (hphase : τ.phase = .updated updates) :
    Inv tenant ((if s.deregistered τ.connId then s
      else s.setTable τ.connId (dropRemoved updates (s.table τ.connId))).setPhase k τ
        (.working (updates.map fun _ => ⟨tenant τ.connId, .channel channelId⟩) [])) := by
  obtain ⟨connId, job, phase⟩ := τ
  obtain rfl := hjob
  obtain rfl := hphase
  have hok := h.taskOk k _ hτ
  have hlive : ∀ subId, s.registry.entry connId subId ≠ none → subId ∈ s.table connId :=
    fun subId he => mem_table_of_live h hτ hturn rfl (fun _ hjob => (by cases hjob))
      ⟨rfl, Or.inl rfl⟩ he
  by_cases hgone : s.deregistered connId = true
  · rw [if_pos hgone]
    exact inv_of_same_registry h hτ hturn rfl ⟨rfl, fun _ _ _ => Iff.rfl,
      fun _ _ _ => rfl, rfl, h.bounded connId⟩ rfl (fun hj => (by cases hj))
      (fun hp => (by cases hp)) (fun _ _ hs => by rcases hs.1 with ⟨_, hj⟩ | hj <;> cases hj)
      (fun subId _ he => Or.inl (hlive subId he)) rfl (fun _ => rfl)
  · rw [if_neg hgone]
    have hdrop := dropRemoved_spec updates (s.table connId)
    have htable : ∀ c, ((s.setTable connId (dropRemoved updates (s.table connId))).setPhase k
        ⟨connId, .revoke channelId, .updated updates⟩
        (.working (updates.map fun _ => ⟨tenant connId, .channel channelId⟩) [])).table c =
          if c = connId then dropRemoved updates (s.table connId) else s.table c :=
      table_setTable s connId _
    refine inv_of_same_registry h hτ hturn rfl ⟨rfl, ?_, fun _ _ _ => rfl, rfl,
      bounded_of_subset h ?_⟩ rfl (fun hj => (by cases hj)) (fun hp => (by cases hp))
      (fun _ _ hs => by rcases hs.1 with ⟨_, hj⟩ | hj <;> cases hj) ?_ rfl (fun _ => rfl)
    · intro c subId' hfar
      rw [htable, if_neg fun hc => hfar ⟨hc.symm, Or.inl rfl⟩]
    · rintro subId' (hin | he)
      · change subId' ∈ Pod.table _ connId at hin
        rw [htable, if_pos rfl] at hin
        exact Or.inl ((hdrop subId').1 hin)
      · exact Or.inr he
    · intro subId _ he
      left
      rw [htable, if_pos rfl]
      refine (hdrop subId).2 (hlive subId he) ?_
      rintro u hu hremoved rfl
      exact he (hok u hu hremoved)

/-! ## Every step -/

theorem inv_advanced (h : Inv tenant s) (hτ : s.tasks[k]? = some τ)
    (hturn : s.EarlierDone k τ) {outcome : Option RequestedScope}
    (hadmits : s.admits τ outcome = true) {s' : Pod} (ha : Advanced tenant s k τ outcome s') :
    Inv tenant s' := by
  cases ha with
  | stuck => exact h
  | release hphase => exact inv_release h hτ hturn hphase
  | retain hphase => exact inv_retain h hτ hturn hphase
  | finish hphase => exact inv_finish h hτ hturn hphase
  | refuse hjob hphase => exact inv_refuse h hτ hturn hadmits hjob hphase
  | check hjob hphase => exact inv_check h hτ hturn hjob hphase
  | insert hjob hphase scope houtcome =>
      obtain rfl := houtcome
      exact inv_insert h hτ hturn hadmits hjob hphase
  | closeTable hjob hphase => exact inv_closeTable h hτ hturn hjob hphase
  | revokeTable hjob hphase => exact inv_revokeTable h hτ hturn hjob hphase
  | register hjob hphase =>
      obtain ⟨connId, job, phase⟩ := τ
      obtain rfl := hjob
      obtain rfl := hphase
      exact inv_register h hτ hturn
  | closeRegistry hjob hphase =>
      obtain ⟨connId, job, phase⟩ := τ
      obtain rfl := hjob
      obtain rfl := hphase
      exact inv_closeRegistry h hτ hturn
  | cleanup ord hjob hphase =>
      obtain ⟨connId, job, phase⟩ := τ
      obtain rfl := hjob
      obtain rfl := hphase
      exact inv_cleanup h ord hτ hturn
  | revokeRegistry ord hjob hphase =>
      obtain ⟨connId, job, phase⟩ := τ
      obtain rfl := hjob
      obtain rfl := hphase
      exact inv_revokeRegistry h ord hτ hturn

theorem inv_receive (h : Inv tenant s) (connId : ConnId) (job : Job) :
    Inv tenant (if s.loopFree connId then s.spawn connId job else s) := by
  split
  · next hloop => exact inv_spawn h (Or.inr (not_cleanup_of_loopFree hloop))
  · exact h

theorem inv_step (h : Inv tenant s) (input : Input) (hturn : s.inTurn input = true) :
    Inv tenant (s.step tenant input) := by
  cases input with
  | receiveReq connId subId filters => exact inv_receive h connId _
  | receiveClose connId subId => exact inv_receive h connId _
  | disconnect connId => exact inv_receive h connId _
  | revoke connId channelId => exact inv_spawn h (Or.inl ⟨channelId, rfl⟩)
  | advance k outcome ord =>
      dsimp only [step]
      cases hτ : s.tasks[k]? with
      | none => exact h
      | some τ =>
          simp only [inTurn, hτ, Option.all_some, Bool.and_eq_true, List.all_eq_true] at hturn
          obtain ⟨hearlier, hadmits⟩ := hturn
          refine inv_advanced h hτ ?_ hadmits (advanceTask_advanced tenant s k τ outcome ord)
          intro j σ hjk hσ hconflict
          have hmem : σ ∈ s.tasks.take k := by
            refine List.mem_of_getElem? (i := j) ?_
            rw [List.getElem?_take_of_lt hjk]
            exact hσ
          simpa [hconflict] using hearlier σ hmem

theorem inv_run {inputs : List Input}
    (h : Run.Along (fun s input => s.inTurn input = true) (step tenant) Pod.new inputs) :
    Inv tenant (run tenant inputs) :=
  Run.invariant (Inv tenant) (fun _ input hs hturn => inv_step hs input hturn) (inv_new tenant) h

end Steps

end Pod

end Relay
end Maju
