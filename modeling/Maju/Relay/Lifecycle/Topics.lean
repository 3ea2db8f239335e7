import Maju.Relay.Lifecycle.Model

/-!
# Topics — how a registry call changes the wanted topics

`wanted live t` is the number of live subscriptions whose scope contains the topic `t`, with
multiplicity.  For each mutator of the registry there is one equation between the wanted topics
before and after the call and the topics of what the call removed.
-/

namespace Maju
namespace Relay

open Lib Core Pubsub

def SubEntry.topics (e : SubEntry) : List EventTopicKey := scopeTopics e.communityId e.scope

/-- How often the live registrations want a topic. -/
def wanted (live : List Registration) (t : EventTopicKey) : Nat :=
  (live.map fun r => r.entry.topics.count t).sum

theorem wanted_append (live live' : List Registration) (t : EventTopicKey) :
    wanted (live ++ live') t = wanted live t + wanted live' t := by
  simp [wanted]

theorem wanted_perm {live live' : List Registration} (h : live.Perm live')
    (t : EventTopicKey) : wanted live t = wanted live' t :=
  (h.map _).sum_eq

theorem wanted_filter (p : Registration → Bool) (live : List Registration)
    (t : EventTopicKey) :
    wanted (live.filter p) t + wanted (live.filter fun r => !p r) t = wanted live t := by
  rw [← wanted_append]
  exact wanted_perm (List.filter_append_perm p live) t

/-- The topics of an entry that may be absent. -/
def optTopics (e : Option SubEntry) (t : EventTopicKey) : Nat :=
  e.elim 0 fun e => e.topics.count t

namespace Accounts

variable {live : List Registration} {reg : SubscriptionRegistry}

theorem nodup_live (h : Accounts live reg) : live.Nodup := h.nodup.of_map

theorem wanted_at (h : Accounts live reg) (connId : ConnId) (subId : SubId)
    (t : EventTopicKey) :
    wanted (live.filter fun r => !decide (r.key ≠ (connId, subId))) t =
      optTopics (reg.entry connId subId) t := by
  have hperm : (live.filter fun r => !decide (r.key ≠ (connId, subId))).Perm
      ((reg.entry connId subId).toList.map fun e => ⟨connId, subId, e⟩) := by
    refine (List.perm_ext_iff_of_nodup (h.nodup_live.filter _) ?_).2 ?_
    · cases reg.entry connId subId <;> simp
    · rintro ⟨c, s, e⟩
      simp only [ne_eq, decide_not, Bool.not_not, List.mem_filter, ← h.entry_iff,
        decide_eq_true_eq, List.mem_map, Option.mem_toList,
        Registration.mk.injEq, Registration.key, Prod.mk.injEq]
      constructor
      · rintro ⟨he, rfl, rfl⟩
        exact ⟨e, he, rfl, rfl, rfl⟩
      · rintro ⟨e', he, rfl, rfl, rfl⟩
        exact ⟨he, rfl, rfl⟩
  rw [wanted_perm hperm]
  cases reg.entry connId subId with
  | none => rfl
  | some e => simp [wanted, optTopics]

theorem wanted_remove (h : Accounts live reg) (connId : ConnId) (subId : SubId)
    (t : EventTopicKey) :
    wanted (live.filter fun r => decide (r.key ≠ (connId, subId))) t +
      optTopics (reg.entry connId subId) t = wanted live t := by
  rw [← h.wanted_at connId subId t, wanted_filter]

theorem wanted_replace (h : Accounts live reg) (r : Registration) (t : EventTopicKey) :
    wanted (Registration.replace live r) t + optTopics (reg.entry r.connId r.subId) t =
      wanted live t + r.entry.topics.count t := by
  have hremove := h.wanted_remove r.connId r.subId t
  have hone : wanted [r] t = r.entry.topics.count t := by simp [wanted]
  have happ := wanted_append
    (live.filter fun r' => decide (r'.key ≠ (r.connId, r.subId))) [r] t
  have hreplace : Registration.replace live r =
      (live.filter fun r' => decide (r'.key ≠ (r.connId, r.subId))) ++ [r] := rfl
  rw [hreplace]
  omega

end Accounts

namespace SubscriptionRegistry

variable {reg : SubscriptionRegistry}

theorem removeSubscription_result (reg : SubscriptionRegistry) (connId : ConnId)
    (subId : SubId) :
    (reg.removeSubscription connId subId).2 =
      (reg.entry connId subId).map fun e => ⟨e.communityId, e.scope⟩ := by
  obtain ⟨hnone, hrem⟩ | ⟨e, connSubs, he, _, hrem⟩ := removeSubscription_cases reg connId subId
  · rw [hrem, hnone]
    rfl
  · rw [hrem, he]
    rfl

theorem registerWithScope_result (reg : SubscriptionRegistry) (communityId : CommunityId)
    (connId : ConnId) (subId : SubId) (filters : List Filter) (scope : SubscriptionScope) :
    (reg.registerWithScope communityId connId subId filters scope).2 =
      (reg.entry connId subId).map fun e => ⟨e.communityId, e.scope⟩ :=
  removeSubscription_result reg connId subId

theorem wanted_removeConnection {live : List Registration} (h : Accounts live reg)
    (ord : IterOrder (Sigma fun _ : SubId => SubEntry)) {connId : ConnId}
    {communityId : CommunityId}
    (hcommunity : ∀ subId e, reg.entry connId subId = some e → e.communityId = communityId)
    (t : EventTopicKey) :
    wanted (live.filter fun r => decide (r.connId ≠ connId)) t +
        ((removeConnection ord reg connId).2.flatMap fun r =>
          scopeTopics communityId r.scope).count t = wanted live t := by
  rw [← wanted_filter (fun r => decide (r.connId ≠ connId)) live t]
  congr 1
  unfold removeConnection
  cases hconn : reg.subs.lookup connId with
  | none =>
      have hempty : (live.filter fun r => !decide (r.connId ≠ connId)) = [] := by
        refine List.filter_eq_nil_iff.2 ?_
        rintro ⟨c, s, e⟩ hr
        have he := (h.entry_iff c s e).2 hr
        simp only [ne_eq, decide_not, Bool.not_not, decide_eq_true_eq]
        rintro rfl
        simp [entry, hconn] at he
      rw [hempty]
      rfl
  | some connSubs =>
      have hperm : (connSubs.entries.map fun e => (⟨connId, e.1, e.2⟩ : Registration)).Perm
          (live.filter fun r => !decide (r.connId ≠ connId)) := by
        refine (List.perm_ext_iff_of_nodup ?_ (h.nodup_live.filter _)).2 ?_
        · have hkeys : (connSubs.entries.map Sigma.fst).Nodup := connSubs.nodupKeys
          refine List.Nodup.of_map Registration.subId ?_
          rw [List.map_map]
          exact hkeys
        · rintro ⟨c, s, e⟩
          simp only [ne_eq, decide_not, Bool.not_not, List.mem_filter, ← h.entry_iff,
            decide_eq_true_eq, List.mem_map, Registration.mk.injEq]
          constructor
          · rintro ⟨x, hx, rfl, rfl, rfl⟩
            rw [entry_of_lookup hconn]
            exact ⟨HashMap.lookup_of_mem_entries hx, rfl⟩
          · rintro ⟨he, rfl⟩
            rw [entry_of_lookup hconn] at he
            exact ⟨⟨s, e⟩, HashMap.mem_entries_iff.2 he, rfl, rfl, rfl⟩
      have hown : ∀ x ∈ connSubs.entries, x.2.communityId = communityId := by
        intro x hx
        refine hcommunity x.1 x.2 ?_
        rw [entry_of_lookup hconn]
        exact HashMap.lookup_of_mem_entries hx
      rw [← wanted_perm hperm, List.count_flatMap]
      simp only [wanted, List.map_map]
      rw [((ord.perm connSubs.entries).map _).sum_eq]
      congr 1
      refine List.map_congr_left ?_
      intro x hx
      simp only [Function.comp_apply, SubEntry.topics, hown x hx]

end SubscriptionRegistry

/-! ## Revoking a channel -/

theorem count_channelTopics {communityId : CommunityId} {channelIds : List Uuid}
    (t : EventTopicKey) (channelId : Uuid) (hnodup : channelIds.Nodup)
    (hmem : channelId ∈ channelIds) :
    (scopeTopics communityId (.channels (channelIds.filter fun ch =>
        decide (ch ≠ channelId)))).count t +
      (if t = ⟨communityId, .channel channelId⟩ then 1 else 0) =
      (scopeTopics communityId (.channels channelIds)).count t := by
  have hperm : channelIds.Perm
      (channelId :: channelIds.filter fun ch => decide (ch ≠ channelId)) := by
    have herase := List.perm_cons_erase hmem
    rw [hnodup.erase_eq_filter] at herase
    refine herase.trans (List.Perm.of_eq ?_)
    congr 1
    exact List.filter_congr fun ch _ => by by_cases h : ch = channelId <;> simp [h]
  have hcount := ((hperm.map fun ch => (⟨communityId, .channel ch⟩ : EventTopicKey)).count_eq t)
  simp only [scopeTopics]
  rw [hcount, List.map_cons, List.count_cons]
  simp only [beq_iff_eq]
  congr 1
  by_cases h : t = ⟨communityId, .channel channelId⟩
  · rw [if_pos h, if_pos h.symm]
  · rw [if_neg h, if_neg (Ne.symm h)]

theorem SubEntry.topics_revoke {e : SubEntry} {communityId : CommunityId} {channelId : Uuid}
    (hin : e.inChannel communityId channelId = true) (hnodup : e.scope.channelIds.Nodup)
    (t : EventTopicKey) :
    optTopics (e.revoke channelId) t +
      (if t = ⟨communityId, .channel channelId⟩ then 1 else 0) = e.topics.count t := by
  obtain ⟨rfl, channelIds, hscope⟩ := SubEntry.channels_of_inChannel hin
  have hmem : channelId ∈ channelIds := by
    simpa [SubEntry.inChannel, hscope, SubscriptionScope.channelIds] using hin
  have hnodup' : channelIds.Nodup := by
    rw [hscope] at hnodup
    exact hnodup
  rw [SubEntry.topics, hscope, ← count_channelTopics t channelId hnodup' hmem]
  congr 1
  unfold SubEntry.revoke optTopics
  rw [hscope]
  dsimp only
  split
  · next hempty =>
      rw [List.isEmpty_iff.1 hempty]
      rfl
  · rfl

/-- Revoking a channel of a connection takes the channel's topic once from each subscription
that was routed through it. -/
theorem wanted_revoke (communityId : CommunityId) (connId : ConnId) (channelId : Uuid)
    {live : List Registration} (hnodup : ∀ r ∈ live, r.entry.scope.channelIds.Nodup)
    (t : EventTopicKey) :
    wanted (live.filterMap (Registration.afterRevocation communityId connId channelId)) t +
      (if t = ⟨communityId, .channel channelId⟩ then
        live.countP fun r =>
          decide (r.connId = connId) && r.entry.inChannel communityId channelId
      else 0) = wanted live t := by
  induction live with
  | nil => simp [wanted]
  | cons r live ih =>
      have hrest := ih fun r' hr' => hnodup r' (List.mem_cons_of_mem _ hr')
      have hcons : wanted (r :: live) t = r.entry.topics.count t + wanted live t := by
        simp [wanted]
      have hstep : wanted ((r :: live).filterMap
            (Registration.afterRevocation communityId connId channelId)) t =
          optTopics ((Registration.afterRevocation communityId connId channelId r).map
            Registration.entry) t +
          wanted (live.filterMap
            (Registration.afterRevocation communityId connId channelId)) t := by
        cases hr : Registration.afterRevocation communityId connId channelId r with
        | none => simp [hr, optTopics]
        | some r' => simp [hr, wanted, optTopics]
      rw [hcons, hstep, List.countP_cons]
      by_cases hin : r.connId = connId ∧ r.entry.inChannel communityId channelId = true
      · have htopics := SubEntry.topics_revoke hin.2 (hnodup r List.mem_cons_self) t
        have hafter : (Registration.afterRevocation communityId connId channelId r).map
            Registration.entry = r.entry.revoke channelId := by
          unfold Registration.afterRevocation
          rw [if_pos hin, Option.map_map]
          cases r.entry.revoke channelId <;> rfl
        rw [hafter]
        simp only [hin.1, hin.2, decide_true, Bool.and_true, if_true]
        by_cases ht : t = ⟨communityId, .channel channelId⟩
        · simp only [ht, if_true] at hrest htopics ⊢
          omega
        · simp only [ht, if_false] at hrest htopics ⊢
          omega
      · have hafter : Registration.afterRevocation communityId connId channelId r = some r := by
          unfold Registration.afterRevocation
          rw [if_neg hin]
        have hnot : (decide (r.connId = connId) &&
            r.entry.inChannel communityId channelId) = false := by
          rw [Bool.eq_false_iff]
          simpa using hin
        rw [hafter, hnot]
        simp only [Option.map_some, optTopics, Option.elim_some, Bool.false_eq_true, if_false,
          Nat.add_zero]
        omega

end Relay
end Maju
