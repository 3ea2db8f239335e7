import Maju.Lib.Counting
import Maju.Relay.Lifecycle.Preservation

/-!
# Runs — tasks that take turns keep a pod orderly

The invariant of a run along `inTurn` gives every part of `Orderly`; the tasks of one connection
overlap there as long as they touch different subscriptions.  Without `inTurn` each part fails;
`overtaken_not_orderly` is a CLOSE that overtakes the handler of its own REQ, and leaves a
subscription behind that the client believes closed.
-/

namespace Maju
namespace Relay

open Lib Core Pubsub

namespace Pod

section Orderly

variable {tenant : ConnId → CommunityId} {s : Pod}

theorem limit_of_inv (h : Inv tenant s) (connId : ConnId) :
    (s.liveSubs connId).entries.length ≤ maxSubscriptions := by
  obtain ⟨ids, hlen, hids⟩ := h.bounded connId
  have hsubset : (s.liveSubs connId).keys ⊆ ids := by
    intro subId hmem
    exact hids subId (Or.inr (mem_liveSubs.1 hmem))
  have hle := (List.subperm_of_subset (s.liveSubs connId).keys_nodup hsubset).length_le
  rw [AList.keys, List.keys, List.length_map] at hle
  exact hle.trans hlen

theorem pending_of_quiet (tenant : ConnId → CommunityId) (hquiet : s.Quiet) (t : EventTopicKey) :
    s.pendingRetains t = 0 ∧ s.pendingReleases tenant t = 0 := by
  have hnone : ∀ τ ∈ s.tasks, τ.retains = [] ∧ τ.releases tenant = [] := by
    intro τ hτ
    have hphase := hquiet τ hτ
    obtain ⟨connId, job, phase⟩ := τ
    cases phase <;> simp_all [Task.retains, Task.releases, Task.isStarted, Task.isDone]
  constructor
  · refine List.sum_eq_zero ?_
    intro n hn
    obtain ⟨τ, hτ, rfl⟩ := List.mem_map.1 hn
    rw [(hnone τ hτ).1, List.count_nil]
  · refine List.sum_eq_zero ?_
    intro n hn
    obtain ⟨τ, hτ, rfl⟩ := List.mem_map.1 hn
    rw [(hnone τ hτ).2, List.count_nil]

theorem SubEntry.topics_nodup {e : SubEntry} (h : e.scope.channelIds.Nodup) :
    e.topics.Nodup := by
  unfold SubEntry.topics scopeTopics
  cases hscope : e.scope with
  | global => simp
  | channels channelIds =>
      rw [hscope] at h
      refine List.Nodup.map ?_ h
      intro a b hab
      simpa using hab

theorem wanted_eq_subscribers (h : Inv tenant s) {live : List Registration}
    (haccounts : Accounts live s.registry) (t : EventTopicKey) :
    wanted live t = s.subscribers t := by
  unfold subscribers wanted
  rw [(SubscriptionRegistry.places_perm haccounts).countP_eq, List.countP_map]
  refine Counting.sum_map_eq_countP _ _ ?_
  intro r hr
  have he := (haccounts.entry_iff r.connId r.subId r.entry).2 hr
  have hnodup := SubEntry.topics_nodup (h.entries _ _ _ he).2
  by_cases ht : t ∈ r.entry.topics
  · simp [Registration.key, he, ht, List.count_eq_one_of_mem hnodup ht]
  · simp [Registration.key, he, ht, List.count_eq_zero_of_not_mem ht]

theorem orderly_of_inv (h : Inv tenant s) : s.Orderly where
  cleaned := by
    rintro connId ⟨τ, hτ, rfl, hjob⟩ hdone
    obtain ⟨k, hk⟩ := List.mem_iff_getElem?.1 hτ
    refine h.cleaned k τ hk hjob ?_
    have := hdone τ hτ rfl
    unfold Task.isDone at this
    unfold Task.isStarted
    split at this <;> simp_all
  closed := by
    intro k τ subId hτ hjob hphase _ hlive
    obtain ⟨e, he⟩ := Option.ne_none_iff_exists'.1 hlive
    obtain ⟨m, ρ, hρ, hconn, hreq, hpast, hlast⟩ := h.opened τ.connId subId e he
    refine ⟨m, ρ, ?_, hρ, hconn, ⟨_, hreq⟩, hpast⟩
    -- the CLOSE settled the id, so the REQ that opened it came later
    rcases Nat.lt_trichotomy m k with hlt | rfl | hgt
    · exact absurd ⟨Or.inr hjob, by simp [Task.isDecided, hphase]⟩ (hlast k τ hlt hτ rfl)
    · rw [hτ] at hρ
      obtain rfl := Option.some.inj hρ
      rw [hjob] at hreq
      cases hreq
    · exact hgt
  lastReq := by
    intro j k σ τ subId filters _ _ hτ _ _ hjob _ hdone e he
    obtain ⟨m, ρ, hρ, hconn, hreq, hpast, hlast⟩ := h.opened τ.connId subId e he
    refine ⟨m, ρ, ?_, hρ, hconn, hreq, hpast⟩
    by_contra hlt
    refine hlast k τ (Nat.lt_of_not_le hlt) hτ rfl ⟨Or.inl ⟨filters, hjob⟩, ?_⟩
    unfold Task.isDone at hdone
    unfold Task.isDecided
    split at hdone <;> simp_all
  limit := limit_of_inv h
  retained := by
    intro hquiet t
    obtain ⟨live, haccounts, htopics⟩ := h.topics
    obtain ⟨hretains, hreleases⟩ := pending_of_quiet tenant hquiet t
    have hcount := htopics t
    rw [hretains, hreleases] at hcount
    rw [← wanted_eq_subscribers h haccounts t]
    omega
  noStray := h.noStray

end Orderly

/-- In every run in which the tasks of each subscription take turns, the pod stays orderly. -/
theorem run_orderly (tenant : ConnId → CommunityId) (inputs : List Input)
    (h : Run.Along (fun s input => s.inTurn input = true) (step tenant) Pod.new inputs) :
    (run tenant inputs).Orderly :=
  orderly_of_inv (inv_run h)

section Samples

/-- One step of a task; a REQ resolves to the global scope. -/
def sampleAdvance (task : Nat) : Input :=
  .advance task (some ⟨.global, List.nodup_nil, SubscriptionScope.noConfusion⟩) (.stored _)

/-- Two REQs of one connection overlap with each other and with one of another connection; then a
CLOSE overlaps with a REQ of another id, a REQ of a new id is refused, and a connection ends. -/
def sampleTurns : List Input :=
  [.receiveReq 0 "s" [.new], .receiveReq 0 "t" [.new], .receiveReq 1 "s" [.new],
    sampleAdvance 1, sampleAdvance 0, sampleAdvance 2, sampleAdvance 0, sampleAdvance 1,
    sampleAdvance 2, sampleAdvance 1, sampleAdvance 0, sampleAdvance 2, sampleAdvance 0,
    sampleAdvance 1, sampleAdvance 2, sampleAdvance 1, sampleAdvance 0, sampleAdvance 2,
    .receiveReq 0 "u" [.new], .receiveClose 0 "s", sampleAdvance 3, sampleAdvance 4,
    sampleAdvance 3, sampleAdvance 4, sampleAdvance 3, sampleAdvance 4, sampleAdvance 3,
    sampleAdvance 4, sampleAdvance 3, .receiveReq 0 "v" [.new], .disconnect 1, sampleAdvance 5,
    .advance 5 none (.stored _), sampleAdvance 6, sampleAdvance 6, sampleAdvance 6]

theorem run_orderly_sampleTurns :
    Run.Along (fun s input => s.inTurn input = true) (step fun _ => ⟨0⟩) Pod.new sampleTurns ∧
      (run (fun _ => ⟨0⟩) sampleTurns).Orderly :=
  ⟨by decide, run_orderly _ sampleTurns (by decide)⟩

/-- A CLOSE that is received and answered before the handler of its REQ takes a step. -/
def overtaken : List Input :=
  [.receiveReq 0 "s" [.new], .receiveClose 0 "s", sampleAdvance 1, sampleAdvance 1,
    sampleAdvance 1, sampleAdvance 0, sampleAdvance 0, sampleAdvance 0, sampleAdvance 0,
    sampleAdvance 0]

/-- The overtaken REQ opens the subscription after the CLOSE was answered, and it stays live. -/
theorem overtaken_not_orderly : ¬ (run (fun _ => ⟨0⟩) overtaken).Orderly := by
  intro h
  have htasks : (run (fun _ => ⟨0⟩) overtaken).tasks =
      [⟨0, .req "s" [.new], .finished⟩, ⟨0, .close "s", .finished⟩] := rfl
  have hlive : (run (fun _ => ⟨0⟩) overtaken).registry.entry 0 "s" ≠ none := by
    rw [← Option.isSome_iff_ne_none]
    decide
  obtain ⟨j, σ, hj, hσ, _⟩ := h.closed 1 ⟨0, .close "s", .finished⟩ "s" (by rw [htasks]; rfl) rfl
    rfl (by
      intro j σ filters hj hσ _ _
      obtain rfl : j = 0 := by omega
      rw [htasks] at hσ
      obtain rfl := Option.some.inj hσ
      rfl) hlive
  have hlen := (List.getElem?_eq_some_iff.1 hσ).1
  rw [htasks] at hlen
  simp only [List.length_cons, List.length_nil] at hlen
  omega

end Samples

end Pod

end Relay
end Maju
