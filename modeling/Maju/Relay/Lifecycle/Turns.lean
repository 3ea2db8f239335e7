import Maju.Lib.Slots
import Maju.Relay.Lifecycle.Orderly

/-!
# Turns — the invariant of tasks that take turns

When the tasks of a subscription take turns, at most one of them is between its first and its last
step, and what it learned about the subscription stays true until its next step: the tasks that do
not conflict with it touch other places of the tables.  The topic counts are shared, and for them
the invariant is an equation: what is retained, and what tasks have yet to retain, is what the live
subscriptions want, and what tasks have yet to release.
-/

namespace Maju
namespace Relay

open Lib Core Pubsub

namespace Task

variable {σ τ : Task} {connId : ConnId} {subId : SubId}

theorem Conflicts.symm (h : σ.Conflicts τ) : τ.Conflicts σ := by
  obtain ⟨hconn, hown⟩ := h
  refine ⟨hconn.symm, ?_⟩
  rcases hown with hσ | hτ | heq
  · exact Or.inr (Or.inl hσ)
  · exact Or.inl hτ
  · exact Or.inr (Or.inr heq.symm)

theorem Touches.conflicts (hσ : σ.Touches connId subId) (hτ : τ.Touches connId subId) :
    σ.Conflicts τ := by
  refine ⟨hσ.1.trans hτ.1.symm, ?_⟩
  rcases hσ.2 with hσ | hσ
  · exact Or.inl hσ
  · rcases hτ.2 with hτ | hτ
    · exact Or.inr (Or.inl hτ)
    · exact Or.inr (Or.inr (hσ.trans hτ.symm))

theorem touches_req {filters : List Filter} (hjob : τ.job = .req subId filters) :
    τ.Touches τ.connId subId := by
  refine ⟨rfl, Or.inr ?_⟩
  rw [ownId, hjob]

theorem touches_close (hjob : τ.job = .close subId) : τ.Touches τ.connId subId := by
  refine ⟨rfl, Or.inr ?_⟩
  rw [ownId, hjob]

theorem conflicts_cleanup (hjob : σ.job = .cleanup) (hconn : σ.connId = τ.connId) :
    σ.Conflicts τ := by
  refine ⟨hconn, Or.inl ?_⟩
  rw [ownId, hjob]

end Task

namespace Pod

section Invariant

variable (tenant : ConnId → CommunityId)

/-- What a task that is between two steps knows about its connection. -/
def TaskOk (s : Pod) (τ : Task) : Prop :=
  match τ.job, τ.phase with
  | .req subId _, .inserted _ => subId ∈ s.table τ.connId
  | .req subId _, .working _ retains =>
      ∃ e, s.registry.entry τ.connId subId = some e ∧ retains.Sublist e.topics
  | .revoke _, .updated updates =>
      ∀ u ∈ updates, u.removed = true → s.registry.entry τ.connId u.subId = none
  | _, .working _ retains => retains = []
  | _, _ => True

/-- The task settles the subscription id: it is a REQ or a CLOSE of this id, and it is done with the
registry or refused. -/
def Settles (τ : Task) (subId : SubId) : Prop :=
  ((∃ filters, τ.job = .req subId filters) ∨ τ.job = .close subId) ∧ τ.isDecided = true

/-- A REQ with these filters opened the id, and no later task of the connection settled it. -/
def OpenedBy (tasks : List Task) (connId : ConnId) (subId : SubId) (filters : List Filter) :
    Prop :=
  ∃ (k : Nat) (τ : Task), tasks[k]? = some τ ∧ τ.connId = connId ∧ τ.job = .req subId filters ∧
    τ.pastRegistry = true ∧
    ∀ (j : Nat) (σ : Task), k < j → tasks[j]? = some σ → σ.connId = connId → ¬ Settles σ subId

/-- The topics that the tasks have yet to retain. -/
def pendingRetains (s : Pod) (t : EventTopicKey) : Nat :=
  (s.tasks.map fun τ => τ.retains.count t).sum

/-- The topics that the tasks have yet to release. -/
def pendingReleases (s : Pod) (t : EventTopicKey) : Nat :=
  (s.tasks.map fun τ => (τ.releases tenant).count t).sum

/-- The subscription is in the table of its connection, or live. -/
def Occupied (s : Pod) (connId : ConnId) (subId : SubId) : Prop :=
  subId ∈ s.table connId ∨ s.registry.entry connId subId ≠ none

/-- A CLOSE of the subscription has taken it off the table and not off the registry. -/
def Closing (s : Pod) (connId : ConnId) (subId : SubId) : Prop :=
  ∃ (k : Nat) (τ : Task), s.tasks[k]? = some τ ∧ τ.connId = connId ∧ τ.job = .close subId ∧
    τ.phase = .checked

/-- The earlier tasks that conflict with this one are done. -/
def EarlierDone (s : Pod) (k : Nat) (τ : Task) : Prop :=
  ∀ (j : Nat) σ, j < k → s.tasks[j]? = some σ → σ.Conflicts τ → σ.isDone = true

/-- What holds in every state of a run in which tasks take turns. -/
structure Inv (s : Pod) : Prop where
  wellIndexed : s.registry.WellIndexed
  entries : ∀ connId subId e, s.registry.entry connId subId = some e →
    e.communityId = tenant connId ∧ e.scope.channelIds.Nodup
  turns : ∀ (k : Nat) τ, s.tasks[k]? = some τ → τ.isStarted = false → s.EarlierDone k τ
  lastJob : ∀ (j k : Nat) σ τ, j < k → s.tasks[j]? = some σ → s.tasks[k]? = some τ →
    σ.connId = τ.connId → σ.job = .cleanup → ∃ channelId, τ.job = .revoke channelId
  taskOk : ∀ (k : Nat) τ, s.tasks[k]? = some τ → s.TaskOk τ
  cleaned : ∀ (k : Nat) τ, s.tasks[k]? = some τ → τ.job = .cleanup → τ.isStarted = false →
    ∀ subId, s.registry.entry τ.connId subId = none
  opened : ∀ connId subId e, s.registry.entry connId subId = some e →
    OpenedBy s.tasks connId subId e.filters
  bounded : ∀ connId, ∃ ids : List SubId, ids.length ≤ maxSubscriptions ∧
    ∀ subId, s.Occupied connId subId → subId ∈ ids
  liveInTable : ∀ connId subId, s.registry.entry connId subId ≠ none →
    subId ∈ s.table connId ∨ s.Closing connId subId
  noStray : s.strayReleases = 0
  topics : ∃ live, Accounts live s.registry ∧
    ∀ t, s.desired.refcount t + s.pendingRetains t = wanted live t + s.pendingReleases tenant t

theorem inv_new : Inv tenant Pod.new where
  wellIndexed := SubscriptionRegistry.wellIndexed_new
  entries := by
    intro connId subId e he
    simp [Pod.new, SubscriptionRegistry.entry, SubscriptionRegistry.new] at he
  turns := by intro k τ hτ; simp [Pod.new] at hτ
  lastJob := by intro j k σ τ _ hσ; simp [Pod.new] at hσ
  taskOk := by intro k τ hτ; simp [Pod.new] at hτ
  cleaned := by intro k τ hτ; simp [Pod.new] at hτ
  opened := by
    intro connId subId e he
    simp [Pod.new, SubscriptionRegistry.entry, SubscriptionRegistry.new] at he
  bounded := by
    intro connId
    refine ⟨[], Nat.zero_le _, ?_⟩
    rintro subId (hmem | he)
    · exact absurd hmem (AList.notMem_empty subId)
    · simp [Pod.new, SubscriptionRegistry.entry, SubscriptionRegistry.new] at he
  liveInTable := by
    intro connId subId he
    simp [Pod.new, SubscriptionRegistry.entry, SubscriptionRegistry.new] at he
  noStray := rfl
  topics := ⟨[], Accounts.new, fun _ => rfl⟩

/-! ## Starting a task -/

variable {tenant} {s : Pod}

theorem taskOk_congr {s' : Pod} {τ : Task}
    (htable : ∀ subId, τ.Touches τ.connId subId →
      (subId ∈ s'.table τ.connId ↔ subId ∈ s.table τ.connId))
    (hentry : ∀ subId, τ.Touches τ.connId subId →
      s'.registry.entry τ.connId subId = s.registry.entry τ.connId subId)
    (h : s.TaskOk τ) : s'.TaskOk τ := by
  obtain ⟨connId, job, phase⟩ := τ
  cases job with
  | req subId filters =>
      have htouch : Task.Touches ⟨connId, .req subId filters, phase⟩ connId subId :=
        Task.touches_req rfl
      cases phase with
      | inserted scope => exact (htable subId htouch).2 h
      | working releases retains =>
          obtain ⟨e, he, hsub⟩ := h
          exact ⟨e, (hentry subId htouch).trans he, hsub⟩
      | _ => trivial
  | revoke channelId =>
      cases phase with
      | updated updates =>
          intro u hu hremoved
          exact (hentry u.subId ⟨rfl, Or.inl rfl⟩).trans (h u hu hremoved)
      | working releases retains => exact h
      | _ => trivial
  | close subId => cases phase <;> exact h
  | cleanup => cases phase <;> exact h

theorem inv_spawn (h : Inv tenant s) {connId : ConnId} {job : Job}
    (hloop : (∃ channelId, job = .revoke channelId) ∨
      ∀ (k : Nat) τ, s.tasks[k]? = some τ → τ.connId = connId → τ.job ≠ .cleanup) :
    Inv tenant (s.spawn connId job) where
  wellIndexed := h.wellIndexed
  entries := h.entries
  turns := by
    intro k τ hτ hstarted j σ hjk hσ hconflict
    obtain ⟨rfl, rfl⟩ | ⟨hk, hτ⟩ := Slots.getElem?_append_singleton_cases hτ
    · cases hstarted
    · obtain ⟨rfl, rfl⟩ | ⟨_, hσ⟩ := Slots.getElem?_append_singleton_cases hσ
      · omega
      · exact h.turns k τ hτ hstarted j σ hjk hσ hconflict
  lastJob := by
    intro j k σ τ hjk hσ hτ hconn hcleanup
    obtain ⟨hk, hσ'⟩ | ⟨hj, hσ'⟩ := Slots.getElem?_append_singleton_cases hσ
    · have hlen := (List.getElem?_eq_some_iff.1 hτ).1
      simp only [spawn, List.length_append, List.length_singleton] at hlen
      omega
    · obtain ⟨rfl, rfl⟩ | ⟨_, hτ⟩ := Slots.getElem?_append_singleton_cases hτ
      · rcases hloop with hrevoke | hloop
        · exact hrevoke
        · exact absurd hcleanup (hloop j σ hσ' hconn)
      · exact h.lastJob j k σ τ hjk hσ' hτ hconn hcleanup
  taskOk := by
    intro k τ hτ
    obtain ⟨_, rfl⟩ | ⟨_, hτ⟩ := Slots.getElem?_append_singleton_cases hτ
    · cases job <;> trivial
    · exact h.taskOk k τ hτ
  cleaned := by
    intro k τ hτ hjob hstarted
    obtain ⟨_, rfl⟩ | ⟨_, hτ⟩ := Slots.getElem?_append_singleton_cases hτ
    · cases hstarted
    · exact h.cleaned k τ hτ hjob hstarted
  opened := by
    intro connId' subId e he
    obtain ⟨k, τ, hτ, hconn, hjob, hpast, hlast⟩ := h.opened connId' subId e he
    refine ⟨k, τ, ?_, hconn, hjob, hpast, ?_⟩
    · simp only [spawn]
      rw [List.getElem?_append_left (List.getElem?_eq_some_iff.1 hτ).1]
      exact hτ
    · intro j σ hkj hσ hconn'
      obtain ⟨_, rfl⟩ | ⟨_, hσ⟩ := Slots.getElem?_append_singleton_cases hσ
      · exact fun hsettles => by cases hsettles.2
      · exact hlast j σ hkj hσ hconn'
  bounded := h.bounded
  liveInTable := by
    intro connId' subId he
    rcases h.liveInTable connId' subId he with hmem | ⟨k, τ, hτ, hclosing⟩
    · exact Or.inl hmem
    · refine Or.inr ⟨k, τ, ?_, hclosing⟩
      simp only [spawn]
      rw [List.getElem?_append_left (List.getElem?_eq_some_iff.1 hτ).1]
      exact hτ
  noStray := h.noStray
  topics := by
    obtain ⟨live, haccounts, htopics⟩ := h.topics
    refine ⟨live, haccounts, ?_⟩
    intro t
    have hretains : (s.spawn connId job).pendingRetains t = s.pendingRetains t := by
      simp [spawn, pendingRetains, Task.retains]
    have hreleases :
        (s.spawn connId job).pendingReleases tenant t = s.pendingReleases tenant t := by
      simp [spawn, pendingReleases, Task.releases]
    rw [hretains, hreleases]
    exact htopics t

theorem not_cleanup_of_loopFree {connId : ConnId} (hloop : s.loopFree connId = true) (k : Nat)
    (τ : Task) (hτ : s.tasks[k]? = some τ) (hconn : τ.connId = connId) : τ.job ≠ .cleanup := by
  have hall := List.all_eq_true.1 hloop τ (List.mem_of_getElem? hτ)
  simp only [hconn, ne_eq, not_true_eq_false, decide_false, Bool.false_or] at hall
  intro hjob
  simp [Task.leavesLoopFree, hjob] at hall

/-! ## A step of a task -/

/-- While a task is between its first and its last step, the tasks that conflict with it have
finished or not begun. -/
theorem others_quiet (h : Inv tenant s) {k : Nat} {τ : Task} (hτ : s.tasks[k]? = some τ)
    (hturn : s.EarlierDone k τ) (hactive : τ.isDone = false) {j : Nat} {σ : Task} (hj : j ≠ k)
    (hσ : s.tasks[j]? = some σ) (hconflict : σ.Conflicts τ) :
    σ.isDone = true ∨ σ.isStarted = true := by
  rcases Nat.lt_or_gt_of_ne hj with hlt | hgt
  · exact Or.inl (hturn j σ hlt hσ hconflict)
  · right
    by_contra hstarted
    have := h.turns j σ hσ (by simpa using hstarted) k τ hgt hτ hconflict.symm
    rw [hactive] at this
    cases this

theorem taskOk_of_quiet {τ : Task} (hquiet : τ.isDone = true ∨ τ.isStarted = true) :
    s.TaskOk τ := by
  obtain ⟨connId, job, phase⟩ := τ
  cases phase <;> cases job <;> simp_all [TaskOk, Task.isDone, Task.isStarted]

theorem Settles.touches {τ : Task} {subId : SubId} (h : Settles τ subId) :
    τ.Touches τ.connId subId := by
  rcases h.1 with ⟨_, hjob⟩ | hjob
  · exact Task.touches_req hjob
  · exact Task.touches_close hjob

/-- Rewriting the phase of one task keeps the witness of an opened id, if the task does not
settle the id newly. -/
theorem OpenedBy.set {tasks : List Task} {connId : ConnId} {subId : SubId}
    {filters : List Filter} (h : OpenedBy tasks connId subId filters) {k : Nat} {τ : Task}
    (hτ : tasks[k]? = some τ) {phase : Phase}
    (hpast : τ.pastRegistry = true → ({ τ with phase := phase } : Task).pastRegistry = true)
    (hnew : τ.connId = connId → Settles { τ with phase := phase } subId → Settles τ subId) :
    OpenedBy (tasks.set k { τ with phase := phase }) connId subId filters := by
  obtain ⟨m, ρ, hρ, hconn, hjob, hpastρ, hlast⟩ := h
  have hlater : ∀ (j : Nat) (σ : Task), m < j →
      (tasks.set k { τ with phase := phase })[j]? = some σ → σ.connId = connId →
        ¬ Settles σ subId := by
    intro j σ hmj hσ hconnσ
    obtain ⟨rfl, rfl⟩ | ⟨_, hσ⟩ := Slots.getElem?_set_cases hσ
    · exact fun hsettles => hlast j τ hmj hτ hconnσ (hnew hconnσ hsettles)
    · exact hlast j σ hmj hσ hconnσ
  by_cases hmk : m = k
  · subst hmk
    rw [hτ] at hρ
    obtain rfl := Option.some.inj hρ
    refine ⟨m, { τ with phase := phase }, ?_, hconn, hjob, hpast hpastρ, hlater⟩
    rw [List.getElem?_set_self (List.getElem?_eq_some_iff.1 hτ).1]
  · refine ⟨m, ρ, ?_, hconn, hjob, hpastρ, hlater⟩
    rw [List.getElem?_set_ne (Ne.symm hmk)]
    exact hρ

/-- The obligations of a step that stay with the places that its task touches, and the bound of its
connection. -/
structure LocalStep (s s' : Pod) (k : Nat) (τ : Task) (phase : Phase) : Prop where
  tasks : s'.tasks = s.tasks.set k { τ with phase := phase }
  tableFrame : ∀ connId subId, ¬ τ.Touches connId subId →
    (subId ∈ s'.table connId ↔ subId ∈ s.table connId)
  entryFrame : ∀ connId subId, ¬ τ.Touches connId subId →
    s'.registry.entry connId subId = s.registry.entry connId subId
  ok : s'.TaskOk { τ with phase := phase }
  bounded : ∃ ids : List SubId, ids.length ≤ maxSubscriptions ∧
    ∀ subId, s'.Occupied τ.connId subId → subId ∈ ids

section Local

variable {s' : Pod} {k : Nat} {τ : Task} {phase : Phase}

theorem LocalStep.task_cases (hl : LocalStep s s' k τ phase) {j : Nat} {σ : Task}
    (hσ : s'.tasks[j]? = some σ) :
    (j = k ∧ σ = { τ with phase := phase }) ∨ (j ≠ k ∧ s.tasks[j]? = some σ) := by
  rw [hl.tasks] at hσ
  exact Slots.getElem?_set_cases hσ

theorem not_touches {connId : ConnId} {subId : SubId} (hc : connId ≠ τ.connId) :
    ¬ τ.Touches connId subId :=
  fun htouch => hc htouch.1.symm

theorem LocalStep.turns (hl : LocalStep s s' k τ phase) (h : Inv tenant s)
    (hτ : s.tasks[k]? = some τ) (hturn : s.EarlierDone k τ) (hactive : τ.isDone = false)
    {j : Nat} {ρ : Task} (hρ : s'.tasks[j]? = some ρ) (hstarted : ρ.isStarted = false) :
    s'.EarlierDone j ρ := by
  intro i σ hij hσ hconflict
  obtain ⟨rfl, rfl⟩ | ⟨hik, hσ⟩ := hl.task_cases hσ
  · -- later tasks that conflict have not begun
    obtain ⟨rfl, rfl⟩ | ⟨hjk, hρ⟩ := hl.task_cases hρ
    · omega
    · have := h.turns j ρ hρ hstarted i τ hij hτ hconflict
      rw [hactive] at this
      cases this
  · obtain ⟨rfl, rfl⟩ | ⟨hjk, hρ⟩ := hl.task_cases hρ
    · exact hturn i σ hij hσ hconflict
    · exact h.turns j ρ hρ hstarted i σ hij hσ hconflict

theorem LocalStep.lastJob (hl : LocalStep s s' k τ phase) (h : Inv tenant s)
    (hτ : s.tasks[k]? = some τ) {i j : Nat} {σ ρ : Task} (hij : i < j)
    (hσ : s'.tasks[i]? = some σ) (hρ : s'.tasks[j]? = some ρ) (hconn : σ.connId = ρ.connId)
    (hcleanup : σ.job = .cleanup) : ∃ channelId, ρ.job = .revoke channelId := by
  obtain ⟨rfl, rfl⟩ | ⟨hik, hσ⟩ := hl.task_cases hσ
  · obtain ⟨rfl, rfl⟩ | ⟨hjk, hρ⟩ := hl.task_cases hρ
    · omega
    · exact h.lastJob i j τ ρ hij hτ hρ hconn hcleanup
  · obtain ⟨rfl, rfl⟩ | ⟨hjk, hρ⟩ := hl.task_cases hρ
    · exact h.lastJob i j σ τ hij hσ hτ hconn hcleanup
    · exact h.lastJob i j σ ρ hij hσ hρ hconn hcleanup

theorem LocalStep.taskOk (hl : LocalStep s s' k τ phase) (h : Inv tenant s)
    (hτ : s.tasks[k]? = some τ) (hturn : s.EarlierDone k τ) (hactive : τ.isDone = false)
    {j : Nat} {σ : Task} (hσ : s'.tasks[j]? = some σ) : s'.TaskOk σ := by
  obtain ⟨rfl, rfl⟩ | ⟨hjk, hσ⟩ := hl.task_cases hσ
  · exact hl.ok
  · by_cases hconflict : σ.Conflicts τ
    · exact taskOk_of_quiet (others_quiet h hτ hturn hactive hjk hσ hconflict)
    · -- the step touches none of the places of the other task
      have hfar : ∀ subId, σ.Touches σ.connId subId → ¬ τ.Touches σ.connId subId :=
        fun subId hσt hτt => hconflict (hσt.conflicts hτt)
      exact taskOk_congr (fun subId ht => hl.tableFrame _ subId (hfar subId ht))
        (fun subId ht => hl.entryFrame _ subId (hfar subId ht)) (h.taskOk j σ hσ)

theorem LocalStep.cleaned (hl : LocalStep s s' k τ phase) (h : Inv tenant s)
    (hτ : s.tasks[k]? = some τ) (hactive : τ.isDone = false)
    (hcleaned : ((∃ channelId, τ.job = .revoke channelId) ∧
        ∀ subId, s.registry.entry τ.connId subId = none) ∨ τ.job = .cleanup →
      ∀ subId, s'.registry.entry τ.connId subId = none)
    {j : Nat} {σ : Task} (hσ : s'.tasks[j]? = some σ) (hjob : σ.job = .cleanup)
    (hstarted : σ.isStarted = false) (subId : SubId) :
    s'.registry.entry σ.connId subId = none := by
  obtain ⟨rfl, rfl⟩ | ⟨hjk, hσ⟩ := hl.task_cases hσ
  · exact hcleaned (Or.inr hjob) subId
  · by_cases hc : σ.connId = τ.connId
    · have hnone := h.cleaned j σ hσ hjob hstarted
      rw [hc] at hnone ⊢
      -- the cleanup came first, so the step is one of a revocation
      have hlt : j < k := by
        rcases Nat.lt_or_gt_of_ne hjk with hlt | hgt
        · exact hlt
        · have := h.turns j σ hσ hstarted k τ hgt hτ (Task.conflicts_cleanup hjob hc).symm
          rw [hactive] at this
          cases this
      exact hcleaned (Or.inl ⟨h.lastJob j k σ τ hlt hσ hτ hc hjob, hnone⟩) subId
    · rw [hl.entryFrame _ subId (not_touches hc)]
      exact h.cleaned j σ hσ hjob hstarted subId

theorem LocalStep.opened (hl : LocalStep s s' k τ phase) (h : Inv tenant s)
    (hτ : s.tasks[k]? = some τ)
    (hopened : ∀ subId e, s'.registry.entry τ.connId subId = some e →
      OpenedBy s'.tasks τ.connId subId e.filters) {connId : ConnId} {subId : SubId}
    {e : SubEntry} (he : s'.registry.entry connId subId = some e) :
    OpenedBy s'.tasks connId subId e.filters := by
  by_cases hc : connId = τ.connId
  · subst hc
    exact hopened subId e he
  · rw [hl.entryFrame connId subId (not_touches hc)] at he
    rw [hl.tasks]
    obtain ⟨m, ρ, hρ, hconn, hjob, hpast, hlast⟩ := h.opened connId subId e he
    have hmk : m ≠ k := by
      rintro rfl
      rw [hτ] at hρ
      rw [Option.some.inj hρ] at hc
      exact hc hconn.symm
    refine ⟨m, ρ, ?_, hconn, hjob, hpast, ?_⟩
    · rw [List.getElem?_set_ne (Ne.symm hmk)]
      exact hρ
    · intro j σ hmj hσ hconnσ
      obtain ⟨rfl, rfl⟩ | ⟨_, hσ⟩ := Slots.getElem?_set_cases hσ
      · exact absurd hconnσ.symm hc
      · exact hlast j σ hmj hσ hconnσ

theorem LocalStep.bounded_all (hl : LocalStep s s' k τ phase) (h : Inv tenant s)
    (connId : ConnId) : ∃ ids : List SubId, ids.length ≤ maxSubscriptions ∧
      ∀ subId, s'.Occupied connId subId → subId ∈ ids := by
  by_cases hc : connId = τ.connId
  · subst hc
    exact hl.bounded
  · obtain ⟨ids, hlen, hids⟩ := h.bounded connId
    refine ⟨ids, hlen, fun subId hoccupied => hids subId ?_⟩
    rcases hoccupied with hmem | he
    · exact Or.inl ((hl.tableFrame connId subId (not_touches hc)).1 hmem)
    · rw [hl.entryFrame connId subId (not_touches hc)] at he
      exact Or.inr he

theorem LocalStep.liveInTable (hl : LocalStep s s' k τ phase) (h : Inv tenant s)
    (hτ : s.tasks[k]? = some τ)
    (hinTable : ∀ subId, τ.Touches τ.connId subId → s'.registry.entry τ.connId subId ≠ none →
      subId ∈ s'.table τ.connId ∨ (τ.job = .close subId ∧ phase = .checked))
    {connId : ConnId} {subId : SubId} (he : s'.registry.entry connId subId ≠ none) :
    subId ∈ s'.table connId ∨ s'.Closing connId subId := by
  by_cases htouch : τ.Touches connId subId
  · obtain ⟨rfl, hown⟩ := htouch
    rcases hinTable subId ⟨rfl, hown⟩ he with hmem | ⟨hjob, rfl⟩
    · exact Or.inl hmem
    · have hself : s'.tasks[k]? = some { τ with phase := .checked } := by
        rw [hl.tasks, List.getElem?_set_self (List.getElem?_eq_some_iff.1 hτ).1]
      exact Or.inr ⟨k, _, hself, rfl, hjob, rfl⟩
  · rw [hl.entryFrame connId subId htouch] at he
    rcases h.liveInTable connId subId he with hmem | ⟨j, σ, hσ, hconn, hjob, hphase⟩
    · exact Or.inl ((hl.tableFrame connId subId htouch).2 hmem)
    · have hjk : j ≠ k := by
        rintro rfl
        rw [hτ] at hσ
        obtain rfl := Option.some.inj hσ
        exact htouch (hconn ▸ Task.touches_close hjob)
      refine Or.inr ⟨j, σ, ?_, hconn, hjob, hphase⟩
      rw [hl.tasks, List.getElem?_set_ne (Ne.symm hjk)]
      exact hσ

theorem LocalStep.inv (hl : LocalStep s s' k τ phase) (h : Inv tenant s)
    (hτ : s.tasks[k]? = some τ) (hturn : s.EarlierDone k τ) (hactive : τ.isDone = false)
    (hwell : s'.registry.WellIndexed)
    (hentries : ∀ subId e, s'.registry.entry τ.connId subId = some e →
      e.communityId = tenant τ.connId ∧ e.scope.channelIds.Nodup)
    (hcleaned : ((∃ channelId, τ.job = .revoke channelId) ∧
        ∀ subId, s.registry.entry τ.connId subId = none) ∨ τ.job = .cleanup →
      ∀ subId, s'.registry.entry τ.connId subId = none)
    (hopened : ∀ subId e, s'.registry.entry τ.connId subId = some e →
      OpenedBy s'.tasks τ.connId subId e.filters)
    (hinTable : ∀ subId, τ.Touches τ.connId subId → s'.registry.entry τ.connId subId ≠ none →
      subId ∈ s'.table τ.connId ∨ (τ.job = .close subId ∧ phase = .checked))
    (hstray : s'.strayReleases = 0)
    (htopics : ∃ live, Accounts live s'.registry ∧
      ∀ t, s'.desired.refcount t + s'.pendingRetains t =
        wanted live t + s'.pendingReleases tenant t) : Inv tenant s' where
  wellIndexed := hwell
  entries := by
    intro connId subId e he
    by_cases hc : connId = τ.connId
    · subst hc
      exact hentries subId e he
    · rw [hl.entryFrame connId subId (not_touches hc)] at he
      exact h.entries connId subId e he
  turns := fun _ _ => hl.turns h hτ hturn hactive
  lastJob := fun _ _ _ _ => hl.lastJob h hτ
  taskOk := fun _ _ => hl.taskOk h hτ hturn hactive
  cleaned := fun _ _ => hl.cleaned h hτ hactive hcleaned
  opened := fun _ _ _ => hl.opened h hτ hopened
  bounded := hl.bounded_all h
  liveInTable := fun _ _ => hl.liveInTable h hτ hinTable
  noStray := hstray
  topics := htopics

end Local

end Invariant

end Pod

end Relay
end Maju
