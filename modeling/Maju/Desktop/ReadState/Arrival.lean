import Maju.Desktop.ReadState.Manager

/-!
# Arrival — a fetched blob and a delivered one

The manager merges a blob in two places: in the loop of `mergeEvents`, for the events of a fetch,
and in `handleIncomingEvent`, for the events of the live subscription.  Both loops join the markers
in the same way and differ in which contexts they make publishable:

* `Manager.shared` — what the two paths have in common, and `joinEvent`, what both do to it;
* `Manager.Silent` — a context that only the live path makes publishable;
* `read_state_paths` — the states in which it does not matter how an event arrives.
-/

namespace Maju
namespace Desktop
namespace ReadState

open Lib MaxRegister

namespace Manager

/-! ## The two paths -/

/-- `mergeEvents` when nothing happens between its awaits. -/
def mergeEvents (m : Manager) (storage : Storage) (events : List Event) (drawn : Text) :
    Manager × Storage :=
  if m.destroyed then (m, storage)
  else
    let (merged, own) := events.foldl (fun s event => s.1.mergeEvent s.2 event) (m, ∅)
    merged.finishMerge storage events own drawn

/-- `handleIncomingEvent` when nothing happens before the decryption. -/
def deliver (m : Manager) (event : Event) : Manager :=
  match m.handleIncomingEvent event with
  | (m, .incoming event) => m.receive event
  | (m, _) => m

/-- What is compared: the state that both paths write. -/
structure SameMerge (a b : Manager) : Prop where
  effectiveState : a.effectiveState = b.effectiveState
  contextSourceCreatedAt : a.contextSourceCreatedAt = b.contextSourceCreatedAt
  maxFetchedCreatedAt : a.maxFetchedCreatedAt = b.maxFetchedCreatedAt
  publishableContextIds : ∀ context,
    context ∈ a.publishableContextIds ↔ context ∈ b.publishableContextIds

theorem SameMerge.publishable {a b : Manager} (h : SameMerge a b) (context : Text) :
    a.publishable.lookup context = b.publishable.lookup context := by
  simp only [Manager.publishable, HashMap.lookup_retain, h.effectiveState,
    h.publishableContextIds context]

/-- The blob of another client repeats a context, and the manager holds it without publishing it. -/
def Silent (m : Manager) (blob : ReadStateBlob) : Prop :=
  blob.clientId ≠ m.clientId ∧ ∃ e ∈ blob.contexts.pairs,
    e.2 ≤ valueAt m.effectiveState e.1 ∧ e.1 ∉ m.publishableContextIds

instance (m : Manager) (blob : ReadStateBlob) : Decidable (m.Silent blob) :=
  inferInstanceAs (Decidable (_ ∧ _))

/-- An event has nothing new for the manager. -/
structure Known (m : Manager) (parsed : ParsedReadStateEvent) : Prop where
  createdAt : parsed.createdAt ≤ m.maxFetchedCreatedAt
  marker : ∀ e ∈ parsed.blob.contexts.pairs, e.2 ≤ valueAt m.effectiveState e.1
  source : ∀ e ∈ parsed.blob.contexts.pairs,
    parsed.createdAt ≤ valueAt m.contextSourceCreatedAt e.1
  own : parsed.blob.clientId = m.clientId →
    ∀ e ∈ parsed.blob.contexts.pairs, e.1 ∈ m.publishableContextIds

/-! ## What the paths have in common -/

/-- All but what only one of the paths writes, or writes under its own rule. -/
def shared (m : Manager) : Manager :=
  { m with
    slotId := []
    publishableContextIds := []
    lastPublishedContexts := ∅
    unsaved := false }

def joinContext (createdAt : Nat) (m : Manager) (e : Text × Nat) : Manager :=
  { m with
    effectiveState := join m.effectiveState e.1 e.2
    contextSourceCreatedAt := join m.contextSourceCreatedAt e.1 createdAt }

/-- The markers of a blob are joined, and their sources. -/
def joinBlob (m : Manager) (parsed : ParsedReadStateEvent) : Manager :=
  { m with
    effectiveState := joinAll m.effectiveState parsed.blob.contexts.pairs
    contextSourceCreatedAt :=
      joinAll m.contextSourceCreatedAt
        (parsed.blob.contexts.pairs.map fun e => (e.1, parsed.createdAt))
    maxFetchedCreatedAt := max m.maxFetchedCreatedAt parsed.createdAt }

def joinEvent (m : Manager) (event : Event) : Manager :=
  match parseReadStateEvent event m.pubkey with
  | none => m
  | some parsed => m.joinBlob parsed

theorem foldl_joinContext (createdAt : Nat) (entries : List (Text × Nat)) (m : Manager) :
    entries.foldl (joinContext createdAt) m =
      { m with
        effectiveState := joinAll m.effectiveState entries
        contextSourceCreatedAt :=
          joinAll m.contextSourceCreatedAt (entries.map fun e => (e.1, createdAt)) } := by
  induction entries generalizing m with
  | nil => rfl
  | cons e entries ih => exact ih (joinContext createdAt m e)

theorem noteSource_eq (m : Manager) (context : Text) (createdAt : Nat) :
    m.noteSource context createdAt =
      { m with contextSourceCreatedAt := join m.contextSourceCreatedAt context createdAt } := by
  unfold noteSource join
  split
  · rfl
  · rfl

theorem applyRemoteContextTimestamp_eq (m : Manager) (context : Text) (ts createdAt : Nat) :
    m.applyRemoteContextTimestamp context ts createdAt =
      (joinContext createdAt m (context, ts), decide (valueAt m.effectiveState context < ts)) := by
  unfold applyRemoteContextTimestamp joinContext
  simp only [noteSource_eq]
  by_cases hlt : valueAt m.effectiveState context < ts
  · rw [Nat.max_eq_right hlt.le, if_neg hlt.ne', decide_eq_true hlt]
    simp only [join, if_pos hlt]
  · rw [Nat.max_eq_left (Nat.le_of_not_lt hlt), if_pos rfl, decide_eq_false hlt]
    simp only [join, if_neg hlt]

theorem fields_of_shared {a b : Manager} (h : a.shared = b.shared) :
    a.clientId = b.clientId ∧ a.effectiveState = b.effectiveState ∧
      a.contextSourceCreatedAt = b.contextSourceCreatedAt ∧
      a.maxFetchedCreatedAt = b.maxFetchedCreatedAt := by
  have hclient := congrArg clientId h
  have heff := congrArg effectiveState h
  have hsource := congrArg contextSourceCreatedAt h
  have hmax := congrArg maxFetchedCreatedAt h
  exact ⟨hclient, heff, hsource, hmax⟩

section Shared

variable (m : Manager)

theorem shared_addPublishable (context : Text) : (m.addPublishable context).shared = m.shared := by
  unfold addPublishable
  split
  · rfl
  · rfl

theorem shared_persistLocalState : m.persistLocalState.shared = m.shared := by
  unfold persistLocalState
  split
  · rfl
  · rfl

theorem shared_mergeContext (createdAt : Nat) (e : Text × Nat) :
    (mergeContext createdAt m e).shared = joinContext createdAt m.shared e := by
  simp only [mergeContext, applyRemoteContextTimestamp_eq]
  split
  · exact shared_addPublishable _ e.1
  · rfl

theorem shared_receiveContext (createdAt : Nat) (e : Text × Nat) :
    (receiveContext createdAt m e).shared = joinContext createdAt m.shared e := by
  simp only [receiveContext, applyRemoteContextTimestamp_eq]
  split
  · exact (shared_persistLocalState _).trans (shared_addPublishable _ e.1)
  · rfl

theorem shared_foldl (parsed : ParsedReadStateEvent) {g : Manager → Text × Nat → Manager}
    (hg : ∀ m e, (g m e).shared = joinContext parsed.createdAt m.shared e) :
    (parsed.blob.contexts.pairs.foldl g (m.seeCreatedAt parsed.createdAt)).shared =
      m.shared.joinBlob parsed := by
  have hloop : ∀ (entries : List (Text × Nat)) (m : Manager),
      (entries.foldl g m).shared = entries.foldl (joinContext parsed.createdAt) m.shared := by
    intro entries
    induction entries with
    | nil => exact fun _ => rfl
    | cons e entries ih => exact fun m => (ih (g m e)).trans (by rw [hg]; rfl)
  exact (hloop _ _).trans (foldl_joinContext _ _ _)

theorem shared_mergeEvent (own : OwnBlobs) (event : Event) :
    (m.mergeEvent own event).1.shared = m.shared.joinEvent event := by
  have hpubkey : m.shared.pubkey = m.pubkey := rfl
  simp only [mergeEvent, joinEvent, hpubkey]
  cases parseReadStateEvent event m.pubkey with
  | none => rfl
  | some parsed =>
      have hjoined := shared_foldl m parsed
        fun m e => shared_mergeContext m parsed.createdAt e
      -- The own blobs are noted beside the manager.
      dsimp only
      split
      · split
        · split
          · exact hjoined
          · exact hjoined
        · exact hjoined
      · exact hjoined

theorem shared_finishMerge (storage : Storage) (events : List Event) (own : OwnBlobs)
    (drawn : Text) : (m.finishMerge storage events own drawn).1.shared = m.shared := by
  have hblobs : ∀ (m : Manager) (blobs : List Record),
      (blobs.foldl (fun m contexts =>
        contexts.pairs.foldl (fun m e => m.addPublishable e.1) m) m).shared = m.shared :=
    fun m blobs => foldl_addPublishable (P := fun m' => m'.shared = m.shared)
      (fun m' context h => (shared_addPublishable m' context).trans h) blobs rfl
  unfold finishMerge
  split
  next m' storage' heq =>
    have hm' : m'.shared = m.shared := by
      split at heq
      · cases heq
        rfl
      · cases heq
        rfl
    dsimp only
    split
    · exact hm'
    · exact (hblobs m' _).trans hm'

theorem shared_receive (event : Event) (hrunning : m.destroyed = false) :
    (m.receive event).shared = m.shared.joinEvent event := by
  have hpubkey : m.shared.pubkey = m.pubkey := rfl
  simp only [receive, joinEvent, hpubkey, hrunning]
  cases parseReadStateEvent event m.pubkey with
  | none => rfl
  | some parsed =>
      exact shared_foldl m parsed fun m e => shared_receiveContext m parsed.createdAt e

end Shared

theorem frame_joinEvent (m : Manager) (event : Event) :
    (m.joinEvent event).destroyed = m.destroyed ∧
      (m.joinEvent event).recentlyPublishedIds = m.recentlyPublishedIds := by
  unfold joinEvent
  split
  · exact ⟨rfl, rfl⟩
  · exact ⟨rfl, rfl⟩

theorem shared_foldl_mergeEvent (events : List Event) (m : Manager) (own : OwnBlobs) :
    (events.foldl (fun s event => s.1.mergeEvent s.2 event) (m, own)).1.shared =
      events.foldl joinEvent m.shared := by
  induction events generalizing m own with
  | nil => rfl
  | cons event events ih =>
      calc
        ((event :: events).foldl (fun s event => s.1.mergeEvent s.2 event) (m, own)).1.shared
            = events.foldl joinEvent (m.mergeEvent own event).1.shared := ih _ _
        _ = (event :: events).foldl joinEvent m.shared := by
              rw [shared_mergeEvent]
              rfl

theorem shared_deliver {m : Manager} {event : Event} (hrunning : m.destroyed = false)
    (hecho : event ∉ m.recentlyPublishedIds) :
    (m.deliver event).shared = m.shared.joinEvent event := by
  unfold deliver handleIncomingEvent
  by_cases hpubkey : event.pubkey = m.pubkey
  · simp only [hrunning, hpubkey, hecho, Bool.false_eq_true, ne_eq, not_true_eq_false, or_self,
      if_false]
    exact shared_receive m event hrunning
  · have hforeign : parseReadStateEvent event m.shared.pubkey = none := if_pos hpubkey
    simp only [hpubkey, ne_eq, not_false_eq_true, or_true, if_true, joinEvent, hforeign]

/-- A batch and the same events one by one: but for the publishable contexts they end in one state,
whatever the events. -/
theorem shared_mergeEvents (m : Manager) (storage : Storage) (events : List Event) (drawn : Text)
    (hecho : ∀ event ∈ events, event ∉ m.recentlyPublishedIds) :
    (m.mergeEvents storage events drawn).1.shared = (events.foldl deliver m).shared := by
  by_cases hdestroyed : m.destroyed = true
  · have hidle : events.foldl deliver m = m := by
      clear hecho
      induction events with
      | nil => rfl
      | cons event events ih =>
          have hdropped : m.deliver event = m := by
            simp only [deliver, handleIncomingEvent, hdestroyed, true_or, if_true]
          simpa only [List.foldl_cons, hdropped] using ih
    simp only [mergeEvents, if_pos hdestroyed, hidle]
  · have hdelivered : ∀ m : Manager, m.destroyed = false →
        (∀ event ∈ events, event ∉ m.recentlyPublishedIds) →
        (events.foldl deliver m).shared = events.foldl joinEvent m.shared := by
      clear hecho hdestroyed
      induction events with
      | nil => exact fun _ _ _ => rfl
      | cons event events ih =>
          intro m hrunning hecho
          have hstep := shared_deliver hrunning (hecho event List.mem_cons_self)
          have hframe := frame_joinEvent m.shared event
          rw [← hstep] at hframe
          have hrest := ih (m.deliver event) (hframe.1.trans hrunning) fun event' h => by
            rw [show (m.deliver event).recentlyPublishedIds = m.recentlyPublishedIds from hframe.2]
            exact hecho event' (List.mem_cons_of_mem event h)
          rw [List.foldl_cons, List.foldl_cons, hrest, hstep]
    rw [hdelivered m (by simpa using hdestroyed) hecho]
    simp only [mergeEvents, if_neg hdestroyed]
    exact (shared_finishMerge _ storage events _ drawn).trans (shared_foldl_mergeEvent events m ∅)

/-! ## The publishable contexts -/

section Publishable

variable {m : Manager} {context : Text}

theorem mem_addPublishable {added : Text} :
    context ∈ (m.addPublishable added).publishableContextIds ↔
      context ∈ m.publishableContextIds ∨ context = added := by
  unfold addPublishable
  split
  next h =>
    constructor
    · exact Or.inl
    · rintro (hmem | rfl)
      · exact hmem
      · exact h
  next => simp

theorem mem_persistLocalState :
    context ∈ m.persistLocalState.publishableContextIds ↔ context ∈ m.publishableContextIds := by
  unfold persistLocalState
  split
  · rfl
  · rfl

theorem mem_mergeContext {createdAt : Nat} {e : Text × Nat} :
    context ∈ (mergeContext createdAt m e).publishableContextIds ↔
      context ∈ m.publishableContextIds ∨
        context = e.1 ∧ valueAt m.effectiveState e.1 < e.2 := by
  simp only [mergeContext, applyRemoteContextTimestamp_eq, decide_eq_true_eq]
  split
  next hlt =>
    rw [mem_addPublishable]
    exact or_congr_right (and_iff_left hlt).symm
  next hle => exact (or_iff_left fun h => hle h.2).symm

theorem mem_foldl_mergeContext {createdAt : Nat} {entries : List (Text × Nat)} :
    context ∈ (entries.foldl (mergeContext createdAt) m).publishableContextIds ↔
      context ∈ m.publishableContextIds ∨
        ∃ ts, (context, ts) ∈ entries ∧ valueAt m.effectiveState context < ts := by
  induction entries generalizing m with
  | nil => simp
  | cons e entries ih =>
      have heff : (mergeContext createdAt m e).effectiveState = join m.effectiveState e.1 e.2 :=
        congrArg Manager.effectiveState (shared_mergeContext m createdAt e)
      rw [List.foldl_cons, ih, mem_mergeContext, heff, valueAt_join]
      rcases e with ⟨key, value⟩
      constructor
      · rintro ((hmem | ⟨rfl, hlt⟩) | ⟨ts, hts, hlt⟩)
        · exact Or.inl hmem
        · exact Or.inr ⟨value, List.mem_cons_self, hlt⟩
        · exact Or.inr ⟨ts, List.mem_cons_of_mem _ hts, (le_max_left _ _).trans_lt hlt⟩
      · rintro (hmem | ⟨ts, hts, hlt⟩)
        · exact Or.inl (Or.inl hmem)
        · rcases List.mem_cons.1 hts with heq | hrest
          · cases heq
            exact Or.inl (Or.inr ⟨rfl, hlt⟩)
          · -- The first entry of the context may be the one that advances it.
            by_cases hfirst : max (valueAt m.effectiveState context)
                (latest [(key, value)] context) < ts
            · exact Or.inr ⟨ts, hrest, hfirst⟩
            · have hle : ts ≤ latest [(key, value)] context :=
                (le_max_iff.1 (not_lt.1 hfirst)).resolve_left (not_le.2 hlt)
              rw [latest_cons, latest_nil, max_bot_right] at hle
              split at hle
              next hkey =>
                subst hkey
                exact Or.inl (Or.inr ⟨rfl, hlt.trans_le hle⟩)
              next => exact absurd (hlt.trans_le hle) not_lt_bot

theorem mem_foldl_receiveContext {createdAt : Nat} {entries : List (Text × Nat)} :
    context ∈ (entries.foldl (receiveContext createdAt) m).publishableContextIds ↔
      context ∈ m.publishableContextIds ∨ context ∈ entries.map Prod.fst := by
  have hstep : ∀ (m : Manager) (e : Text × Nat),
      context ∈ (receiveContext createdAt m e).publishableContextIds ↔
        context ∈ m.publishableContextIds ∨ context = e.1 := by
    intro m e
    simp only [receiveContext, applyRemoteContextTimestamp_eq]
    split
    next => rw [mem_persistLocalState, mem_addPublishable]; rfl
    next h =>
      simp only [Bool.or_eq_true, not_or, decide_eq_true_eq, not_not] at h
      exact (or_iff_left_of_imp fun heq => heq ▸ h.2).symm
  induction entries generalizing m with
  | nil => simp
  | cons e entries ih =>
      calc
        context ∈ ((e :: entries).foldl (receiveContext createdAt) m).publishableContextIds
            ↔ context ∈ (receiveContext createdAt m e).publishableContextIds ∨
                context ∈ entries.map Prod.fst := ih
        _ ↔ context ∈ m.publishableContextIds ∨ context ∈ (e :: entries).map Prod.fst := by
              rw [hstep, List.map_cons, List.mem_cons, or_assoc]

theorem mem_finishMerge {storage : Storage} {events : List Event} {own : OwnBlobs} {drawn : Text} :
    context ∈ (m.finishMerge storage events own drawn).1.publishableContextIds ↔
      context ∈ m.publishableContextIds ∨
        ∃ contexts ∈ own.pairs.map fun e => e.2.1, context ∈ contexts.pairs.map Prod.fst := by
  have hblob : ∀ (m : Manager) (contexts : Record),
      context ∈ (contexts.pairs.foldl (fun m e => m.addPublishable e.1) m).publishableContextIds ↔
        context ∈ m.publishableContextIds ∨ context ∈ contexts.pairs.map Prod.fst := by
    intro m contexts
    induction contexts.pairs generalizing m with
    | nil => simp
    | cons e l ih =>
        rw [List.foldl_cons, ih, mem_addPublishable, List.map_cons, List.mem_cons, or_assoc]
  have hblobs : ∀ (blobs : List Record) (m : Manager),
      context ∈ (blobs.foldl (fun m contexts =>
          contexts.pairs.foldl (fun m e => m.addPublishable e.1) m) m).publishableContextIds ↔
        context ∈ m.publishableContextIds ∨
          ∃ contexts ∈ blobs, context ∈ contexts.pairs.map Prod.fst := by
    intro blobs
    induction blobs with
    | nil => simp
    | cons contexts blobs ih =>
        intro m
        rw [List.foldl_cons, ih, hblob, List.exists_mem_cons_iff, or_assoc]
  unfold finishMerge
  split
  next m' storage' heq =>
    have hm' : m'.publishableContextIds = m.publishableContextIds := by
      split at heq
      · cases heq
        rfl
      · cases heq
        rfl
    dsimp only
    split
    next hnone =>
      rw [hm', hnone]
      simp
    next => rw [hblobs, hm']

end Publishable

/-! ## One event -/

section OneEvent

variable {m : Manager} {event : Event} {parsed : ParsedReadStateEvent}

theorem mergeEvent_of_valid (hvalid : parseReadStateEvent event m.pubkey = some parsed) :
    m.mergeEvent ∅ event =
      (parsed.blob.contexts.pairs.foldl (mergeContext parsed.createdAt)
          (m.seeCreatedAt parsed.createdAt),
        if parsed.blob.clientId = m.clientId then
          (∅ : OwnBlobs).set parsed.dTag (parsed.blob.contexts, parsed.createdAt)
        else ∅) := by
  have hclient : (parsed.blob.contexts.pairs.foldl (mergeContext parsed.createdAt)
      (m.seeCreatedAt parsed.createdAt)).clientId = m.clientId :=
    (fields_of_shared (b := m.joinBlob parsed)
      (shared_foldl m parsed fun m e => shared_mergeContext m parsed.createdAt e)).1
  have hnew : (∅ : OwnBlobs).lookup parsed.dTag = none := rfl
  simp only [mergeEvent, hvalid, hclient, hnew]
  split
  · rfl
  · rfl

theorem mem_mergeEvents_singleton (hrunning : m.destroyed = false)
    (hvalid : parseReadStateEvent event m.pubkey = some parsed) (storage : Storage) (drawn : Text)
    (context : Text) :
    context ∈ (m.mergeEvents storage [event] drawn).1.publishableContextIds ↔
      context ∈ m.publishableContextIds ∨
        (∃ ts, (context, ts) ∈ parsed.blob.contexts.pairs ∧
          valueAt m.effectiveState context < ts) ∨
        parsed.blob.clientId = m.clientId ∧ context ∈ parsed.blob.contexts.pairs.map Prod.fst := by
  simp only [mergeEvents, hrunning, Bool.false_eq_true, if_false, List.foldl_cons, List.foldl_nil,
    mergeEvent_of_valid hvalid, mem_finishMerge, mem_foldl_mergeContext, or_assoc]
  by_cases hown : parsed.blob.clientId = m.clientId
  · have hpairs : ((∅ : OwnBlobs).set parsed.dTag (parsed.blob.contexts, parsed.createdAt)).pairs =
        [(parsed.dTag, parsed.blob.contexts, parsed.createdAt)] := rfl
    rw [if_pos hown, hpairs]
    simp only [List.map_cons, List.map_nil, List.mem_singleton, exists_eq_left, hown, true_and]
    rfl
  · have hpairs : (∅ : OwnBlobs).pairs = [] := rfl
    rw [if_neg hown, hpairs]
    simp only [List.map_nil, List.not_mem_nil, false_and, exists_false, hown]
    rfl

theorem pubkey_of_valid (hvalid : parseReadStateEvent event m.pubkey = some parsed) :
    event.pubkey = m.pubkey := by
  by_contra hne
  have hnone : parseReadStateEvent event m.pubkey = none := if_pos hne
  rw [hnone] at hvalid
  cases hvalid

theorem mem_deliver (hrunning : m.destroyed = false)
    (hvalid : parseReadStateEvent event m.pubkey = some parsed)
    (hecho : event ∉ m.recentlyPublishedIds) (context : Text) :
    context ∈ (m.deliver event).publishableContextIds ↔
      context ∈ m.publishableContextIds ∨ context ∈ parsed.blob.contexts.pairs.map Prod.fst := by
  simp only [deliver, handleIncomingEvent, hrunning, pubkey_of_valid hvalid, hecho,
    Bool.false_eq_true, ne_eq, not_true_eq_false, or_self, if_false, receive, hvalid]
  exact mem_foldl_receiveContext

theorem shared_singleton (storage : Storage) (drawn : Text)
    (hecho : event ∉ m.recentlyPublishedIds) :
    (m.mergeEvents storage [event] drawn).1.shared = (m.deliver event).shared :=
  shared_mergeEvents m storage [event] drawn fun _ h => List.mem_singleton.1 h ▸ hecho

theorem sameMerge_iff_not_silent (hrunning : m.destroyed = false)
    (hvalid : parseReadStateEvent event m.pubkey = some parsed) (storage : Storage) (drawn : Text)
    (hecho : event ∉ m.recentlyPublishedIds) :
    SameMerge (m.mergeEvents storage [event] drawn).1 (m.deliver event) ↔
      ¬ m.Silent parsed.blob := by
  have hshared := shared_singleton storage drawn hecho
  constructor
  · rintro hsame ⟨hother, e, he, hle, hunpublished⟩
    have hlive := (mem_deliver hrunning hvalid hecho e.1).2
      (Or.inr (List.mem_map_of_mem he))
    rcases (mem_mergeEvents_singleton hrunning hvalid storage drawn e.1).1
      ((hsame.publishableContextIds e.1).2 hlive) with hmem | ⟨ts, hts, hlt⟩ | ⟨hown, -⟩
    · exact hunpublished hmem
    · have hone : some ts = some e.2 :=
        (HashMap.mem_pairs_iff.1 hts).symm.trans (HashMap.mem_pairs_iff.1 he)
      rw [Option.some.inj hone] at hlt
      exact absurd hlt (not_lt.2 hle)
    · exact hother hown
  · intro hsilent
    obtain ⟨-, heff, hsource, hmax⟩ := fields_of_shared hshared
    refine ⟨heff, hsource, hmax, fun context => ?_⟩
    rw [mem_mergeEvents_singleton hrunning hvalid, mem_deliver hrunning hvalid hecho]
    constructor
    · rintro (hmem | ⟨ts, hts, -⟩ | ⟨-, hkey⟩)
      · exact Or.inl hmem
      · exact Or.inr (List.mem_map_of_mem hts)
      · exact Or.inr hkey
    · rintro (hmem | hkey)
      · exact Or.inl hmem
      · obtain ⟨⟨key, ts⟩, he, rfl⟩ := List.mem_map.1 hkey
        -- A context that neither advances nor is published would be silent.
        by_cases hown : parsed.blob.clientId = m.clientId
        · exact Or.inr (Or.inr ⟨hown, hkey⟩)
        · by_cases hlt : valueAt m.effectiveState key < ts
          · exact Or.inr (Or.inl ⟨ts, he, hlt⟩)
          · refine Or.inl ?_
            by_contra hunpublished
            exact hsilent ⟨hown, (key, ts), he, not_lt.1 hlt, hunpublished⟩

theorem sameMerge_iff_known (hrunning : m.destroyed = false)
    (hvalid : parseReadStateEvent event m.pubkey = some parsed) (storage : Storage) (drawn : Text)
    (hecho : event ∈ m.recentlyPublishedIds) :
    SameMerge (m.mergeEvents storage [event] drawn).1 (m.deliver event) ↔ m.Known parsed := by
  have hdropped : m.deliver event =
      { m with recentlyPublishedIds := m.recentlyPublishedIds.erase event } := by
    simp only [deliver, handleIncomingEvent, hrunning, pubkey_of_valid hvalid, hecho,
      Bool.false_eq_true, ne_eq, not_true_eq_false, or_self, if_false, if_true]
  have hjoined : (m.mergeEvents storage [event] drawn).1.shared = (m.joinBlob parsed).shared := by
    simp only [mergeEvents, hrunning, Bool.false_eq_true, if_false]
    calc
      (finishMerge _ storage [event] _ drawn).1.shared
          = m.shared.joinEvent event :=
            (shared_finishMerge _ storage [event] _ drawn).trans
              (shared_foldl_mergeEvent [event] m ∅)
      _ = (m.joinBlob parsed).shared := by
            have hshared : parseReadStateEvent event m.shared.pubkey = some parsed := hvalid
            simp only [joinEvent, hshared]
            rfl
  obtain ⟨-, heff, hsource, hmax⟩ := fields_of_shared hjoined
  have hmem := mem_mergeEvents_singleton hrunning hvalid storage drawn
  rw [hdropped]
  constructor
  · intro hsame
    refine
      { createdAt := max_eq_left_iff.1 (hmax.symm.trans hsame.maxFetchedCreatedAt)
        marker := joinAll_eq_self_iff.1 (heff.symm.trans hsame.effectiveState)
        source := fun e he => ?_
        own := fun hown e he => ?_ }
    · exact joinAll_eq_self_iff.1 (hsource.symm.trans hsame.contextSourceCreatedAt)
        (e.1, parsed.createdAt) (List.mem_map_of_mem he)
    · exact (hsame.publishableContextIds e.1).1
        ((hmem e.1).2 (Or.inr (Or.inr ⟨hown, List.mem_map_of_mem he⟩)))
  · intro hknown
    refine
      { effectiveState := heff.trans (joinAll_eq_self_iff.2 hknown.marker)
        contextSourceCreatedAt := hsource.trans (joinAll_eq_self_iff.2 fun e he => ?_)
        maxFetchedCreatedAt := hmax.trans (max_eq_left hknown.createdAt)
        publishableContextIds := fun context => ?_ }
    · obtain ⟨e', he', rfl⟩ := List.mem_map.1 he
      exact hknown.source e' he'
    · rw [hmem]
      refine or_iff_left_of_imp ?_
      rintro (⟨ts, hts, hlt⟩ | ⟨hown, hkey⟩)
      · exact absurd hlt (not_lt.2 (hknown.marker (context, ts) hts))
      · obtain ⟨e, he, rfl⟩ := List.mem_map.1 hkey
        exact hknown.own hown e he

end OneEvent

/-- The states and events for which it does not matter how the event arrives. -/
def PathIndependent (m : Manager) (event : Event) (parsed : ParsedReadStateEvent) : Prop :=
  m.destroyed = true ∨
    if event ∈ m.recentlyPublishedIds then m.Known parsed else ¬ m.Silent parsed.blob

end Manager

/-! ## The result -/

/-- A fetched event and a delivered one leave the same state exactly when the manager is destroyed,
or the event is an echo with nothing new, or it is no echo and repeats no context that the manager
holds unpublished. -/
theorem read_state_paths (m : Manager) (storage : Storage) (event : Event) (drawn : Text)
    (parsed : ParsedReadStateEvent) (hvalid : parseReadStateEvent event m.pubkey = some parsed) :
    Manager.SameMerge (m.mergeEvents storage [event] drawn).1 (m.deliver event) ↔
      m.PathIndependent event parsed := by
  unfold Manager.PathIndependent
  by_cases hdestroyed : m.destroyed = true
  · have hbatch : (m.mergeEvents storage [event] drawn).1 = m := by
      simp only [Manager.mergeEvents, if_pos hdestroyed]
    have hlive : m.deliver event = m := by
      simp only [Manager.deliver, Manager.handleIncomingEvent, hdestroyed, true_or, if_true]
    rw [hbatch, hlive]
    exact iff_of_true ⟨rfl, rfl, rfl, fun _ => Iff.rfl⟩ (Or.inl hdestroyed)
  · have hrunning : m.destroyed = false := by simpa using hdestroyed
    rw [or_iff_right hdestroyed]
    split
    next hecho => exact Manager.sameMerge_iff_known hrunning hvalid storage drawn hecho
    next hecho => exact Manager.sameMerge_iff_not_silent hrunning hvalid storage drawn hecho

/-! ## A seeded context -/

namespace Sample

def storage : Storage := ⟨"a".toList, "slot".toList, [], ∅, [], ∅⟩

/-- A manager that holds a context it has only seeded. -/
def seeded : Manager :=
  (Manager.hydrate "user".toList storage).seedContextRead "channel".toList 5

/-- Another client of the user publishes that context with the same marker. -/
def repeated : Event :=
  { Manager.hydrate "user".toList storage with clientId := "b".toList }.slotEvent "other".toList
    (HashMap.set ∅ "channel".toList 5) 1 0

end Sample

/-- A manager that has not heard of the context takes it from either path. -/
theorem read_state_paths_new :
    Manager.SameMerge
      ((Manager.hydrate "user".toList Sample.storage).mergeEvents Sample.storage
        [Sample.repeated] []).1
      ((Manager.hydrate "user".toList Sample.storage).deliver Sample.repeated) := by
  have hvalid : (parseReadStateEvent Sample.repeated "user".toList).isSome = true := by
    decide
  have hsilent : ∀ parsed ∈ parseReadStateEvent Sample.repeated "user".toList,
      ¬ (Manager.hydrate "user".toList Sample.storage).Silent parsed.blob := by
    decide
  refine (read_state_paths _ Sample.storage Sample.repeated []
    ((parseReadStateEvent Sample.repeated "user".toList).get hvalid)
    (Option.some_get hvalid).symm).2 (Or.inr ?_)
  rw [if_neg (by decide)]
  exact hsilent _ (Option.get_mem hvalid)

theorem read_state_paths_seeded :
    (parseReadStateEvent Sample.repeated Sample.seeded.pubkey).isSome = true ∧
      (Sample.seeded.mergeEvents Sample.storage [Sample.repeated] []).1.publishable.lookup
        "channel".toList = none ∧
      (Sample.seeded.deliver Sample.repeated).publishable.lookup "channel".toList = some 5 ∧
      ¬ Manager.SameMerge (Sample.seeded.mergeEvents Sample.storage [Sample.repeated] []).1
        (Sample.seeded.deliver Sample.repeated) := by
  have hfetched :
      (Sample.seeded.mergeEvents Sample.storage [Sample.repeated] []).1.publishable.lookup
        "channel".toList = none := by decide
  have hdelivered :
      (Sample.seeded.deliver Sample.repeated).publishable.lookup "channel".toList = some 5 := by
    decide
  refine ⟨by decide, hfetched, hdelivered, fun hsame => ?_⟩
  rw [hsame.publishable, hdelivered] at hfetched
  cases hfetched

end ReadState
end Desktop
end Maju
