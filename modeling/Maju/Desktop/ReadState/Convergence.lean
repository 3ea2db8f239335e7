import Maju.Desktop.ReadState.Manager
import Maju.Lib.Run
import Maju.Lib.Slots

/-!
# Convergence — a manager holds the maximum of what it has heard

Any number of managers of one user run on any number of devices.  Every call of every manager is
resumed at any time with any answer, and any event is delivered to any manager at any time, so loss,
repetition and reordering are among the runs.  Each instance records what it has heard: its marks,
its seeds, the markers it was hydrated with, and the blobs it has received, the dropped echoes of
its own events among them.

* `Manager.Joins` — what every operation does to the markers: it joins a list of entries to them;
* `Instance.Inv` — the markers are the join of what was heard, and what the manager has built for
  publication is below its markers;
* `read_state_converges` — the result for every run.
-/

namespace Maju
namespace Desktop
namespace ReadState

open Lib MaxRegister

/-! ## Instances -/

/-- What an instance has heard since it started; `blobs` are the contexts of the valid blobs. -/
structure Heard where
  marks : List (Text × Nat)
  seeds : List (Text × Nat)
  hydrated : List (Text × Nat)
  blobs : List Record

namespace Heard

/-- What the instance did not get from the relay. -/
def own (h : Heard) : List (Text × Nat) := h.marks ++ h.seeds ++ h.hydrated

def received (h : Heard) : List (Text × Nat) := h.blobs.flatMap HashMap.pairs

def entries (h : Heard) : List (Text × Nat) := h.own ++ h.received

/-- The same marks and the same blobs, in whatever order and however often. -/
structure Same (a b : Heard) : Prop where
  own : ∀ e, e ∈ a.own ↔ e ∈ b.own
  blobs : ∀ r, r ∈ a.blobs ↔ r ∈ b.blobs

end Heard

/-- A manager between its start and its restart, with its calls in the order in which they began. -/
structure Instance where
  device : Nat
  manager : Manager
  tasks : List Task
  heard : Heard

/-- A mark, a seed, an event of the live subscription, a call of `fetchAndMerge` or `publish`, an
answer to a call, and `persist` when the timer of the local storage fires or the page is hidden. -/
inductive Act where
  | mark (context : Text) (ts now : Nat)
  | seed (context : Text) (ts : Nat)
  | deliver (event : Event)
  | fetch
  | publish
  | resume (task : Nat) (reply : Reply)
  | persist (now : Nat)
  | destroy (now : Nat)

/-- The contexts of the blob that a manager reads from an event. -/
def blobContexts (m : Manager) (event : Event) : List Record :=
  (parseReadStateEvent event m.pubkey).toList.map fun parsed => parsed.blob.contexts

namespace Instance

def hear (inst : Instance) (blobs : List Record) : Heard :=
  { inst.heard with blobs := blobs ++ inst.heard.blobs }

def hearing (m : Manager) : Task → List Record
  | .incoming event | .merging _ _ (event :: _) _ => if m.destroyed then [] else blobContexts m event
  | _ => []

/-- What a delivered event tells at once: an echo is dropped as something known. -/
def echo (m : Manager) (event : Event) : List Record :=
  if m.destroyed = false ∧ event ∈ m.recentlyPublishedIds then blobContexts m event else []

def act (inst : Instance) (storage : Storage) : Act → Instance × Storage
  | .mark context ts now =>
      ({ inst with
          manager := inst.manager.markContextRead context ts now
          heard :=
            if inst.manager.destroyed then inst.heard
            else { inst.heard with marks := (context, ts) :: inst.heard.marks } }, storage)
  | .seed context ts =>
      ({ inst with
          manager := inst.manager.seedContextRead context ts
          heard :=
            if inst.manager.destroyed then inst.heard
            else { inst.heard with seeds := (context, ts) :: inst.heard.seeds } }, storage)
  | .deliver event =>
      let (manager, task) := inst.manager.handleIncomingEvent event
      ({ inst with
          manager := manager
          tasks := inst.tasks ++ [task]
          heard := inst.hear (echo inst.manager event) }, storage)
  | .fetch => ({ inst with tasks := inst.tasks ++ [.fetching false] }, storage)
  | .publish => ({ inst with tasks := inst.tasks ++ [.fetching true] }, storage)
  | .resume i reply =>
      match inst.tasks[i]? with
      | none => (inst, storage)
      | some task =>
          let (manager, storage, next) := task.resume inst.manager storage reply
          ({ inst with
              manager := manager
              tasks := inst.tasks.set i next
              heard := inst.hear (hearing inst.manager task) }, storage)
  | .persist now =>
      let (manager, storage) := inst.manager.flushLocalState storage now
      ({ inst with manager := manager }, storage)
  | .destroy now =>
      let (manager, storage) := { inst.manager with destroyed := true }.flushLocalState storage now
      ({ inst with manager := manager }, storage)

/-- A manager starts from the local storage. -/
def start (pubkey : Text) (device : Nat) (storage : Storage) : Instance :=
  let manager := Manager.hydrate pubkey storage
  ⟨device, manager, [], ⟨[], [], manager.effectiveState.pairs, []⟩⟩

end Instance

/-! ## The devices of a user -/

structure System where
  pubkey : Text
  devices : List Storage
  instances : List Instance

inductive Input where
  | start (device now : Nat)
  | act (i : Nat) (a : Act)

namespace System

def step (s : System) : Input → System
  | .start device now =>
      match s.devices[device]? with
      | none => s
      | some storage =>
          let inst := Instance.start s.pubkey device storage
          { s with
            devices := s.devices.set device (inst.manager.writeLocalState storage now)
            instances := s.instances ++ [inst] }
  | .act i a =>
      match s.instances[i]? with
      | none => s
      | some inst =>
          match s.devices[inst.device]? with
          | none => s
          | some storage =>
              let (next, storage) := inst.act storage a
              { s with
                devices := s.devices.set inst.device storage
                instances := s.instances.set i next }

def initial (pubkey : Text) (devices : List Storage) : System := ⟨pubkey, devices, []⟩

def run (pubkey : Text) (devices : List Storage) (inputs : List Input) : System :=
  Run.run step (initial pubkey devices) inputs

end System

/-- What is known of every instance in a state: the markers are the maximum of what was heard, and
no step lowers one; two instances that have heard the same have the same markers; an event dropped
as an echo would change no marker if it were read. -/
structure Converges (s : System) : Prop where
  latest : ∀ inst ∈ s.instances, Holds inst.manager.effectiveState (latest inst.heard.entries)
  grows : ∀ (input : Input) (i : Nat) (inst : Instance), s.instances[i]? = some inst →
    ∃ next : Instance, (s.step input).instances[i]? = some next ∧
      ∀ context, valueAt inst.manager.effectiveState context ≤
        valueAt next.manager.effectiveState context
  agree : ∀ a ∈ s.instances, ∀ b ∈ s.instances, a.heard.Same b.heard →
    ∀ context, a.manager.effectiveState.lookup context = b.manager.effectiveState.lookup context
  echo : ∀ inst ∈ s.instances, ∀ event ∈ inst.manager.recentlyPublishedIds, ∀ context,
    (inst.manager.receive event).effectiveState.lookup context =
      inst.manager.effectiveState.lookup context

/-! ## Operations on the markers -/

/-- An operation that joins entries to the markers, and remembers no new event. -/
structure Manager.Joins (m m' : Manager) (entries : List (Text × Nat)) : Prop where
  markers : ∀ f, Holds m.effectiveState f →
    Holds m'.effectiveState fun context => max (f context) (latest entries context)
  pubkey : m'.pubkey = m.pubkey
  ids : m'.recentlyPublishedIds = m.recentlyPublishedIds

namespace Manager

variable {m m' m'' : Manager}

theorem Joins.of_eq (heff : m'.effectiveState = m.effectiveState) (hpubkey : m'.pubkey = m.pubkey)
    (hids : m'.recentlyPublishedIds = m.recentlyPublishedIds) : Joins m m' [] where
  markers f h := by
    rw [heff]
    exact h.congr fun context => by simp
  pubkey := hpubkey
  ids := hids

theorem Joins.trans {a b : List (Text × Nat)} (h : Joins m m' a) (h' : Joins m' m'' b) :
    Joins m m'' (a ++ b) where
  markers f hf := by
    refine (h'.markers _ (h.markers f hf)).congr fun context => ?_
    rw [latest_append, max_assoc]
  pubkey := h'.pubkey.trans h.pubkey
  ids := h'.ids.trans h.ids

theorem Joins.foldl {g : Manager → Text × Nat → Manager} (hg : ∀ m e, Joins m (g m e) [e])
    (entries : List (Text × Nat)) (m : Manager) : Joins m (entries.foldl g m) entries := by
  induction entries generalizing m with
  | nil => exact .of_eq rfl rfl rfl
  | cons e entries ih => exact (hg m e).trans (ih (g m e))

theorem joins_addPublishable (m : Manager) (context : Text) :
    Joins m (m.addPublishable context) [] := by
  unfold addPublishable
  split
  · exact .of_eq rfl rfl rfl
  · exact .of_eq rfl rfl rfl

theorem joins_persistLocalState (m : Manager) : Joins m m.persistLocalState [] := by
  unfold persistLocalState
  split
  · exact .of_eq rfl rfl rfl
  · exact .of_eq rfl rfl rfl

theorem joins_flushLocalState (m : Manager) (storage : Storage) (now : Nat) :
    Joins m (m.flushLocalState storage now).1 [] := by
  unfold flushLocalState
  split
  · exact .of_eq rfl rfl rfl
  · exact .of_eq rfl rfl rfl

theorem Joins.keep {context : Text} {ts : Nat} (h : Joins m m' [])
    (hts : ts ≤ valueAt m.effectiveState context) : Joins m m' [(context, ts)] where
  markers f hf := by
    have hkept : Holds m'.effectiveState f := (h.markers f hf).congr fun _ => by simp
    rw [hf.valueAt_eq] at hts
    exact hkept.keep hts
  pubkey := h.pubkey
  ids := h.ids

theorem Joins.set {context : Text} {ts : Nat} (hts : valueAt m.effectiveState context < ts) :
    Joins m { m with effectiveState := m.effectiveState.set context ts } [(context, ts)] where
  markers f hf := by
    rw [hf.valueAt_eq] at hts
    exact hf.set hts
  pubkey := rfl
  ids := rfl

theorem joins_advanceContext (m : Manager) (context : Text) (ts : Nat) (publishable : Bool)
    (hrunning : m.destroyed = false) :
    Joins m (m.advanceContext context ts publishable) [(context, ts)] := by
  unfold advanceContext
  rw [if_neg (by simp [hrunning])]
  split
  next hle =>
    split
    · exact ((joins_addPublishable m context).trans (joins_persistLocalState _)).keep hle
    · exact (Joins.of_eq rfl rfl rfl).keep hle
  next hlt =>
    have hset := Joins.set (Nat.lt_of_not_le hlt)
    split
    · exact (hset.trans (joins_addPublishable _ context)).trans (joins_persistLocalState _)
    · exact hset.trans (joins_persistLocalState _)

theorem joins_noteSource (m : Manager) (context : Text) (createdAt : Nat) :
    Joins m (m.noteSource context createdAt) [] := by
  unfold noteSource
  split
  · exact .of_eq rfl rfl rfl
  · exact .of_eq rfl rfl rfl

theorem joins_applyRemoteContextTimestamp (m : Manager) (context : Text) (ts createdAt : Nat) :
    Joins m (m.applyRemoteContextTimestamp context ts createdAt).1 [(context, ts)] := by
  unfold applyRemoteContextTimestamp
  dsimp only
  split
  next heq => exact (joins_noteSource m context createdAt).keep (max_eq_left_iff.1 heq)
  next hne =>
    have hlt : valueAt m.effectiveState context < ts := by
      refine Nat.lt_of_not_le fun hle => hne (Nat.max_eq_left hle)
    rw [Nat.max_eq_right hlt.le]
    exact (Joins.set hlt).trans (joins_noteSource _ context createdAt)

theorem joins_mergeContext (createdAt : Nat) (m : Manager) (e : Text × Nat) :
    Joins m (mergeContext createdAt m e) [e] := by
  have hmarker := joins_applyRemoteContextTimestamp m e.1 e.2 createdAt
  unfold mergeContext
  dsimp only
  split
  · exact hmarker.trans (joins_addPublishable _ e.1)
  · exact hmarker

theorem joins_receiveContext (createdAt : Nat) (m : Manager) (e : Text × Nat) :
    Joins m (receiveContext createdAt m e) [e] := by
  have hmarker := joins_applyRemoteContextTimestamp m e.1 e.2 createdAt
  unfold receiveContext
  dsimp only
  split
  · exact (hmarker.trans (joins_addPublishable _ e.1)).trans (joins_persistLocalState _)
  · exact hmarker

theorem joins_mergeEvent (m : Manager) (own : OwnBlobs) (event : Event) :
    Joins m (m.mergeEvent own event).1 ((blobContexts m event).flatMap HashMap.pairs) := by
  unfold mergeEvent blobContexts
  cases parseReadStateEvent event m.pubkey with
  | none => exact .of_eq rfl rfl rfl
  | some parsed =>
      have hseen : Joins m (m.seeCreatedAt parsed.createdAt) [] := .of_eq rfl rfl rfl
      have hjoined := hseen.trans (Joins.foldl (joins_mergeContext parsed.createdAt)
        parsed.blob.contexts.pairs _)
      simp only [Option.toList_some, List.map_cons, List.map_nil, List.flatMap_cons,
        List.flatMap_nil, List.append_nil]
      split
      · split
        · split
          · exact hjoined
          · exact hjoined
        · exact hjoined
      · exact hjoined

theorem joins_receive (m : Manager) (event : Event) :
    Joins m (m.receive event)
      ((if m.destroyed then [] else blobContexts m event).flatMap HashMap.pairs) := by
  unfold receive blobContexts
  cases parseReadStateEvent event m.pubkey with
  | none =>
      have hnone : ((if m.destroyed then [] else
          ((none : Option ParsedReadStateEvent).toList.map fun parsed =>
            parsed.blob.contexts)).flatMap HashMap.pairs) = [] := by
        split <;> rfl
      rw [hnone]
      exact .of_eq rfl rfl rfl
  | some parsed =>
      by_cases hdestroyed : m.destroyed = true
      · simp only [hdestroyed, if_true]
        exact .of_eq rfl rfl rfl
      · have hseen : Joins m (m.seeCreatedAt parsed.createdAt) [] := .of_eq rfl rfl rfl
        have hjoined := hseen.trans (Joins.foldl (joins_receiveContext parsed.createdAt)
          parsed.blob.contexts.pairs _)
        simpa [hdestroyed] using hjoined

theorem joins_finishMerge (m : Manager) (storage : Storage) (events : List Event)
    (own : OwnBlobs) (drawn : Text) : Joins m (m.finishMerge storage events own drawn).1 [] := by
  have hadds : ∀ (m : Manager) (blobs : List Record),
      Joins m (blobs.foldl (fun m contexts =>
        contexts.pairs.foldl (fun m e => m.addPublishable e.1) m) m) [] := fun m blobs =>
    foldl_addPublishable (P := fun m' => Joins m m' [])
      (fun m' context h => h.trans (joins_addPublishable m' context)) blobs (.of_eq rfl rfl rfl)
  have hlast : ∀ (m m' : Manager) (contexts : Record), Joins m m' [] →
      Joins m { m' with lastPublishedContexts := contexts } [] := fun m m' contexts h =>
    h.trans (.of_eq rfl rfl rfl)
  have hslot : Joins m { m with slotId := drawn } [] := .of_eq rfl rfl rfl
  unfold finishMerge
  split
  next m' storage' heq =>
    have hm' : Joins m m' [] := by
      split at heq
      · cases heq
        exact hslot
      · cases heq
        exact .of_eq rfl rfl rfl
    dsimp only
    split
    · exact hm'
    · exact hlast _ _ _ (hm'.trans (hadds m' _))

/-! ## What is built for publication -/

/-- The contexts are not above the markers. -/
def Covers (m : Manager) (contexts : Record) : Prop :=
  ∀ context ts, contexts.lookup context = some ts → ts ≤ valueAt m.effectiveState context

theorem Covers.of_lookup {contexts : Record}
    (h : ∀ context ts, contexts.lookup context = some ts →
      m.effectiveState.lookup context = some ts) : m.Covers contexts := by
  intro context ts hts
  simp [valueAt, h context ts hts]

theorem lookup_of_lookup_publishable {context : Text} {ts : Nat}
    (h : m.publishable.lookup context = some ts) : m.effectiveState.lookup context = some ts := by
  unfold publishable at h
  rw [HashMap.lookup_retain] at h
  exact (Option.filter_eq_some_iff.1 h).1

theorem covers_currentContexts {contexts : Record} (h : m.currentContexts = some contexts) :
    m.Covers contexts := by
  simp only [currentContexts] at h
  split at h
  · rw [← Option.some.inj h]
    refine .of_lookup fun context ts hts => ?_
    rcases mem_of_lookup_assignAll (lookup_of_lookup_trim hts) with hnone | hmem
    · simp at hnone
    · exact lookup_of_lookup_publishable (HashMap.mem_pairs_iff.1 hmem)
  · cases h

theorem covers_splitContextsIntoSlots {drawn : List Text} {slots : List (Text × Record)}
    (h : m.splitContextsIntoSlots drawn = some (slots, m')) :
    m'.effectiveState = m.effectiveState ∧ Joins m m' [] ∧ ∀ s ∈ slots, m.Covers s.2 := by
  simp only [splitContextsIntoSlots] at h
  split at h
  · cases h
  next records hsplit =>
    cases h
    refine ⟨rfl, .of_eq rfl rfl rfl, fun s hs => .of_lookup fun context ts hts => ?_⟩
    have hrecord : s.2 ∈ records := (List.of_mem_zip hs).2
    refine lookup_of_lookup_publishable (HashMap.mem_pairs_iff.1 ?_)
    rcases mem_of_lookup_split hsplit hrecord hts with hchannel | hthread
    · exact (List.mem_filter.1 hchannel).1
    · exact (List.mem_filter.1 hthread).1

theorem Joins.valueAt_le {f : Text → Nat} {entries : List (Text × Nat)} (h : Joins m m' entries)
    (hf : Holds m.effectiveState f) (context : Text) :
    valueAt m.effectiveState context ≤ valueAt m'.effectiveState context := by
  rw [hf.valueAt_eq, (h.markers f hf).valueAt_eq]
  exact Nat.le_max_left _ _

theorem Covers.mono {contexts : Record} (h : m.Covers contexts)
    (hle : ∀ context, valueAt m.effectiveState context ≤ valueAt m'.effectiveState context) :
    m'.Covers contexts :=
  fun context ts hts => (h context ts hts).trans (hle context)

theorem lookup_of_parse_slotEvent {slotId : Text} {contexts : Record} {createdAt nonce : Nat}
    {parsed : ParsedReadStateEvent} {pubkey : Text}
    (h : parseReadStateEvent (m.slotEvent slotId contexts createdAt nonce) pubkey = some parsed)
    {context : Text} {ts : Nat} (hts : parsed.blob.contexts.lookup context = some ts) :
    contexts.lookup context = some ts := by
  simp only [parseReadStateEvent, slotEvent, Option.bind_some, validBlob_blob] at h
  -- the tests before the blob is looked at leave only the last branch
  repeat' split at h
  all_goals try cases h
  next hblob =>
    split at hblob
    · cases hblob
    · split at hblob
      · cases hblob
      · obtain ⟨-, rfl⟩ := Prod.mk.inj (Option.some.inj hblob)
        rcases HashMap.mem_of_lookup_setAll (mem_of_lookup_sanitizeContexts hts) with hnone | hmem
        · simp at hnone
        · obtain ⟨e, he, heq⟩ := List.mem_map.1 hmem
          rcases e with ⟨key, value⟩
          simp only [Prod.mk.injEq, JsEntry.integer.injEq, Int.natCast_inj] at heq
          obtain ⟨rfl, rfl⟩ := heq
          exact HashMap.mem_pairs_iff.1 he

theorem Covers.of_eq {contexts : Record} (h : m.Covers contexts)
    (heff : m'.effectiveState = m.effectiveState) : m'.Covers contexts :=
  h.mono fun _ => by rw [heff]

/-- A remembered event tells nothing that is above the markers. -/
def Echoes (m : Manager) : Prop :=
  ∀ event ∈ m.recentlyPublishedIds, ∀ parsed, parseReadStateEvent event m.pubkey = some parsed →
    m.Covers parsed.blob.contexts

theorem Echoes.of_joins {f : Text → Nat} {entries : List (Text × Nat)} (h : m.Echoes)
    (hjoins : Joins m m' entries) (hf : Holds m.effectiveState f) : m'.Echoes := by
  intro event hevent parsed hparsed
  rw [hjoins.ids] at hevent
  rw [hjoins.pubkey] at hparsed
  exact (h event hevent parsed hparsed).mono (hjoins.valueAt_le hf)

theorem mem_rememberPublishedId {event event' : Event}
    (h : event' ∈ (m.rememberPublishedId event).recentlyPublishedIds) :
    event' ∈ m.recentlyPublishedIds ∨ event' = event := by
  have hids : event' ∈ if event ∈ m.recentlyPublishedIds then m.recentlyPublishedIds
      else m.recentlyPublishedIds ++ [event] := by
    have hcapped : ∀ ids : List Event,
        event' ∈ (if publishedIdMemory < ids.length then ids.tail else ids) → event' ∈ ids := by
      intro ids hids
      split at hids
      · exact List.mem_of_mem_tail hids
      · exact hids
    exact hcapped _ h
  split at hids
  · exact Or.inl hids
  · rcases List.mem_append.1 hids with hold | hnew
    · exact Or.inl hold
    · exact Or.inr (List.mem_singleton.1 hnew)

theorem Echoes.publishOneSlot (h : m.Echoes) {slotId : Text} {contexts : Record}
    (hcontexts : m.Covers contexts) (r : Reply) : (m.publishOneSlot slotId contexts r).1.Echoes := by
  intro event hevent parsed hparsed
  rcases mem_rememberPublishedId hevent with hold | rfl
  · exact h event hold parsed hparsed
  · exact fun context ts hts => hcontexts context ts (lookup_of_parse_slotEvent hparsed hts)

end Manager

/-! ## Resumed calls -/

/-- What a call has built and not sent yet is not above the markers. -/
def Task.Covered (m : Manager) : Task → Prop
  | .deleting _ contexts => m.Covers contexts
  | .publishing rest | .confirming _ _ _ rest => ∀ s ∈ rest, m.Covers s.2
  | _ => True

theorem Task.Covered.mono {m m' : Manager} {task : Task} (h : task.Covered m)
    (hle : ∀ context, valueAt m.effectiveState context ≤ valueAt m'.effectiveState context) :
    task.Covered m' := by
  cases task with
  | deleting rest contexts => exact Manager.Covers.mono h hle
  | publishing rest => exact fun s hs => (h s hs).mono hle
  | confirming slotId contexts event rest => exact fun s hs => (h s hs).mono hle
  | _ => trivial

namespace Manager

variable {m m' : Manager}

theorem covered_publishNext {rest : List (Text × Record)} (h : ∀ s ∈ rest, m.Covers s.2) :
    (publishNext rest).Covered m := by
  unfold publishNext
  split
  · trivial
  · exact h

theorem covered_publishSingle {contexts : Record} (h : m.Covers contexts) :
    (m'.publishSingle contexts).Covered m := by
  unfold publishSingle
  split
  · trivial
  · intro s hs
    rw [List.mem_singleton.1 hs]
    exact h

/-- A call that leaves the markers, and what it has built. -/
structure Builds (m : Manager) (next : Manager × Storage × Task) : Prop where
  markers : next.1.effectiveState = m.effectiveState
  pubkey : next.1.pubkey = m.pubkey
  ids : next.1.recentlyPublishedIds = m.recentlyPublishedIds
  covered : next.2.2.Covered m

theorem builds_publishSplitSlots (m : Manager) (storage : Storage) (drawn : List Text) :
    m.Builds (m.publishSplitSlots storage drawn) := by
  unfold publishSplitSlots
  split
  next => exact ⟨rfl, rfl, rfl, trivial⟩
  next slots split hsplit =>
    obtain ⟨heff, hjoins, hcovers⟩ := covers_splitContextsIntoSlots hsplit
    dsimp only
    split
    · exact ⟨heff, hjoins.pubkey, hjoins.ids, trivial⟩
    · exact ⟨heff, hjoins.pubkey, hjoins.ids, covered_publishNext hcovers⟩

theorem builds_build (m : Manager) (storage : Storage) (r : Reply) :
    m.Builds (m.build storage r) := by
  unfold build
  split
  · exact ⟨rfl, rfl, rfl, trivial⟩
  · have hflush : (m.flushLocalState storage r.now).1.effectiveState = m.effectiveState ∧
        (m.flushLocalState storage r.now).1.pubkey = m.pubkey ∧
        (m.flushLocalState storage r.now).1.recentlyPublishedIds = m.recentlyPublishedIds := by
      unfold flushLocalState
      split <;> exact ⟨rfl, rfl, rfl⟩
    revert hflush
    rcases m.flushLocalState storage r.now with ⟨flushed, storage'⟩
    rintro ⟨heff, hpubkey, hids⟩
    dsimp only at heff hpubkey hids ⊢
    split
    next =>
      have hsplit := builds_publishSplitSlots flushed storage' r.drawn
      refine ⟨hsplit.markers.trans heff, hsplit.pubkey.trans hpubkey, hsplit.ids.trans hids, ?_⟩
      exact hsplit.covered.mono fun context => by rw [heff]
    next contexts hcontexts =>
      have hcovers : m.Covers contexts := (covers_currentContexts hcontexts).of_eq heff.symm
      split
      · exact ⟨heff, hpubkey, hids, covered_publishSingle hcovers⟩
      · exact ⟨heff, hpubkey, hids, hcovers⟩

theorem builds_afterDelete (storage : Storage) (rest : List Text) {contexts : Record}
    (h : m.Covers contexts) : m.Builds (m.afterDelete storage rest contexts) := by
  unfold afterDelete
  split
  · exact ⟨rfl, rfl, rfl, covered_publishSingle h⟩
  · exact ⟨rfl, rfl, rfl, h⟩

end Manager

/-- What a resumed call does: it joins what it hears, and what it builds and remembers is not above
the markers. -/
structure Resumes (m : Manager) (entries : List (Text × Nat)) (next : Manager × Storage × Task) :
    Prop where
  markers : ∀ f, Holds m.effectiveState f →
    Holds next.1.effectiveState fun context => max (f context) (latest entries context)
  pubkey : next.1.pubkey = m.pubkey
  echoes : next.1.Echoes
  covered : next.2.2.Covered next.1

namespace Resumes

variable {m m' : Manager} {f : Text → Nat} {entries : List (Text × Nat)}

theorem of_joins {storage : Storage} {task : Task} (hf : Holds m.effectiveState f)
    (hechoes : m.Echoes) (hjoins : m.Joins m' entries) (hcovered : task.Covered m') :
    Resumes m entries (m', storage, task) where
  markers := hjoins.markers
  pubkey := hjoins.pubkey
  echoes := hechoes.of_joins hjoins hf
  covered := hcovered

theorem of_builds {next : Manager × Storage × Task} (hf : Holds m.effectiveState f)
    (hechoes : m.Echoes) (hjoins : m.Joins m' entries) (hbuilds : m'.Builds next) :
    Resumes m entries next := by
  have hnext : m'.Joins next.1 [] := .of_eq hbuilds.markers hbuilds.pubkey hbuilds.ids
  have hall : m.Joins next.1 entries := by
    have htrans := hjoins.trans hnext
    rwa [List.append_nil] at htrans
  refine ⟨hall.markers, hall.pubkey, hechoes.of_joins hall hf, hbuilds.covered.mono fun context => ?_⟩
  rw [hbuilds.markers]

end Resumes

theorem resumes_resume {m : Manager} {f : Text → Nat} (hf : Holds m.effectiveState f)
    (hechoes : m.Echoes) {task : Task} (htask : task.Covered m) (storage : Storage) (r : Reply) :
    Resumes m ((Instance.hearing m task).flatMap HashMap.pairs) (task.resume m storage r) := by
  have hrefl : m.Joins m [] := .of_eq rfl rfl rfl
  cases task with
  | incoming event => exact .of_joins hf hechoes (m.joins_receive event) trivial
  | fetching cycle =>
      simp only [Task.resume]
      split
      · split
        · exact .of_joins hf hechoes hrefl trivial
        · exact .of_joins hf hechoes hrefl trivial
      · split
        · exact .of_builds hf hechoes hrefl (m.builds_build storage r)
        · exact .of_joins hf hechoes hrefl trivial
  | merging cycle events rest own =>
      cases rest with
      | nil =>
          simp only [Task.resume]
          split
          · exact .of_joins hf hechoes hrefl trivial
          · have hmerge := m.joins_finishMerge storage events own (r.drawn.headD [])
            have hpersist := hmerge.trans (Manager.joins_persistLocalState _)
            split
            · exact .of_builds hf hechoes hpersist (Manager.builds_build _ _ _)
            · exact .of_joins hf hechoes hpersist trivial
      | cons event rest =>
          simp only [Task.resume, Instance.hearing]
          split
          next hdestroyed => exact .of_joins hf hechoes hrefl trivial
          next hrunning => exact .of_joins hf hechoes (m.joins_mergeEvent own event) trivial
  | deleting rest contexts =>
      cases rest with
      | nil => exact .of_builds hf hechoes hrefl (Manager.builds_afterDelete storage [] htask)
      | cons slot rest =>
          exact .of_builds hf hechoes hrefl (Manager.builds_afterDelete storage rest htask)
  | publishing rest =>
      cases rest with
      | nil => exact .of_joins hf hechoes hrefl trivial
      | cons first rest =>
          rcases first with ⟨slotId, contexts⟩
          have hrest : ∀ s ∈ rest, m.Covers s.2 := fun s hs => htask s (List.mem_cons_of_mem _ hs)
          simp only [Task.resume]
          split
          · refine ⟨fun g hg => hg.congr fun context => ?_, rfl,
              hechoes.publishOneSlot (htask _ List.mem_cons_self) r, hrest⟩
            simp [Instance.hearing]
          · exact .of_joins hf hechoes hrefl (Manager.covered_publishNext hrest)
  | confirming slotId contexts event rest =>
      simp only [Task.resume]
      have hconfirm : m.Joins (if r.ok then m.confirm contexts event else m) [] := by
        split
        · exact .of_eq rfl rfl rfl
        · exact hrefl
      refine .of_joins hf hechoes hconfirm (Manager.covered_publishNext fun s hs => ?_)
      exact (htask s hs).mono (hconfirm.valueAt_le hf)
  | finished => exact .of_joins hf hechoes hrefl trivial

/-! ## Instances -/

structure Instance.Inv (pubkey : Text) (inst : Instance) : Prop where
  markers : Holds inst.manager.effectiveState (latest inst.heard.entries)
  pubkey : inst.manager.pubkey = pubkey
  echoes : inst.manager.Echoes
  tasks : ∀ task ∈ inst.tasks, task.Covered inst.manager

namespace Instance.Inv

variable {pubkey : Text} {inst next : Instance}

theorem start (pubkey : Text) (device : Nat) (storage : Storage) :
    Inv pubkey (Instance.start pubkey device storage) where
  markers := by
    have hpos : ∀ context ts,
        (Manager.hydrate pubkey storage).effectiveState.lookup context = some ts → ts ≠ ⊥ := by
      intro context ts hts
      simp only [Manager.hydrate, HashMap.lookup_retain] at hts
      have hlt : 0 < ts := by simpa using (Option.filter_eq_some_iff.1 hts).2
      exact hlt.ne'
    refine (Holds.of_pairs hpos).congr fun context => ?_
    simp [Instance.start, Heard.entries, Heard.own, Heard.received]
  pubkey := rfl
  echoes event hevent := absurd hevent List.not_mem_nil
  tasks task htask := absurd htask List.not_mem_nil

theorem of_markers (h : Inv pubkey inst) {entries : List (Text × Nat)}
    (hmarkers : ∀ f, Holds inst.manager.effectiveState f →
      Holds next.manager.effectiveState fun context => max (f context) (latest entries context))
    (hheard : ∀ context, latest next.heard.entries context =
      max (latest inst.heard.entries context) (latest entries context))
    (hpubkey : next.manager.pubkey = inst.manager.pubkey) (hechoes : next.manager.Echoes)
    (htasks : ∀ task ∈ next.tasks, task ∈ inst.tasks ∨ task.Covered next.manager) :
    Inv pubkey next where
  markers := (hmarkers _ h.markers).congr fun context => (hheard context).symm
  pubkey := hpubkey.trans h.pubkey
  echoes := hechoes
  tasks task htask := by
    rcases htasks task htask with hold | hnew
    · refine (h.tasks task hold).mono fun context => ?_
      rw [h.markers.valueAt_eq, (hmarkers _ h.markers).valueAt_eq]
      exact Nat.le_max_left _ _
    · exact hnew

theorem of_joins (h : Inv pubkey inst) {entries : List (Text × Nat)}
    (hjoins : inst.manager.Joins next.manager entries)
    (hheard : ∀ context, latest next.heard.entries context =
      max (latest inst.heard.entries context) (latest entries context))
    (htasks : ∀ task ∈ next.tasks, task ∈ inst.tasks ∨ task.Covered next.manager) :
    Inv pubkey next :=
  h.of_markers hjoins.markers hheard hjoins.pubkey (h.echoes.of_joins hjoins h.markers) htasks

theorem of_frame (h : Inv pubkey inst) (hjoins : inst.manager.Joins next.manager [])
    (hheard : next.heard = inst.heard)
    (htasks : ∀ task ∈ next.tasks, task ∈ inst.tasks ∨ task.Covered next.manager) :
    Inv pubkey next :=
  h.of_joins hjoins (fun context => by simp [hheard]) htasks

end Instance.Inv

theorem latest_hear (inst : Instance) (blobs : List Record) (context : Text) :
    latest (inst.hear blobs).entries context =
      max (latest inst.heard.entries context) (latest (blobs.flatMap HashMap.pairs) context) := by
  have hentries : (inst.hear blobs).entries =
      inst.heard.own ++ (blobs.flatMap HashMap.pairs ++ inst.heard.received) := by
    simp [Heard.entries, Heard.own, Heard.received, Instance.hear]
  rw [hentries, latest_append, latest_append, max_comm (latest (blobs.flatMap _) context),
    ← max_assoc, ← latest_append]
  rfl

theorem latest_mark (h : Heard) (context : Text) (ts : Nat) (c : Text) :
    latest { h with marks := (context, ts) :: h.marks }.entries c =
      max (latest h.entries c) (latest [(context, ts)] c) := by
  have hentries : { h with marks := (context, ts) :: h.marks }.entries =
      [(context, ts)] ++ h.entries := rfl
  rw [hentries, latest_append, max_comm]

theorem latest_seed (h : Heard) (context : Text) (ts : Nat) (c : Text) :
    latest { h with seeds := (context, ts) :: h.seeds }.entries c =
      max (latest h.entries c) (latest [(context, ts)] c) := by
  have hperm : ∀ e, e ∈ { h with seeds := (context, ts) :: h.seeds }.entries ↔
      e ∈ [(context, ts)] ++ h.entries := by
    intro e
    simp only [Heard.entries, Heard.own, Heard.received, List.mem_append, List.mem_cons,
      List.not_mem_nil, or_false]
    tauto
  rw [latest_congr hperm, latest_append, max_comm]

theorem covered_append {m : Manager} {tasks : List Task} {task' : Task} (h : task'.Covered m) :
    ∀ task ∈ tasks ++ [task'], task ∈ tasks ∨ task.Covered m := by
  intro task htask
  rcases List.mem_append.1 htask with hold | hnew
  · exact Or.inl hold
  · rw [List.mem_singleton.1 hnew]
    exact Or.inr h

theorem latest_echo {pubkey : Text} {inst : Instance} (h : inst.Inv pubkey) (event : Event)
    (context : Text) :
    latest ((Instance.echo inst.manager event).flatMap HashMap.pairs) context ≤
      latest inst.heard.entries context := by
  rw [← h.markers.valueAt_eq]
  refine latest_le_iff.2 fun ts hts => ?_
  unfold Instance.echo at hts
  split at hts
  next hdropped =>
    obtain ⟨contexts, hcontexts, hpair⟩ := List.mem_flatMap.1 hts
    obtain ⟨parsed, hparsed, rfl⟩ := List.mem_map.1 hcontexts
    refine h.echoes event hdropped.2 parsed (Option.mem_toList.1 hparsed) context ts ?_
    exact HashMap.mem_pairs_iff.1 hpair
  next => simp at hts

namespace Instance.Inv

variable {pubkey : Text} {inst : Instance}

theorem deliver (h : Inv pubkey inst) (storage : Storage) (event : Event) :
    Inv pubkey (inst.act storage (.deliver event)).1 := by
  have hheard : ∀ context, latest (inst.hear (Instance.echo inst.manager event)).entries context =
      max (latest inst.heard.entries context) (latest ([] : List (Text × Nat)) context) := by
    intro context
    rw [latest_hear, Nat.max_eq_left (latest_echo h event context)]
    simp
  simp only [Instance.act, Manager.handleIncomingEvent]
  split
  · exact h.of_joins (.of_eq rfl rfl rfl) hheard (covered_append trivial)
  · split
    · refine h.of_markers (fun f hf => hf.congr fun context => by simp) hheard rfl ?_
        (covered_append trivial)
      exact fun e he => h.echoes e (List.mem_of_mem_erase he)
    · exact h.of_joins (.of_eq rfl rfl rfl) hheard (covered_append trivial)

theorem resume (h : Inv pubkey inst) (storage : Storage) (i : Nat) (reply : Reply) :
    Inv pubkey (inst.act storage (.resume i reply)).1 := by
  simp only [Instance.act]
  split
  next => exact h
  next task htask =>
    have hresumes := resumes_resume h.markers h.echoes
      (h.tasks task (List.mem_of_getElem? htask)) storage reply
    refine h.of_markers hresumes.markers (latest_hear inst _) hresumes.pubkey hresumes.echoes ?_
    intro task' htask'
    rcases List.mem_or_eq_of_mem_set htask' with hold | rfl
    · exact Or.inl hold
    · exact Or.inr hresumes.covered

theorem advance (h : Inv pubkey inst) (context : Text) (ts : Nat) (publishable : Bool)
    {next : Instance}
    (hmanager : (inst.manager.advanceContext context ts publishable).Joins next.manager [])
    (hheard : next.heard = inst.heard ∧ inst.manager.destroyed = true ∨
      inst.manager.destroyed = false ∧ ∀ c, latest next.heard.entries c =
        max (latest inst.heard.entries c) (latest [(context, ts)] c))
    (htasks : next.tasks = inst.tasks) : Inv pubkey next := by
  rcases hheard with ⟨hsame, hdestroyed⟩ | ⟨hrunning, hheard⟩
  · have hkept : inst.manager.advanceContext context ts publishable = inst.manager := by
      simp [Manager.advanceContext, hdestroyed]
    rw [hkept] at hmanager
    exact h.of_frame hmanager hsame fun task htask => Or.inl (htasks ▸ htask)
  · have hjoins := (inst.manager.joins_advanceContext context ts publishable hrunning).trans hmanager
    exact h.of_joins hjoins hheard fun task htask => Or.inl (htasks ▸ htask)

theorem act (h : Inv pubkey inst) (storage : Storage) (a : Act) :
    Inv pubkey (inst.act storage a).1 := by
  cases a with
  | mark context ts now =>
      refine h.advance context ts true (.of_eq rfl rfl rfl) ?_ rfl
      by_cases hdestroyed : inst.manager.destroyed = true
      · exact Or.inl ⟨by simp [Instance.act, hdestroyed], hdestroyed⟩
      · refine Or.inr ⟨by simpa using hdestroyed, fun c => ?_⟩
        simp only [Instance.act, hdestroyed]
        exact latest_mark inst.heard context ts c
  | seed context ts =>
      refine h.advance context ts false (.of_eq rfl rfl rfl) ?_ rfl
      by_cases hdestroyed : inst.manager.destroyed = true
      · exact Or.inl ⟨by simp [Instance.act, hdestroyed], hdestroyed⟩
      · refine Or.inr ⟨by simpa using hdestroyed, fun c => ?_⟩
        simp only [Instance.act, hdestroyed]
        exact latest_seed inst.heard context ts c
  | deliver event => exact h.deliver storage event
  | fetch => exact h.of_frame (.of_eq rfl rfl rfl) rfl (covered_append trivial)
  | publish => exact h.of_frame (.of_eq rfl rfl rfl) rfl (covered_append trivial)
  | resume i reply => exact h.resume storage i reply
  | persist now =>
      exact h.of_frame (inst.manager.joins_flushLocalState storage now) rfl fun _ => Or.inl
  | destroy now =>
      have hdestroyed : inst.manager.Joins { inst.manager with destroyed := true } [] :=
        .of_eq rfl rfl rfl
      have hflush := Manager.joins_flushLocalState { inst.manager with destroyed := true } storage now
      exact h.of_frame (hdestroyed.trans hflush) rfl fun _ => Or.inl

theorem valueAt_le_act (h : Inv pubkey inst) (storage : Storage) (a : Act) (context : Text) :
    valueAt inst.manager.effectiveState context ≤
      valueAt (inst.act storage a).1.manager.effectiveState context := by
  have hnext := h.act storage a
  rw [h.markers.valueAt_eq, hnext.markers.valueAt_eq]
  refine latest_le_iff.2 fun ts hts => le_latest ?_
  -- what was heard is not forgotten
  have hhear : ∀ blobs, (context, ts) ∈ (inst.hear blobs).entries := by
    intro blobs
    simp only [Heard.entries, Heard.own, Heard.received, Instance.hear, List.flatMap_append,
      List.mem_append] at hts ⊢
    tauto
  cases a with
  | mark c t now =>
      simp only [Instance.act]
      split
      · exact hts
      · exact List.mem_cons_of_mem (c, t) hts
  | seed c t =>
      simp only [Instance.act]
      split
      · exact hts
      · simp only [Heard.entries, Heard.own, List.mem_append, List.mem_cons] at hts ⊢
        tauto
  | deliver event => exact hhear _
  | resume i reply =>
      simp only [Instance.act]
      split
      · exact hts
      · exact hhear _
  | fetch => exact hts
  | publish => exact hts
  | persist now => exact hts
  | destroy now => exact hts

end Instance.Inv

/-! ## Every run -/

def System.Inv (s : System) : Prop := ∀ inst ∈ s.instances, inst.Inv s.pubkey

namespace System.Inv

variable {s : System}

theorem step (h : Inv s) (input : Input) : Inv (s.step input) := by
  cases input with
  | start device now =>
      simp only [System.step]
      split
      · exact h
      · intro inst hinst
        rcases List.mem_append.1 hinst with hold | hnew
        · exact h inst hold
        · rw [List.mem_singleton.1 hnew]
          exact .start s.pubkey device _
  | act i a =>
      simp only [System.step]
      split
      · exact h
      next inst hinst =>
        split
        · exact h
        next storage _ =>
          intro next hnext
          rcases List.mem_or_eq_of_mem_set hnext with hold | rfl
          · exact h next hold
          · exact (h inst (List.mem_of_getElem? hinst)).act storage a

theorem grows (h : Inv s) (input : Input) {i : Nat} {inst : Instance}
    (hinst : s.instances[i]? = some inst) :
    ∃ next : Instance, (s.step input).instances[i]? = some next ∧
      ∀ context, valueAt inst.manager.effectiveState context ≤
        valueAt next.manager.effectiveState context := by
  have hlt : i < s.instances.length := (List.getElem?_eq_some_iff.1 hinst).1
  cases input with
  | start device now =>
      refine ⟨inst, ?_, fun context => Nat.le_refl _⟩
      simp only [System.step]
      split
      · exact hinst
      · rw [List.getElem?_append_left hlt]
        exact hinst
  | act j a =>
      simp only [System.step]
      split
      · exact ⟨inst, hinst, fun context => Nat.le_refl _⟩
      next other hother =>
        split
        · exact ⟨inst, hinst, fun context => Nat.le_refl _⟩
        next storage _ =>
          by_cases hij : j = i
          · subst hij
            obtain rfl : other = inst := Option.some.inj (hother.symm.trans hinst)
            refine ⟨(other.act storage a).1, List.getElem?_set_self hlt, ?_⟩
            exact (h other (List.mem_of_getElem? hinst)).valueAt_le_act storage a
          · refine ⟨inst, ?_, fun context => Nat.le_refl _⟩
            rw [List.getElem?_set_ne hij]
            exact hinst

theorem echo (h : Inv s) {inst : Instance} (hinst : inst ∈ s.instances) {event : Event}
    (hevent : event ∈ inst.manager.recentlyPublishedIds) (context : Text) :
    (inst.manager.receive event).effectiveState.lookup context =
      inst.manager.effectiveState.lookup context := by
  have hinv := h inst hinst
  have hread := (inst.manager.joins_receive event).markers _ hinv.markers
  have hnothing : latest ((if inst.manager.destroyed then [] else
      blobContexts inst.manager event).flatMap HashMap.pairs) context ≤
        latest inst.heard.entries context := by
    rw [← hinv.markers.valueAt_eq]
    refine latest_le_iff.2 fun ts hts => ?_
    split at hts
    · simp at hts
    · obtain ⟨contexts, hcontexts, hpair⟩ := List.mem_flatMap.1 hts
      obtain ⟨parsed, hparsed, rfl⟩ := List.mem_map.1 hcontexts
      refine hinv.echoes event hevent parsed (Option.mem_toList.1 hparsed) context ts ?_
      exact HashMap.mem_pairs_iff.1 hpair
  exact hread.lookup_eq hinv.markers (Nat.max_eq_left hnothing)

theorem agree (h : Inv s) {a b : Instance} (ha : a ∈ s.instances) (hb : b ∈ s.instances)
    (hsame : a.heard.Same b.heard) (context : Text) :
    a.manager.effectiveState.lookup context = b.manager.effectiveState.lookup context := by
  have hentries : ∀ e, e ∈ a.heard.entries ↔ e ∈ b.heard.entries := by
    intro e
    simp only [Heard.entries, Heard.received, List.mem_append, List.mem_flatMap, hsame.own,
      hsame.blobs]
  exact (h a ha).markers.lookup_eq (h b hb).markers (latest_congr hentries context)

end System.Inv

/-- In every state of every run, from any local storages, the managers converge. -/
theorem read_state_converges (pubkey : Text) (devices : List Storage) (inputs : List Input) :
    Converges (System.run pubkey devices inputs) := by
  have hinv : System.Inv (System.run pubkey devices inputs) :=
    Run.invariant_of_step System.Inv (fun _ input h => h.step input)
      (fun inst hinst => absurd hinst List.not_mem_nil) inputs
  exact
    { latest := fun inst hinst => (hinv inst hinst).markers
      grows := fun input i inst hinst => hinv.grows input hinst
      agree := fun a ha b hb hsame => hinv.agree ha hb hsame
      echo := fun inst hinst event hevent => hinv.echo hinst hevent }

end ReadState
end Desktop
end Maju
