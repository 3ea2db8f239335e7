import Maju.Lib.Run
import Maju.Db.Replaceable

/-!
# Heads — the live head of a coordinate over all its writes

Writers of one coordinate run one after another.  Each call reports the event that it inserted, or
nothing.

* `Headed` — the one live row is the newest of the events reported so far;
* `Performs` — what is used of a writer; both writers of the store have it;
* `Marked` — read state: the live row is at the watermark, which never moves back;
* `replaceable_heads` — all of it, over every list of calls.
-/

namespace Maju
namespace Db
namespace Replaceable

open Lib Core

/-! ## Events by their times -/

/-- The time of the event is one that the time column holds. -/
def Fits (event : Event) : Prop := (event.createdAt.toNat : Int) ≤ maxTimestamp

instance Fits.decidable (event : Event) : Decidable (Fits event) :=
  inferInstanceAs (Decidable ((event.createdAt.toNat : Int) ≤ maxTimestamp))

def eventPosition (event : Event) : Position := ((event.createdAt.toNat : Int), event.id)

theorem storedAt_of_fits {event : Event} (h : Fits event) :
    storedAt event = .ok (event.createdAt.toNat : Int) := by
  unfold Fits maxTimestamp at h
  have hsmall : event.createdAt.toNat < 2 ^ 63 := by omega
  unfold storedAt asI64 fromTimestamp minTimestamp maxTimestamp
  rw [if_pos hsmall, if_pos (by omega)]

theorem minTimestamptz_le_createdAt (event : Event) :
    minTimestamptz ≤ (event.createdAt.toNat : Int) := by
  unfold minTimestamptz
  omega

/-! ## Logs -/

/-- The store and the events that calls have reported as inserted. -/
structure Log where
  store : Store
  inserted : List Event

section Writers

variable {W : Type} (exec : Store → W → Option Event × Store)

def Log.step (log : Log) (w : W) : Log :=
  ⟨(exec log.store w).2, log.inserted ++ (exec log.store w).1.toList⟩

/-- What a call does to the rows of a target and to the watermarks of `marks`, of which each is of
the community. -/
structure Performs (target : Row → Bool) (communityId : CommunityId) (eventOf : W → Event)
    (admitted : W → Prop) : Prop where
  outcome : ∀ s w, admitted w →
    ((exec s w).1 = none ∧ (exec s w).2 = s) ∨
      ((exec s w).1 = some (eventOf w) ∧ ∃ row : Row, row.event = eventOf w ∧
        row.position = eventPosition (eventOf w) ∧ row.communityId = communityId ∧
        Replaces target s (exec s w).2 row)

/-- The live row is the newest of the events reported as inserted. -/
def Headed (target : Row → Bool) (log : Log) : Prop :=
  (log.inserted = [] ∧ log.store.live target = []) ∨
    ∃ row, log.store.live target = [row] ∧ row.event ∈ log.inserted ∧
      row.position = eventPosition row.event ∧
      ∀ event ∈ log.inserted, event = row.event ∨
        After (eventPosition row.event) (eventPosition event)

variable {exec} {target : Row → Bool} {communityId : CommunityId} {eventOf : W → Event}
  {admitted : W → Prop} {log : Log}

theorem Headed.step (hexec : Performs exec target communityId eventOf admitted) {w : W}
    (hw : admitted w) (hlog : Headed target log) : Headed target (log.step exec w) := by
  rcases hexec.outcome log.store w hw with ⟨hnone, hsame⟩ | ⟨hsome, row, hevent, hposition, _,
    hreplaces⟩
  · have hstep : log.step exec w = log := by
      simp [Log.step, hnone, hsame]
    rw [hstep]
    exact hlog
  · refine Or.inr ⟨row, hreplaces.live, ?_, ?_, ?_⟩
    · simp [Log.step, hsome, hevent]
    · rw [hposition, hevent]
    · intro event hmem
      simp only [Log.step, hsome, Option.toList_some, List.mem_append, List.mem_singleton] at hmem
      rcases hmem with hold | hnew
      · -- older than the head that was replaced, or that head itself
        rcases hlog with ⟨hempty, _⟩ | ⟨head, hlive, _, hhead, hnewest⟩
        · rw [hempty] at hold
          cases hold
        · have hafter : After (eventPosition row.event) (eventPosition head.event) := by
            rw [← hhead, hevent, ← hposition]
            exact hreplaces.newer head (by rw [hlive]; exact List.mem_cons_self)
          rcases hnewest event hold with rfl | hbefore
          · exact Or.inr hafter
          · exact Or.inr (hafter.trans hbefore)
      · exact Or.inl (hnew.trans hevent.symm)

/-! ## Convergence -/

/-- What is known of the store after calls that wrote events of a set, from a store without them:
the live row is the newest, and every row and watermark that was added is that of an event
reported. -/
structure Written (target : Row → Bool) (communityId : CommunityId) (marks : Coordinate → Prop)
    (events : List Event) (log : Log) : Prop where
  headed : Headed target log
  inserted : ∀ event ∈ log.inserted, event ∈ events
  rows : ∀ r ∈ log.store.rows, r.communityId = communityId → ∀ event ∈ events,
    r.event.id = event.id → event ∈ log.inserted
  marks : ∀ c watermark, marks c → log.store.watermarks.lookup c = some watermark →
    ∃ event ∈ log.inserted, watermark = eventPosition event

variable {marks : Coordinate → Prop} {events : List Event}

/-- No row or watermark of the store is of an event of the set. -/
structure Fresh (target : Row → Bool) (communityId : CommunityId) (marks : Coordinate → Prop)
    (events : List Event) (s : Store) : Prop where
  live : s.live target = []
  rows : ∀ r ∈ s.rows, r.communityId = communityId → ∀ event ∈ events, r.event.id ≠ event.id
  marks : ∀ c, marks c → s.watermarks.lookup c = none

theorem Fresh.written {s : Store} (hs : Fresh target communityId marks events s) :
    Written target communityId marks events ⟨s, []⟩ := by
  refine ⟨Or.inl ⟨rfl, hs.live⟩, fun _ h => (nomatch h), ?_, ?_⟩
  · intro r hr hcommunity event hevent hid
    exact absurd hid (hs.rows r hr hcommunity event hevent)
  · intro c watermark hc hwatermark
    rw [hs.marks c hc] at hwatermark
    cases hwatermark

theorem Written.step (hexec : Performs exec target communityId eventOf admitted)
    (hids : ∀ a ∈ events, ∀ b ∈ events, a.id = b.id → a = b) {w : W} (hw : admitted w)
    (hevent : eventOf w ∈ events) (hlog : Written target communityId marks events log) :
    Written target communityId marks events (log.step exec w) := by
  have hheaded := hlog.headed.step hexec hw
  rcases hexec.outcome log.store w hw with ⟨hnone, hsame⟩ | ⟨hsome, row, hrow, hposition, _,
    hreplaces⟩
  · have hstep : log.step exec w = log := by
      simp [Log.step, hnone, hsame]
    rw [hstep]
    exact hlog
  have hinserted : ∀ event, event ∈ (log.step exec w).inserted ↔
      event ∈ log.inserted ∨ event = eventOf w := by
    intro event
    simp [Log.step, hsome]
  refine ⟨hheaded, ?_, ?_, ?_⟩
  · intro event hmem
    rcases (hinserted event).1 hmem with hold | rfl
    · exact hlog.inserted event hold
    · exact hevent
  · intro r hr hcommunity event hmem hid
    refine (hinserted event).2 ?_
    rcases hreplaces.keys r hr with rfl | ⟨r', hr', hkey⟩
    · rw [hrow] at hid
      exact Or.inr (hids event hmem _ hevent hid.symm)
    · refine Or.inl (hlog.rows r' hr' ?_ event hmem ?_)
      · exact (congrArg Prod.fst hkey).trans hcommunity
      · exact (congrArg (fun k => k.2.2) hkey).trans hid
  · intro c watermark hc hwatermark
    change (exec log.store w).2.watermarks.lookup c = some watermark at hwatermark
    rw [hreplaces.watermarks, marked] at hwatermark
    split_ifs at hwatermark
    · cases hwatermark
      exact ⟨eventOf w, (hinserted _).2 (Or.inr rfl), hposition⟩
    · obtain ⟨event, hmem, heq⟩ := hlog.marks c watermark hc hwatermark
      exact ⟨event, (hinserted event).2 (Or.inl hmem), heq⟩

theorem Written.run (hexec : Performs exec target communityId eventOf admitted)
    (hids : ∀ a ∈ events, ∀ b ∈ events, a.id = b.id → a = b) {calls : List W}
    (hcalls : ∀ w ∈ calls, admitted w ∧ eventOf w ∈ events)
    (hlog : Written target communityId marks events log) :
    Written target communityId marks events (Run.run (Log.step exec) log calls) :=
  Run.invariant (P := fun _ w => admitted w ∧ eventOf w ∈ events)
    (Written target communityId marks events)
    (fun _ _ hwritten hw => hwritten.step hexec hids hw.1 hw.2) hlog
    (Run.along_of_forall_mem fun w hw _ => hcalls w hw)

theorem mem_inserted_run {event : Event} {log : Log} (calls : List W)
    (h : event ∈ log.inserted) : event ∈ (Run.run (Log.step exec) log calls).inserted :=
  Run.invariant_of_step (fun log : Log => event ∈ log.inserted)
    (fun _ _ hmem => List.mem_append_left _ hmem) h calls

theorem Written.older (hids : ∀ a ∈ events, ∀ b ∈ events, a.id = b.id → a = b) {greatest : Event}
    (hlog : Written target communityId marks events log) (hevent : greatest ∈ events)
    (hgreatest : ∀ event ∈ events, event ≠ greatest →
      After (eventPosition greatest) (eventPosition event))
    (hnew : greatest ∉ log.inserted) :
    ∀ event ∈ log.inserted, event.id ≠ greatest.id ∧
      After (eventPosition greatest) (eventPosition event) := by
  intro event hmem
  have hne : event ≠ greatest := by
    rintro rfl
    exact hnew hmem
  refine ⟨?_, hgreatest event (hlog.inserted event hmem) hne⟩
  intro hid
  exact hne (hids event (hlog.inserted event hmem) greatest hevent hid)

theorem Written.key_ne {event : Event} (hlog : Written target communityId marks events log)
    (hevent : event ∈ events) (hnew : event ∉ log.inserted) :
    ∀ r ∈ log.store.rows,
      r.key ≠ (communityId, (event.createdAt.toNat : Int), event.id) := by
  intro r hr hkey
  refine hnew (hlog.rows r hr (congrArg Prod.fst hkey) event hevent ?_)
  exact congrArg (fun k => k.2.2) hkey

/-- After calls that wrote events of a set, the newest event of the set is the live one, if a call
wrote it that inserts what is newer than all that was written before. -/
theorem Written.converges (hexec : Performs exec target communityId eventOf admitted)
    (hids : ∀ a ∈ events, ∀ b ∈ events, a.id = b.id → a = b) {calls : List W}
    (hcalls : ∀ w ∈ calls, admitted w ∧ eventOf w ∈ events) {greatest : Event}
    (hgreatest : ∀ event ∈ events, event ≠ greatest →
      After (eventPosition greatest) (eventPosition event))
    (hwrites : ∃ w ∈ calls, eventOf w = greatest ∧ ∀ log,
      Written target communityId marks events log → greatest ∉ log.inserted →
      (exec log.store w).1 = some greatest)
    (hlog : Written target communityId marks events log) :
    ∃ row, (Run.run (Log.step exec) log calls).store.live target = [row] ∧
      row.event = greatest := by
  have hfinal := hlog.run hexec hids hcalls
  have hreported : greatest ∈ (Run.run (Log.step exec) log calls).inserted := by
    obtain ⟨w, hw, _, hinserts⟩ := hwrites
    obtain ⟨before, after, rfl⟩ := List.append_of_mem hw
    have hbefore : Written target communityId marks events
        (Run.run (Log.step exec) log before) :=
      hlog.run hexec hids fun w' hw' => hcalls w' (List.mem_append_left _ hw')
    have hthen : greatest ∈ (Log.step exec (Run.run (Log.step exec) log before) w).inserted := by
      by_cases hold : greatest ∈ (Run.run (Log.step exec) log before).inserted
      · exact List.mem_append_left _ hold
      · refine List.mem_append_right _ ?_
        rw [hinserts _ hbefore hold]
        exact List.mem_cons_self
    rw [Run.run_append]
    exact mem_inserted_run after hthen
  rcases hfinal.headed with ⟨hempty, _⟩ | ⟨row, hlive, hrow, _, hnewest⟩
  · rw [hempty] at hreported
    cases hreported
  · refine ⟨row, hlive, ?_⟩
    -- the live event is newer than the greatest, or it is the greatest
    rcases hnewest greatest hreported with heq | hafter
    · exact heq.symm
    · by_contra hne
      exact hafter.asymm (hgreatest row.event (hfinal.inserted _ hrow) hne)

end Writers

/-! ## The two writers -/

/-- A call of `replace_parameterized_event` at a coordinate. -/
structure Write where
  event : Event
  channelId : Option Uuid
  precondition : ParameterizedReplacePrecondition
  guards : Guards
  deriving DecidableEq

/-- The call, with the event if it is reported as inserted; an error rolls the transaction back. -/
def write (c : Coordinate) (s : Store) (w : Write) : Option Event × Store :=
  match replaceParameterizedEvent s c.communityId w.event c.dTag w.channelId w.precondition
    w.guards with
  | .ok (.inserted, s') => (some w.event, s')
  | .ok (_, s') => (none, s')
  | .error _ => (none, s)

/-- The event is one of the coordinate, and its time fits. -/
def Write.At (c : Coordinate) (w : Write) : Prop :=
  w.event.kind = c.kind ∧ w.event.pubkey = c.pubkey ∧ Fits w.event

instance Write.At.decidable (c : Coordinate) (w : Write) : Decidable (w.At c) :=
  inferInstanceAs (Decidable (_ ∧ _))

theorem Write.At.coordinate {c : Coordinate} {w : Write} (h : w.At c) :
    (⟨c.communityId, w.event.kind, w.event.pubkey, c.dTag⟩ : Coordinate) = c := by
  rw [h.1, h.2.1]

theorem write_some {c : Coordinate} {s : Store} {w : Write} {event : Event} (hw : w.At c)
    (h : (write c s w).1 = some event) :
    event = w.event ∧ w.precondition.fails (newest (s.live (ofCoordinate c))) = none ∧
      Replaces (ofCoordinate c) s (write c s w).2
        ⟨c.communityId, w.event, (w.event.createdAt.toNat : Int), w.channelId, some c.dTag,
          false⟩ := by
  unfold write at h ⊢
  split at h
  · next s' hok =>
      cases h
      rcases replaceParameterizedEvent_ok hok with ⟨hne, _⟩ | ⟨_, createdAt, htime, hmet, hreplaces⟩
      · exact absurd rfl hne
      · rw [storedAt_of_fits hw.2.2] at htime
        cases htime
        rw [hw.coordinate] at hmet hreplaces
        exact ⟨rfl, hmet, hreplaces⟩
  · cases h
  · cases h

theorem write_none {c : Coordinate} {s : Store} {w : Write} (h : (write c s w).1 = none) :
    (write c s w).2 = s := by
  unfold write at h ⊢
  split at h
  · cases h
  · next status s' hne hok =>
      rcases replaceParameterizedEvent_ok hok with ⟨_, hsame⟩ | ⟨hinserted, _⟩
      · exact hsame
      · exact (hne hinserted).elim
  · rfl

theorem performs_write (c : Coordinate) :
    Performs (write c) (ofCoordinate c) c.communityId Write.event (Write.At c) := by
  refine ⟨?_⟩
  intro s w hw
  cases hreport : (write c s w).1 with
  | none => exact Or.inl ⟨rfl, write_none hreport⟩
  | some event =>
      obtain ⟨rfl, _, hreplaces⟩ := write_some hw hreport
      exact Or.inr ⟨rfl, _, rfl, rfl, rfl, hreplaces⟩

/-- An unconditional call that no guard refuses inserts an event that is newer than all that was
written. -/
theorem write_inserts {c : Coordinate} {w : Write} {events : List Event} {log : Log} (hw : w.At c)
    (hunconditional : w.precondition = .unconditional) (hguards : w.guards = ⟨false, false⟩)
    (hids : ∀ a ∈ events, ∀ b ∈ events, a.id = b.id → a = b) (hevent : w.event ∈ events)
    (hgreatest : ∀ event ∈ events, event ≠ w.event →
      After (eventPosition w.event) (eventPosition event))
    (hlog : Written (ofCoordinate c) c.communityId (· = c) events log)
    (hnew : w.event ∉ log.inserted) : (write c log.store w).1 = some w.event := by
  have holder := hlog.older hids hevent hgreatest hnew
  have haccepted : ∀ position ∈ accepted log.store c (isNipRs w.event c.dTag),
      position.2 ≠ w.event.id ∧ After (eventPosition w.event) position := by
    intro position hposition
    rcases List.mem_append.1 hposition with hhead | hwatermark
    · rcases hlog.headed with ⟨_, hempty⟩ | ⟨row, hlive, hrow, hat, _⟩
      · rw [hempty] at hhead
        cases hhead
      · rw [hlive] at hhead
        have heq : position = row.position := by simpa [newest] using hhead
        rw [heq, hat]
        exact holder row.event hrow
    · split_ifs at hwatermark
      · obtain ⟨event, hmem, rfl⟩ := hlog.marks c position rfl (by simpa using hwatermark)
        exact holder event hmem
      · cases hwatermark
  obtain ⟨s', hs'⟩ : ∃ s', replaceParameterizedEvent log.store c.communityId w.event c.dTag
      w.channelId .unconditional w.guards = .ok (.inserted, s') := by
    refine replaceParameterizedEvent_inserts (storedAt_of_fits hw.2.2)
      (minTimestamptz_le_createdAt w.event) (by rw [hguards]) (by rw [hguards]) ?_
      (hlog.key_ne hevent hnew)
    rw [hw.coordinate]
    exact haccepted
  unfold write
  rw [hunconditional, hs']

/-- A call of `replace_addressable_event` at a coordinate. -/
structure AddressableWrite where
  event : Event
  guards : Guards
  deriving DecidableEq

/-- The coordinate of an addressable event. -/
structure ChannelCoordinate where
  communityId : CommunityId
  kind : Kind
  pubkey : PublicKey
  channelId : Option Uuid
  deriving DecidableEq

def ChannelCoordinate.target (c : ChannelCoordinate) : Row → Bool :=
  ofChannel c.communityId c.kind c.pubkey c.channelId

def writeAddressable (c : ChannelCoordinate) (s : Store) (w : AddressableWrite) :
    Option Event × Store :=
  match replaceAddressableEvent s c.communityId w.event c.channelId w.guards with
  | .ok (true, s') => (some w.event, s')
  | .ok (false, s') => (none, s')
  | .error _ => (none, s)

def AddressableWrite.At (c : ChannelCoordinate) (w : AddressableWrite) : Prop :=
  w.event.kind = c.kind ∧ w.event.pubkey = c.pubkey ∧ Fits w.event

instance AddressableWrite.At.decidable (c : ChannelCoordinate) (w : AddressableWrite) :
    Decidable (w.At c) :=
  inferInstanceAs (Decidable (_ ∧ _))

theorem writeAddressable_some {c : ChannelCoordinate} {s : Store} {w : AddressableWrite}
    {event : Event} (hw : w.At c) (h : (writeAddressable c s w).1 = some event) :
    event = w.event ∧ Replaces c.target s (writeAddressable c s w).2
      ⟨c.communityId, w.event, (w.event.createdAt.toNat : Int), c.channelId,
        extractDTag w.event, false⟩ := by
  unfold writeAddressable at h ⊢
  split at h
  · next s' hok =>
      cases h
      rcases replaceAddressableEvent_ok hok with ⟨hne, _⟩ | ⟨_, createdAt, htime, hreplaces⟩
      · cases hne
      · rw [storedAt_of_fits hw.2.2] at htime
        cases htime
        rw [hw.1, hw.2.1] at hreplaces
        exact ⟨rfl, hreplaces⟩
  · cases h
  · cases h

theorem writeAddressable_none {c : ChannelCoordinate} {s : Store} {w : AddressableWrite}
    (h : (writeAddressable c s w).1 = none) : (writeAddressable c s w).2 = s := by
  unfold writeAddressable at h ⊢
  split at h
  · cases h
  · next s' hok =>
      rcases replaceAddressableEvent_ok hok with ⟨_, hsame⟩ | ⟨hinserted, _⟩
      · exact hsame
      · cases hinserted
  · rfl

theorem performs_writeAddressable (c : ChannelCoordinate) :
    Performs (writeAddressable c) c.target c.communityId AddressableWrite.event
      (AddressableWrite.At c) := by
  refine ⟨?_⟩
  intro s w hw
  cases hreport : (writeAddressable c s w).1 with
  | none => exact Or.inl ⟨rfl, writeAddressable_none hreport⟩
  | some event =>
      obtain ⟨rfl, hreplaces⟩ := writeAddressable_some hw hreport
      exact Or.inr ⟨rfl, _, rfl, rfl, rfl, hreplaces⟩

/-- The watermarks that rows of the coordinate can have. -/
def ChannelCoordinate.Marks (c : ChannelCoordinate) (k : Coordinate) : Prop :=
  k.communityId = c.communityId ∧ k.kind = c.kind ∧ k.pubkey = c.pubkey

theorem writeAddressable_inserts {c : ChannelCoordinate} {w : AddressableWrite}
    {events : List Event} {log : Log} (hw : w.At c) (hguards : w.guards = ⟨false, false⟩)
    (hids : ∀ a ∈ events, ∀ b ∈ events, a.id = b.id → a = b) (hevent : w.event ∈ events)
    (hgreatest : ∀ event ∈ events, event ≠ w.event →
      After (eventPosition w.event) (eventPosition event))
    (hlog : Written c.target c.communityId c.Marks events log)
    (hnew : w.event ∉ log.inserted) : (writeAddressable c log.store w).1 = some w.event := by
  have holder := hlog.older hids hevent hgreatest hnew
  have hlive : ∀ r ∈ log.store.live c.target, After (eventPosition w.event) r.position := by
    intro r hr
    rcases hlog.headed with ⟨_, hempty⟩ | ⟨row, hlive, hrow, hat, _⟩
    · rw [hempty] at hr
      cases hr
    · rw [hlive] at hr
      rw [List.mem_singleton.1 hr, hat]
      exact (holder row.event hrow).2
  obtain ⟨s', hs'⟩ : ∃ s', replaceAddressableEvent log.store c.communityId w.event c.channelId
      w.guards = .ok (true, s') := by
    refine replaceAddressableEvent_inserts (storedAt_of_fits hw.2.2)
      (minTimestamptz_le_createdAt w.event) (by rw [hguards]) (by rw [hguards]) ?_
      (hlog.key_ne hevent hnew) ?_
    · rw [hw.1, hw.2.1]
      exact hlive
    · intro k watermark hcommunity hkind hpubkey hwatermark
      obtain ⟨event, hmem, rfl⟩ := hlog.marks k watermark
        ⟨hcommunity, hkind.trans hw.1, hpubkey.trans hw.2.1⟩ hwatermark
      exact (holder event hmem).2
  unfold writeAddressable
  rw [hs']

/-! ## Read state, with deletions -/

/-- A call at a coordinate, or a NIP-09 deletion by event id or by coordinate. -/
inductive Op where
  | write (w : Write)
  | deleteEvent (communityId : CommunityId) (eventId : EventId)
  | deleteByCoordinate (c : Coordinate) (upTo : Int)
  deriving DecidableEq

def Op.deletes : Op → Row → Bool
  | .write _, _ => false
  | .deleteEvent communityId eventId, r =>
      decide (r.communityId = communityId ∧ r.event.id = eventId)
  | .deleteByCoordinate c upTo, r => ofCoordinate c r && decide (r.createdAt ≤ upTo)

def Log.apply (c : Coordinate) (log : Log) : Op → Log
  | .write w => log.step (Replaceable.write c) w
  | op => { log with store := log.store.softDelete op.deletes }

theorem mem_live_softDelete {s : Store} {target target' : Row → Bool} {r : Row}
    (h : r ∈ (s.softDelete target').live target) : r ∈ s.live target := by
  obtain ⟨hmem, htarget, hlive⟩ := mem_live.1 h
  obtain ⟨r', hr', ⟨_, rfl⟩ | ⟨_, rfl⟩⟩ := mem_softDelete hmem
  · cases hlive
  · exact mem_live.2 ⟨hr', htarget, hlive⟩

theorem length_live_softDelete (s : Store) (target target' : Row → Bool) :
    ((s.softDelete target').live target).length ≤ (s.live target).length := by
  unfold Store.softDelete Store.live
  induction s.rows with
  | nil => exact Nat.le_refl 0
  | cons r rows ih =>
      simp only at ih ⊢
      rw [List.filterMap_cons]
      split_ifs with hdeleted hpurged
      · refine ih.trans ?_
        rw [List.filter_cons]
        split_ifs <;> simp
      · rw [List.filter_cons_of_neg (by simp)]
        refine ih.trans ?_
        rw [List.filter_cons]
        split_ifs <;> simp
      · rw [List.filter_cons, List.filter_cons]
        split_ifs
        · simpa using ih
        · exact ih

/-- The events of the writes are of the coordinate. -/
def Op.At (c : Coordinate) : Op → Prop
  | .write w => w.At c
  | _ => True

/-- The events of the writes are read state. -/
def Op.ReadState (c : Coordinate) : Op → Prop
  | .write w => isNipRs w.event c.dTag = true
  | _ => True

instance Op.At.decidable (c : Coordinate) : DecidablePred (Op.At c)
  | .write w => inferInstanceAs (Decidable (w.At c))
  | .deleteEvent _ _ => isTrue trivial
  | .deleteByCoordinate _ _ => isTrue trivial

instance Op.ReadState.decidable (c : Coordinate) : DecidablePred (Op.ReadState c)
  | .write w => inferInstanceAs (Decidable (isNipRs w.event c.dTag = true))
  | .deleteEvent _ _ => isTrue trivial
  | .deleteByCoordinate _ _ => isTrue trivial

def NotBefore (a b : Position) : Prop := a = b ∨ After a b

theorem NotBefore.trans {a b c : Position} (hab : NotBefore a b) (hbc : NotBefore b c) :
    NotBefore a c := by
  rcases hab with rfl | hab
  · exact hbc
  · rcases hbc with rfl | hbc
    · exact Or.inr hab
    · exact Or.inr (hab.trans hbc)

section ReadState

variable {c : Coordinate} {log : Log}

theorem apply_cases (log : Log) {op : Op} (hop : op.At c) :
    (log.apply c op).inserted = log.inserted ∧
        (log.apply c op).store.watermarks = log.store.watermarks ∧
        (∀ r ∈ (log.apply c op).store.live (ofCoordinate c), r ∈ log.store.live (ofCoordinate c)) ∧
        ((log.apply c op).store.live (ofCoordinate c)).length ≤
          (log.store.live (ofCoordinate c)).length ∨
      ∃ w row, op = .write w ∧ row.event = w.event ∧ row.position = eventPosition w.event ∧
        ofCoordinate c row = true ∧ (log.apply c op).inserted = log.inserted ++ [w.event] ∧
        Replaces (ofCoordinate c) log.store (log.apply c op).store row := by
  cases op with
  | write w =>
      cases hreport : (write c log.store w).1 with
      | none =>
          have hstep : log.apply c (.write w) = log := by
            simp [Log.apply, Log.step, hreport, write_none hreport]
          rw [hstep]
          exact Or.inl ⟨rfl, rfl, fun r hr => hr, Nat.le_refl _⟩
      | some event =>
          obtain ⟨rfl, _, hreplaces⟩ := write_some hop hreport
          refine Or.inr ⟨w, _, rfl, rfl, rfl, ?_, ?_, hreplaces⟩
          · simp [ofCoordinate, hop.1, hop.2.1]
          · simp [Log.apply, Log.step, hreport]
  | deleteEvent communityId eventId =>
      exact Or.inl ⟨rfl, rfl, fun r hr => mem_live_softDelete hr,
        length_live_softDelete log.store _ _⟩
  | deleteByCoordinate c' upTo =>
      exact Or.inl ⟨rfl, rfl, fun r hr => mem_live_softDelete hr,
        length_live_softDelete log.store _ _⟩

theorem watermark_apply {op : Op} {watermark : Position} (hop : op.At c)
    (h : log.store.watermarks.lookup c = some watermark) :
    ∃ watermark', (log.apply c op).store.watermarks.lookup c = some watermark' ∧
      NotBefore watermark' watermark := by
  rcases apply_cases log hop with ⟨_, hmarks, _⟩ | ⟨w, row, _, _, _, hrow, _, hreplaces⟩
  · exact ⟨watermark, by rw [hmarks, h], Or.inl rfl⟩
  · rw [hreplaces.watermarks, marked]
    split_ifs with hnipRs
    · refine ⟨row.position, rfl, Or.inr ?_⟩
      exact hreplaces.advances c hrow (Bool.and_eq_true_iff.1 hnipRs).2 watermark h
    · exact ⟨watermark, h, Or.inl rfl⟩

/-- The live row is at the watermark. -/
def Marked (c : Coordinate) (log : Log) : Prop :=
  ∀ r ∈ log.store.live (ofCoordinate c), log.store.watermarks.lookup c = some r.position

theorem Marked.apply {op : Op} (hop : op.At c) (hreadState : op.ReadState c)
    (hlog : Marked c log) : Marked c (log.apply c op) := by
  intro r hr
  rcases apply_cases log hop with ⟨_, hmarks, hlive, _⟩ | ⟨w, row, rfl, hevent, _, hrow, _,
    hreplaces⟩
  · rw [hmarks]
    exact hlog r (hlive r hr)
  · rw [hreplaces.live] at hr
    rw [List.mem_singleton.1 hr, hreplaces.watermarks, marked, if_pos]
    rw [hrow, hevent]
    exact hreadState

theorem length_live_apply {op : Op} (hop : op.At c)
    (hlog : (log.store.live (ofCoordinate c)).length ≤ 1) :
    ((log.apply c op).store.live (ofCoordinate c)).length ≤ 1 := by
  rcases apply_cases log hop with ⟨_, _, _, hlength⟩ | ⟨w, row, _, _, _, _, _, hreplaces⟩
  · exact hlength.trans hlog
  · rw [hreplaces.live]
    exact Nat.le_refl 1

/-- The read-state events reported so far are in order, and the watermark is at the last. -/
structure Ordered (c : Coordinate) (log : Log) : Prop where
  increasing : (log.inserted.filter fun event => isNipRs event c.dTag).Pairwise
    fun a b => After (eventPosition b) (eventPosition a)
  below : ∀ event ∈ log.inserted, isNipRs event c.dTag = true →
    ∃ watermark, log.store.watermarks.lookup c = some watermark ∧
      NotBefore watermark (eventPosition event)

theorem Ordered.apply {op : Op} (hop : op.At c) (hlog : Ordered c log) :
    Ordered c (log.apply c op) := by
  have hbelow : ∀ event ∈ log.inserted, isNipRs event c.dTag = true →
      ∃ watermark, (log.apply c op).store.watermarks.lookup c = some watermark ∧
        NotBefore watermark (eventPosition event) := by
    intro event hmem hnipRs
    obtain ⟨watermark, hwatermark, hle⟩ := hlog.below event hmem hnipRs
    obtain ⟨watermark', hwatermark', hle'⟩ := watermark_apply hop hwatermark
    exact ⟨watermark', hwatermark', hle'.trans hle⟩
  rcases apply_cases log hop with ⟨hinserted, _⟩ | ⟨w, row, _, hevent, hposition, hrow,
    hinserted, hreplaces⟩
  · refine ⟨?_, ?_⟩
    · rw [hinserted]
      exact hlog.increasing
    · rw [hinserted]
      exact hbelow
  · refine ⟨?_, ?_⟩
    · rw [hinserted, List.filter_append]
      refine List.pairwise_append.2 ⟨hlog.increasing, ?_, ?_⟩
      · exact (List.pairwise_singleton _ _).filter _
      · intro a ha b hb
        obtain ⟨hmem, hnipRs⟩ := List.mem_filter.1 ha
        obtain ⟨hlast, hnipRs'⟩ := List.mem_filter.1 hb
        rw [List.mem_singleton.1 hlast] at hnipRs' ⊢
        -- newer than the watermark, which is not before the event reported earlier
        obtain ⟨watermark, hwatermark, hle⟩ := hlog.below a hmem hnipRs
        have hafter := hreplaces.advances c hrow (by rw [hevent]; exact hnipRs') watermark hwatermark
        rw [hposition] at hafter
        rcases hle with rfl | hle
        · exact hafter
        · exact hafter.trans hle
    · intro event hmem hnipRs
      rw [hinserted] at hmem
      rcases List.mem_append.1 hmem with hold | hnew
      · exact hbelow event hold hnipRs
      · rw [List.mem_singleton.1 hnew] at hnipRs ⊢
        refine ⟨row.position, ?_, Or.inl hposition⟩
        rw [hreplaces.watermarks, marked, if_pos]
        rw [hrow, hevent]
        exact hnipRs

end ReadState

/-! ## Every list of calls -/

/-- The log after calls of a writer, from a store. -/
def written {W : Type} (exec : Store → W → Option Event × Store) (s : Store) (calls : List W) :
    Log :=
  Run.run (Log.step exec) ⟨s, []⟩ calls

/-- The log after calls of the parameterized writer and deletions. -/
def applied (c : Coordinate) (s : Store) (ops : List Op) : Log := Run.run (Log.apply c) ⟨s, []⟩ ops

/-- For events whose times the time column holds, over every list of calls at a coordinate:

* with either writer, one row is live at most, and it is the newest of the events reported as
  inserted;
* after unconditional calls from a store without the events, in any order and number, it is the
  newest event of all, if no guard refused it each time;
* a call that reports no insertion changes nothing, and one that expects a revision inserts only
  over a head of that id;
* with deletions between the calls still one row is live at most, every read-state event that is
  inserted is newer than those inserted before it, and where only read-state events are written
  the live row never moves back. -/
theorem replaceable_heads :
    (∀ c s calls, s.live (ofCoordinate c) = [] → (∀ w ∈ calls, w.At c) →
      Headed (ofCoordinate c) (written (write c) s calls)) ∧
    (∀ c s calls, s.live c.target = [] → (∀ w ∈ calls, w.At c) →
      Headed c.target (written (writeAddressable c) s calls)) ∧
    (∀ c s calls events greatest, Fresh (ofCoordinate c) c.communityId (· = c) events s →
      (∀ a ∈ events, ∀ b ∈ events, a.id = b.id → a = b) →
      (∀ w ∈ calls, w.At c ∧ w.event ∈ events ∧ w.precondition = .unconditional) →
      (∃ w ∈ calls, w.event = greatest ∧ w.guards = ⟨false, false⟩) →
      (∀ event ∈ events, event ≠ greatest →
        After (eventPosition greatest) (eventPosition event)) →
      ∃ row, (written (write c) s calls).store.live (ofCoordinate c) = [row] ∧
        row.event = greatest) ∧
    (∀ c s calls events greatest, Fresh c.target c.communityId c.Marks events s →
      (∀ a ∈ events, ∀ b ∈ events, a.id = b.id → a = b) →
      (∀ w ∈ calls, w.At c ∧ w.event ∈ events) →
      (∃ w ∈ calls, w.event = greatest ∧ w.guards = ⟨false, false⟩) →
      (∀ event ∈ events, event ≠ greatest →
        After (eventPosition greatest) (eventPosition event)) →
      ∃ row, (written (writeAddressable c) s calls).store.live c.target = [row] ∧
        row.event = greatest) ∧
    (∀ c s w, (write c s w).1 = none → (write c s w).2 = s) ∧
    (∀ c s w, (writeAddressable c s w).1 = none → (writeAddressable c s w).2 = s) ∧
    (∀ c s w event revision, w.At c → w.precondition = .expectedRevision revision →
      (write c s w).1 = some event →
      ∃ head, newest (s.live (ofCoordinate c)) = some head ∧ idBytes head.event.id = revision) ∧
    (∀ c s ops, s.live (ofCoordinate c) = [] → (∀ op ∈ ops, op.At c) →
      ((applied c s ops).store.live (ofCoordinate c)).length ≤ 1 ∧
      ((applied c s ops).inserted.filter fun event => isNipRs event c.dTag).Pairwise
        fun a b => After (eventPosition b) (eventPosition a)) ∧
    ∀ c s before after, s.live (ofCoordinate c) = [] →
      (∀ op ∈ before ++ after, op.At c ∧ op.ReadState c) →
      ∀ head ∈ (applied c s before).store.live (ofCoordinate c),
        ∀ head' ∈ (applied c s (before ++ after)).store.live (ofCoordinate c),
          NotBefore head'.position head.position := by
  refine ⟨?_, ?_, ?_, ?_, fun c s w => write_none, fun c s w => writeAddressable_none, ?_, ?_, ?_⟩
  · intro c s calls hlive hcalls
    exact Run.invariant (P := fun _ w => w.At c) (Headed (ofCoordinate c))
      (fun _ _ hlog hw => hlog.step (performs_write c) hw) (Or.inl ⟨rfl, hlive⟩)
      (Run.along_of_forall_mem fun w hw _ => hcalls w hw)
  · intro c s calls hlive hcalls
    exact Run.invariant (P := fun _ w => w.At c) (Headed c.target)
      (fun _ _ hlog hw => hlog.step (performs_writeAddressable c) hw) (Or.inl ⟨rfl, hlive⟩)
      (Run.along_of_forall_mem fun w hw _ => hcalls w hw)
  · intro c s calls events greatest hfresh hids hcalls hwritten hgreatest
    refine hfresh.written.converges (performs_write c) hids
      (fun w hw => ⟨(hcalls w hw).1, (hcalls w hw).2.1⟩) hgreatest ?_
    obtain ⟨w, hw, rfl, hguards⟩ := hwritten
    obtain ⟨hat, hevent, hunconditional⟩ := hcalls w hw
    refine ⟨w, hw, rfl, ?_⟩
    intro log hlog hnew
    exact write_inserts hat hunconditional hguards hids hevent hgreatest hlog hnew
  · intro c s calls events greatest hfresh hids hcalls hwritten hgreatest
    refine hfresh.written.converges (performs_writeAddressable c) hids hcalls hgreatest ?_
    obtain ⟨w, hw, rfl, hguards⟩ := hwritten
    obtain ⟨hat, hevent⟩ := hcalls w hw
    refine ⟨w, hw, rfl, ?_⟩
    intro log hlog hnew
    exact writeAddressable_inserts hat hguards hids hevent hgreatest hlog hnew
  · intro c s w event revision hw hprecondition hreport
    have hmet := (write_some hw hreport).2.1
    rw [hprecondition] at hmet
    simp only [ParameterizedReplacePrecondition.fails] at hmet
    split at hmet
    · cases hmet
    · next head hhead =>
        split_ifs at hmet with hne
        exact ⟨head, hhead, not_not.1 hne⟩
  · intro c s ops hlive hops
    have halong : Run.Along (fun _ op => Op.At c op) (Log.apply c) ⟨s, []⟩ ops :=
      Run.along_of_forall_mem fun op hop _ => hops op hop
    refine ⟨?_, ?_⟩
    · refine Run.invariant (fun log => (log.store.live (ofCoordinate c)).length ≤ 1)
        (fun _ _ hlog hop => length_live_apply hop hlog) ?_ halong
      rw [hlive]
      exact Nat.zero_le 1
    · have hstart : Ordered c ⟨s, []⟩ := ⟨List.Pairwise.nil, fun _ h => by cases h⟩
      exact (Run.invariant (Ordered c) (fun _ _ hlog hop => hlog.apply hop) hstart
        halong).increasing
  · intro c s before after hlive hops head hhead head' hhead'
    have halong : ∀ ops, (∀ op ∈ ops, op.At c ∧ op.ReadState c) → ∀ log,
        Run.Along (fun _ op => Op.At c op ∧ op.ReadState c) (Log.apply c) log ops :=
      fun ops hall log => Run.along_of_forall_mem fun op hop _ => hall op hop
    have hmarked : ∀ ops, (∀ op ∈ ops, op.At c ∧ op.ReadState c) → Marked c (applied c s ops) := by
      intro ops hall
      refine Run.invariant (Marked c) (fun _ _ hlog hop => hlog.apply hop.1 hop.2) ?_
        (halong ops hall _)
      intro r hr
      rw [hlive] at hr
      cases hr
    have hbefore := hmarked before (fun op hop => hops op (List.mem_append_left _ hop)) head hhead
    have hafter := hmarked (before ++ after) hops head' hhead'
    -- both heads are at the watermark, which has not moved back in between
    have hmoved : ∃ watermark, (applied c s (before ++ after)).store.watermarks.lookup c =
        some watermark ∧ NotBefore watermark head.position := by
      unfold applied
      rw [Run.run_append]
      refine Run.invariant
        (fun log : Log => ∃ watermark, log.store.watermarks.lookup c = some watermark ∧
          NotBefore watermark head.position) ?_ ⟨_, hbefore, Or.inl rfl⟩
        (halong after (fun op hop => hops op (List.mem_append_right _ hop)) _)
      rintro log op ⟨watermark, hwatermark, hle⟩ hop
      obtain ⟨watermark', hwatermark', hle'⟩ := watermark_apply hop.1 hwatermark
      exact ⟨watermark', hwatermark', hle'.trans hle⟩
    obtain ⟨watermark, hwatermark, hle⟩ := hmoved
    rw [hafter] at hwatermark
    cases hwatermark
    exact hle

namespace Sample

def empty : Store := ⟨[], ∅, []⟩

def slot : Coordinate := ⟨⟨1⟩, kindReadState, 7, "read-state:00000000000000000000000000000000"⟩

/-- A read-state event of the coordinate. -/
def readState (id : EventId) (createdAt : Timestamp) : Event :=
  ⟨id, 7, createdAt, kindReadState, [⟨"d", [slot.dTag]⟩, ⟨"t", ["read-state"]⟩]⟩

/-- An event of the coordinate without the marker tag. -/
def unmarked (id : EventId) (createdAt : Timestamp) : Event :=
  ⟨id, 7, createdAt, kindReadState, [⟨"d", [slot.dTag]⟩]⟩

def unconditional (event : Event) : Write := ⟨event, none, .unconditional, ⟨false, false⟩⟩

/-- The newest event is written between the others, and one of them again. -/
def calls : List Write :=
  [unconditional (readState 4 100), unconditional (readState 2 200), unconditional (readState 3 200),
    unconditional (readState 4 100)]

def events : List Event := [readState 4 100, readState 2 200, readState 3 200]

/-- A head is deleted, and an older event comes again. -/
def deletion : List Op :=
  [.deleteEvent ⟨1⟩ 4, .write (unconditional (readState 5 50)),
    .write (unconditional (readState 2 200))]

end Sample

theorem replaceable_heads_sample :
    (∃ row, (written (write Sample.slot) Sample.empty Sample.calls).store.live
      (ofCoordinate Sample.slot) = [row] ∧ row.event = Sample.readState 2 200) ∧
    ∀ head ∈ (applied Sample.slot Sample.empty
        [.write (Sample.unconditional (Sample.readState 4 100))]).store.live
          (ofCoordinate Sample.slot),
      ∀ head' ∈ (applied Sample.slot Sample.empty
        ([.write (Sample.unconditional (Sample.readState 4 100))] ++ Sample.deletion)).store.live
          (ofCoordinate Sample.slot),
        NotBefore head'.position head.position := by
  refine ⟨?_, ?_⟩
  · refine replaceable_heads.2.2.1 Sample.slot Sample.empty Sample.calls Sample.events
      (Sample.readState 2 200) ⟨rfl, fun _ h => (nomatch h), fun _ _ => rfl⟩ ?_ ?_ ?_ ?_
    · decide
    · decide
    · decide
    · decide
  · exact replaceable_heads.2.2.2.2.2.2.2.2 Sample.slot Sample.empty _ Sample.deletion rfl
      (by decide)

/-- At a read-state coordinate the live row moves back when an event of another shape is written
after a deletion; and a time from `2^63` on is stored as one before 1970, so that the newest event
is not the live one. -/
theorem heads_move_back :
    (¬ ∀ c s before after, s.live (ofCoordinate c) = [] → c.kind = kindReadState →
      (strippedPrefix "read-state:" c.dTag).any isSlot = true →
      (∀ op ∈ before ++ after, op.At c) →
      ∀ head ∈ (applied c s before).store.live (ofCoordinate c),
        ∀ head' ∈ (applied c s (before ++ after)).store.live (ofCoordinate c),
          NotBefore head'.position head.position) ∧
    ¬ ∀ c s calls, s.live (ofCoordinate c) = [] →
      (∀ w ∈ calls, w.event.kind = c.kind ∧ w.event.pubkey = c.pubkey) →
      Headed (ofCoordinate c) (written (write c) s calls) := by
  refine ⟨?_, ?_⟩
  · intro hall
    have hmoved := hall Sample.slot Sample.empty
      [.write (Sample.unconditional (Sample.readState 4 100))]
      [.deleteEvent ⟨1⟩ 4, .write (Sample.unconditional (Sample.unmarked 5 50))] rfl rfl
      (by decide) (by decide)
      ⟨⟨1⟩, Sample.readState 4 100, 100, none, some Sample.slot.dTag, false⟩ (by decide)
      ⟨⟨1⟩, Sample.unmarked 5 50, 50, none, some Sample.slot.dTag, false⟩ (by decide)
    rcases hmoved with hsame | hafter
    · exact absurd hsame (by decide)
    · exact absurd hafter (by decide)
  · intro hall
    have hheaded := hall Sample.slot Sample.empty
      [Sample.unconditional (Sample.unmarked 1 18446744073709551615),
        Sample.unconditional (Sample.unmarked 2 1)] rfl (by decide)
    have hlive : (written (write Sample.slot) Sample.empty
        [Sample.unconditional (Sample.unmarked 1 18446744073709551615),
          Sample.unconditional (Sample.unmarked 2 1)]).store.live (ofCoordinate Sample.slot) =
        [⟨⟨1⟩, Sample.unmarked 2 1, 1, none, some Sample.slot.dTag, false⟩] := by
      decide
    have hinserted : Sample.unmarked 1 18446744073709551615 ∈ (written (write Sample.slot)
        Sample.empty [Sample.unconditional (Sample.unmarked 1 18446744073709551615),
          Sample.unconditional (Sample.unmarked 2 1)]).inserted := by
      decide
    rcases hheaded with ⟨_, hempty⟩ | ⟨row, hrow, _, _, hnewest⟩
    · rw [hlive] at hempty
      cases hempty
    · rw [hlive] at hrow
      cases hrow
      rcases hnewest _ hinserted with hsame | hafter
      · exact absurd hsame (by decide)
      · exact absurd hafter (by decide)

end Replaceable
end Db
end Maju
