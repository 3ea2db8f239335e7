import Maju.Relay.Read.Request
import Maju.Relay.Subscription.Registry

/-!
# Access — the reader, the lookups and the answers of a request

REQ and COUNT start the same way: they take the reader's accessible channels from a cache, narrow
them to the token's channels, and confirm each requested channel that is missing against the
database.
-/

namespace Maju
namespace Relay

open Lib Core Db

/-- `maju_auth::Scope`, as far as it is tested. -/
inductive Scope where
  | messagesRead
  | other (name : String)
  deriving DecidableEq, Repr

/-- `AuthContext`, with the channels a scoped token is bound to. -/
structure AuthContext where
  pubkey : PublicKey
  scopes : List Scope
  channelIds : Option (List Uuid)

/-- The lookups of a request, within the connection's community: `get_accessible_channel_ids_cached`
and `db.is_member`. -/
structure Lookups where
  accessibleChannelIds : PublicKey → Except DbError (List Uuid)
  isMember : Uuid → PublicKey → Except DbError Bool

/-- `RelayMessage`, the answers to REQ and COUNT. -/
inductive RelayMessage where
  | notice (message : String)
  | closed (subId : SubId) (message : String)
  | event (subId : SubId) (event : Event)
  | eose (subId : SubId)
  | count (subId : SubId) (total : Nat)

namespace AuthContext

def tokenAllows (ctx : AuthContext) (chId : Uuid) : Bool :=
  ctx.channelIds.all fun allowed => decide (chId ∈ allowed)

/-- Narrow the accessible channels to the token's channels. -/
def narrow (ctx : AuthContext) (accessible : List Uuid) : List Uuid :=
  accessible.filter ctx.tokenAllows

end AuthContext

/-- One requested channel: the database is asked when the channel is missing and the token covers
it. -/
def confirmChannel (lookups : Lookups) (ctx : AuthContext) (accessible : List Uuid)
    (chId : Uuid) : Except DbError (List Uuid) :=
  if !ctx.tokenAllows chId ∨ chId ∈ accessible then
    .ok (resolveRequestLocalAccess accessible chId (ctx.tokenAllows chId) none)
  else
    (lookups.isMember chId ctx.pubkey).map fun member =>
      resolveRequestLocalAccess accessible chId true (some member)

def confirmChannels (lookups : Lookups) (ctx : AuthContext) (requested : List Uuid)
    (accessible : List Uuid) : Except DbError (List Uuid) :=
  requested.foldlM (confirmChannel lookups ctx) accessible

/-- The reader may access the channel, by the lookups of a request. -/
def Lookups.mayAccess (lookups : Lookups) (ctx : AuthContext) (chId : Uuid) : Bool :=
  ctx.tokenAllows chId &&
    ((lookups.accessibleChannelIds ctx.pubkey).toOption.any (fun ids => decide (chId ∈ ids)) ||
      (lookups.isMember chId ctx.pubkey).toOption.any id)

theorem mayAccess_of_mem_narrow {lookups : Lookups} {ctx : AuthContext} {ids : List Uuid}
    (hids : lookups.accessibleChannelIds ctx.pubkey = .ok ids) :
    ∀ ch ∈ ctx.narrow ids, lookups.mayAccess ctx ch = true := by
  intro ch hch
  obtain ⟨hmem, htoken⟩ := List.mem_filter.1 hch
  simp [Lookups.mayAccess, htoken, hids, Except.toOption, hmem]

/-- The filter accepts the row, the row is in no channel or in one that the reader may access, and
the reader may see it. -/
def wantedRow (lookups : Lookups) (ctx : AuthContext) (f : Filter) (r : EventRow) : Bool :=
  filtersMatch [f] r.stored && r.channelId.all (lookups.mayAccess ctx) &&
    eventVisibleToReader r.event ctx.pubkey

theorem filtersMatch_singleton (f : Filter) (ev : StoredEvent) :
    filtersMatch [f] ev = filterMatchOne f ev := by
  simp [filtersMatch]

/-! ## What the confirmation adds -/

section Confirm

variable {lookups : Lookups} {ctx : AuthContext} {accessible accessible' : List Uuid}

theorem mem_confirmChannel {chId : Uuid}
    (h : confirmChannel lookups ctx accessible chId = .ok accessible') (ch : Uuid) :
    ch ∈ accessible' ↔ ch ∈ accessible ∨
      (ch = chId ∧ ctx.tokenAllows ch = true ∧ lookups.isMember ch ctx.pubkey = .ok true ∧
        ch ∉ accessible) := by
  unfold confirmChannel at h
  split at h
  · next hskip =>
      have hsame : accessible' = accessible := by
        simp only [resolveRequestLocalAccess, Except.ok.injEq] at h
        rw [← h]
        split
        · rfl
        · split <;> rfl
      subst hsame
      constructor
      · exact Or.inl
      · rintro (hmem | ⟨rfl, htoken, _, hmiss⟩)
        · exact hmem
        · rcases hskip with hdenied | hmem
          · simp [htoken] at hdenied
          · exact hmem
  · next hask =>
      simp only [Bool.not_eq_true', not_or, Bool.not_eq_false] at hask
      cases hm : lookups.isMember chId ctx.pubkey with
      | error e =>
          rw [hm] at h
          cases h
      | ok member =>
          simp only [hm, Except.map, resolveRequestLocalAccess, Bool.not_true, Bool.false_eq_true,
            if_false, hask.2, Except.ok.injEq] at h
          subst h
          cases member with
          | false =>
              simp only [Option.some.injEq, Bool.false_eq_true, if_false]
              constructor
              · exact Or.inl
              · rintro (hmem | ⟨rfl, _, hmember, _⟩)
                · exact hmem
                · rw [hm] at hmember
                  cases hmember
          | true =>
              simp only [if_true, List.mem_append, List.mem_singleton]
              constructor
              · rintro (hmem | rfl)
                · exact Or.inl hmem
                · exact Or.inr ⟨rfl, hask.1, hm, hask.2⟩
              · rintro (hmem | ⟨rfl, _⟩)
                · exact Or.inl hmem
                · exact Or.inr rfl

/-- The confirmation only grows the list, and only by channels of which the reader is a
member. -/
theorem mem_confirmChannels {requested : List Uuid}
    (h : confirmChannels lookups ctx requested accessible = .ok accessible') (ch : Uuid) :
    ch ∈ accessible' ↔ ch ∈ accessible ∨
      (ch ∈ requested ∧ ctx.tokenAllows ch = true ∧
        lookups.isMember ch ctx.pubkey = .ok true) := by
  unfold confirmChannels at h
  induction requested generalizing accessible with
  | nil =>
      cases h
      simp
  | cons chId requested ih =>
      rw [List.foldlM_cons] at h
      cases hstep : confirmChannel lookups ctx accessible chId with
      | error e =>
          rw [hstep] at h
          cases h
      | ok next =>
          rw [hstep] at h
          rw [ih h, mem_confirmChannel hstep, List.mem_cons]
          by_cases hmem : ch ∈ accessible
          · simp [hmem]
          · simp only [hmem, false_or, not_false_eq_true, and_true]
            constructor
            · rintro (⟨rfl, htoken, hmember⟩ | ⟨hreq, htoken, hmember⟩)
              · exact ⟨Or.inl rfl, htoken, hmember⟩
              · exact ⟨Or.inr hreq, htoken, hmember⟩
            · rintro ⟨rfl | hreq, htoken, hmember⟩
              · exact Or.inl ⟨rfl, htoken, hmember⟩
              · exact Or.inr ⟨hreq, htoken, hmember⟩

end Confirm

/-! ## Sample requests -/

def sampleFilter (kind : Kind) : Filter := { Filter.new with kinds := some (.singleton kind) }

/-- The filter, restricted by `#h`. -/
def inChannels (values : BTreeSet String) (f : Filter) : Filter :=
  { f with genericTags := f.genericTags.insert .h values }

def sampleChannelText : String := "00000000-0000-0000-0000-000000000001"

def sampleRow (id : EventId) (kind : Kind) (channelId : Option Uuid) : EventRow where
  communityId := ⟨0⟩
  event := ⟨id, 7, 100, kind, []⟩
  channelId := channelId
  deleted := false
  fits := (by decide : (100 : Int) ≤ maxTimestamp)

/-- A message in channel 1, a global note, and a message in channel 2. -/
def sampleDb : Database where
  rows := [sampleRow 1 9 (some 1), sampleRow 2 1 none, sampleRow 3 9 (some 2)]
  distinct := by decide

/-- The reader may access channel 1 only. -/
def sampleLookups : Lookups where
  accessibleChannelIds := fun _ => .ok [1]
  isMember := fun ch _ => .ok (decide (ch = 1))

def sampleReader : AuthContext := ⟨5, [], none⟩

end Relay
end Maju
