import Maju.Core.Nostr

/-!
# Kind — the kind registry's gated classes

Which kinds exist in each read-gated class, and the per-event predicates over them.
-/

namespace Maju
namespace Core

/-! ## Kind numbers -/

def kindGiftWrap : Nat := 1059
def kindNip43MembershipList : Nat := 13534
def kindAuth : Nat := 22242
def kindAgentObserverFrame : Nat := 24200
def kindAgentEngram : Nat := 30174
def kindPersona : Nat := 30175
def kindTeamCatalog : Nat := 30178
def kindPrivateManagedAgent : Nat := 30179
def kindEventReminder : Nat := 30300
def kindPushLease : Nat := 30350
def kindDeviceSession : Nat := 30360
def kindDmVisibility : Nat := 30622
def kindMemberAddedNotification : Nat := 44100
def kindMemberRemovedNotification : Nat := 44101
def kindAgentTurnMetric : Nat := 44200
def kindHuddleLiveness : Nat := 48104

/-! ## Classes of kinds -/

/-- `AUTHOR_ONLY_KINDS`: readable only by their author. -/
def authorOnlyKinds : List Nat :=
  [kindEventReminder, kindPushLease, kindDeviceSession, kindPrivateManagedAgent]

/-- `RESULT_GATED_KINDS`: readable only by an owner named in a `p` tag. -/
def resultGatedKinds : List Nat := [kindDmVisibility, kindAgentTurnMetric]

/-- `P_GATED_KINDS`: a filter that can match one of these must name the reader in `#p`. -/
def pGatedKinds : List Nat :=
  [kindAgentObserverFrame, kindMemberAddedNotification, kindMemberRemovedNotification,
    kindGiftWrap, kindDmVisibility, kindAgentTurnMetric]

/-- `SHARED_GATED_KINDS`: author-only unless the event opts into sharing. -/
def sharedGatedKinds : List Nat := [kindPersona, kindTeamCatalog]

def isSharedGatedKind (kind : Nat) : Bool := decide (kind ∈ sharedGatedKinds)

def isEphemeral (kind : Nat) : Bool := decide (20000 ≤ kind) && decide (kind ≤ 29999)

/-- `is_parameterized_replaceable`: the NIP-33 range. -/
def isParameterizedReplaceable (kind : Nat) : Bool :=
  decide (30000 ≤ kind) && decide (kind ≤ 39999)

/-! ## Shared events -/

/-- The loop of `event_is_shared`: `none` once a malformed `shared` tag was met, else the number
of `["shared", "true"]` tags so far. -/
def sharedTagCount : List Tag → Nat → Option Nat
  | [], count => some count
  | tag :: tags, count =>
      if tag.name = "shared" then
        if tag.rest = ["true"] then sharedTagCount tags (count + 1) else none
      else sharedTagCount tags count

/-- `event_is_shared`: exactly one `["shared", "true"]` tag and no malformed one. -/
def eventIsShared (event : Event) : Bool :=
  decide (sharedTagCount event.tags 0 = some 1)

theorem shared_of_sharedTagCount {tags : List Tag} {n m : Nat}
    (h : sharedTagCount tags n = some m) (hlt : n < m) :
    ∃ t ∈ tags, t.name = "shared" ∧ t.rest = ["true"] := by
  induction tags generalizing n with
  | nil =>
      obtain rfl := Option.some.inj h
      exact absurd hlt (Nat.lt_irrefl n)
  | cons t tags ih =>
      unfold sharedTagCount at h
      split at h
      · next hname =>
          split at h
          · next hrest => exact ⟨t, List.mem_cons_self, hname, hrest⟩
          · cases h
      · obtain ⟨t', ht', hshared⟩ := ih h hlt
        exact ⟨t', List.mem_cons_of_mem _ ht', hshared⟩

theorem exists_shared_tag {event : Event} (h : eventIsShared event = true) :
    ∃ t ∈ event.tags, t.name = "shared" ∧ t.rest = ["true"] :=
  shared_of_sharedTagCount (of_decide_eq_true h) Nat.zero_lt_one

/-- `is_unshared_gated_event`: a shared-gated event of somebody else that is not shared. -/
def isUnsharedGatedEvent (event : Event) (requester : PublicKey) : Bool :=
  isSharedGatedKind event.kind.asU32 && decide (event.pubkey ≠ requester) &&
    !eventIsShared event

end Core
end Maju
