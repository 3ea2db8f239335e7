import Maju.Db.Rows

/-!
# Gates — who may read what

Two layers guard the gated kinds.  The filter gates refuse a request whose filters could fish for
them; they let filters that name event ids pass.  The event gate `event_visible_to_reader` judges
each event by its kind, author and tags.
-/

namespace Maju
namespace Relay

open Lib Core Db

/-! ## Events -/

def isAuthorOnlyEvent (event : Event) (requester : PublicKey) : Bool :=
  decide (event.kind.asU32 ∈ authorOnlyKinds) && decide (event.pubkey ≠ requester)

def eventVisibleToReader (event : Event) (requester : PublicKey) : Bool :=
  if isAuthorOnlyEvent event requester then false
  else if isUnsharedGatedEvent event requester then false
  else if !readerAuthorizedForEvent event (toHex requester) then false
  else true

theorem eventVisibleToReader_eq_true {event : Event} {requester : PublicKey} :
    eventVisibleToReader event requester = true ↔
      isAuthorOnlyEvent event requester = false ∧ isUnsharedGatedEvent event requester = false ∧
        readerAuthorizedForEvent event (toHex requester) = true := by
  unfold eventVisibleToReader
  cases isAuthorOnlyEvent event requester <;> cases isUnsharedGatedEvent event requester <;>
    cases readerAuthorizedForEvent event (toHex requester) <;> simp

theorem readerAuthorized_of_not_gated {event : Event} {reader : String}
    (h : eventKindU32 event ∉ resultGatedKinds) : readerAuthorizedForEvent event reader = true := by
  simp only [resultGatedKinds, List.mem_cons, List.not_mem_nil, or_false, not_or] at h
  simp [readerAuthorizedForEvent, h.1, h.2]

theorem readerAuthorized_of_gated {event : Event} {reader : String}
    (h : eventKindU32 event ∈ resultGatedKinds) :
    readerAuthorizedForEvent event reader = true ↔ reader ∈ tagValues event "p" := by
  have hgated : ¬(eventKindU32 event ≠ kindDmVisibility ∧
      eventKindU32 event ≠ kindAgentTurnMetric) := by
    rintro ⟨hdm, hmetric⟩
    simp [resultGatedKinds, hdm, hmetric] at h
  rw [tagValues_mem]
  unfold readerAuthorizedForEvent
  dsimp only
  rw [if_neg hgated]
  simp

/-! ## What a filter can match -/

/-- The filter names no kinds, or one of these. -/
def filterCanMatchKinds (gated : List Nat) (f : Filter) : Bool :=
  f.kinds.all fun ks => ks.toList.any fun k => decide (k.asU32 ∈ gated)

def filterCanMatchAuthorOnlyKinds : Filter → Bool := filterCanMatchKinds authorOnlyKinds

def filterCanMatchSharedGatedKinds : Filter → Bool := filterCanMatchKinds sharedGatedKinds

def filterCanMatchResultGatedKinds : Filter → Bool := filterCanMatchKinds resultGatedKinds

theorem filterCanMatchKinds_of_kind {gated : List Nat} {f : Filter} {kind : Kind}
    (hnamed : ∀ kinds, f.kinds = some kinds → kind ∈ kinds.toList) (hkind : kind.asU32 ∈ gated) :
    filterCanMatchKinds gated f = true := by
  unfold filterCanMatchKinds
  cases hk : f.kinds with
  | none => rfl
  | some kinds =>
      rw [Option.all_some, List.any_eq_true]
      exact ⟨kind, hnamed kinds hk, by simpa using hkind⟩

/-! ## Filters that name the reader -/

def eqIgnoreAsciiCase (a b : String) : Bool := decide (toAsciiLowercase a = toAsciiLowercase b)

/-- `#p` is set, not empty, and names nobody but the reader. -/
def pTagIsSelf (f : Filter) (authedPubkeyHex : String) : Bool :=
  (f.genericTags.lookup .p).any fun values =>
    !values.isEmpty && values.toList.all fun v => decide (v = authedPubkeyHex)

/-- `authors` is set, not empty, and names nobody but the reader. -/
def authorsAreSelf (f : Filter) (authedPubkeyHex : String) : Bool :=
  f.authors.any fun authors =>
    !authors.isEmpty && authors.toList.all fun a => eqIgnoreAsciiCase (toHex a) authedPubkeyHex

/-- `ids` is set and not empty. -/
def hasIds (f : Filter) : Bool := f.ids.any fun ids => !ids.isEmpty

def pGatedFiltersAuthorized (filters : List Filter) (authedPubkeyHex : String) : Bool :=
  filters.all fun f =>
    if !filterCanMatchKinds pGatedKinds f then true
    else
      let explicitlyNoIdsExemption := f.kinds.any fun ks =>
        ks.toList.any fun k =>
          decide (k.asU32 = kindDmVisibility) || decide (k.asU32 = kindAgentTurnMetric)
      if !explicitlyNoIdsExemption && hasIds f then true
      else pTagIsSelf f authedPubkeyHex

def engramFiltersAuthorized (filters : List Filter) (authedPubkeyHex : String) : Bool :=
  filters.all fun f =>
    if hasIds f then true
    else if !filterCanMatchKinds [kindAgentEngram] f then true
    else if authorsAreSelf f authedPubkeyHex then true
    else pTagIsSelf f authedPubkeyHex

def authorOnlyFiltersAuthorized (filters : List Filter) (authedPubkeyHex : String) : Bool :=
  filters.all fun f =>
    let targetsOnlyAuthorOnly := f.kinds.any fun ks =>
      !ks.isEmpty && ks.toList.all fun k => decide (k.asU32 ∈ authorOnlyKinds)
    if !targetsOnlyAuthorOnly then true else authorsAreSelf f authedPubkeyHex

def resultGatedCountSafeForPushdown (f : Filter) (authedPubkeyHex : String) : Bool :=
  pTagIsSelf f authedPubkeyHex

theorem toAsciiLowercase_toHex (x : BitVec 256) : toAsciiLowercase (toHex x) = toHex x := by
  unfold toAsciiLowercase toHex
  rw [String.toList_ofList, map_toLower_hexDigits]

theorem eq_of_authorsAreSelf {f : Filter} {reader : PublicKey}
    (h : authorsAreSelf f (toHex reader) = true) :
    ∃ authors, f.authors = some authors ∧ authors.toList ≠ [] ∧
      ∀ a ∈ authors.toList, a = reader := by
  unfold authorsAreSelf at h
  cases ha : f.authors with
  | none => simp [ha] at h
  | some authors =>
      simp only [ha, Option.any_some, Bool.and_eq_true, Bool.not_eq_true', List.all_eq_true] at h
      refine ⟨authors, rfl, ?_, ?_⟩
      · intro hnil
        simp [BTreeSet.isEmpty, hnil] at h
      · intro a hmem
        have heq := h.2 a hmem
        simp only [eqIgnoreAsciiCase, toAsciiLowercase_toHex, decide_eq_true_eq] at heq
        exact toHex_injective heq

end Relay
end Maju
