import Maju.Relay.Read.Access

/-!
# Count — the COUNT handler

Each filter is counted on its own and the numbers are added.  A filter that the statement is taken
to express exactly, and whose kinds need no event gate, is counted in SQL; any other filter is
counted by fetching at most 5000 candidates and filtering them again.
-/

namespace Maju
namespace Relay

open Lib Core Db

def countFastPath (f : Filter) (authedPubkeyHex : String) : Bool :=
  filterFullyPushable f &&
    (!filterCanMatchAuthorOnlyKinds f || authorsAreSelf f authedPubkeyHex) &&
    !(filterCanMatchResultGatedKinds f && !resultGatedCountSafeForPushdown f authedPubkeyHex) &&
    !filterCanMatchSharedGatedKinds f

/-- The query of a filter with `#h`.  The channel is passed when exactly one channel was
requested, which is not the same as one `#h` value. -/
def countQueryInChannels (community : CommunityId) (reader : PublicKey) (f : Filter)
    (requested accessible : List Uuid) : EventQuery :=
  let authorizedRequested := requested.filter fun ch => decide (ch ∈ accessible)
  let chId := if requested.length = 1 then authorizedRequested.head? else none
  withSharedGate
    (applyChannelScopeToQuery (buildEventQueryFromFilter f community) f chId accessible) f reader

/-- The query of a filter without `#h`. -/
def countQueryAnywhere (community : CommunityId) (reader : PublicKey) (f : Filter)
    (accessible : List Uuid) : EventQuery :=
  withSharedGate
    { buildEventQueryFromFilter f community with channelIds := some accessible } f reader

/-- Count the rows of a query, in SQL or by a bounded scan. -/
def countQuery (db : Database) (reader : PublicKey) (f : Filter) (q : EventQuery) :
    Except String Nat :=
  if countFastPath f (toHex reader) then .ok (countEventsOn db q)
  else
    match queryEventsOn db (applyCountFallbackLimit q) with
    | .error e => .error ("error: " ++ e.display)
    | .ok storedEvents =>
        if countFallbackExceeded storedEvents.length then
          .error "restricted: count filter requires narrower constraints"
        else
          .ok (storedEvents.countP fun se =>
            filtersMatch [f] se && eventVisibleToReader se.event reader)

/-- One iteration of the loop over the filters. -/
def countFilter (db : Database) (lookups : Lookups) (community : CommunityId) (ctx : AuthContext)
    (acc : List Uuid × Nat) (f : Filter) : Except String (List Uuid × Nat) :=
  match extractChannelIdsFromFilters [f] with
  | some requested =>
      match confirmChannels lookups ctx requested acc.1 with
      | .error _ => .error "error: database error"
      | .ok accessible =>
          if (requested.filter fun ch => decide (ch ∈ accessible)).isEmpty then
            .ok (accessible, acc.2)
          else
            (countQuery db ctx.pubkey f
              (countQueryInChannels community ctx.pubkey f requested accessible)).map
              fun n => (accessible, acc.2 + n)
  | none =>
      (countQuery db ctx.pubkey f (countQueryAnywhere community ctx.pubkey f acc.1)).map
        fun n => (acc.1, acc.2 + n)

/-- `handle_count`, by the one message it sends. -/
def handleCount (db : Database) (lookups : Lookups) (community : CommunityId)
    (auth : Option AuthContext) (subId : SubId) (filters : List Filter) : RelayMessage :=
  match auth with
  | none => .closed subId "auth-required: not authenticated"
  | some ctx =>
      let authedPubkeyHex := toHex ctx.pubkey
      if !pGatedFiltersAuthorized filters authedPubkeyHex then
        .closed subId "restricted: p-gated kinds require #p tag matching your pubkey"
      else if !engramFiltersAuthorized filters authedPubkeyHex then
        .closed subId "restricted: agent-engram reads require authors=[self] or #p=[self]"
      else if !authorOnlyFiltersAuthorized filters authedPubkeyHex then
        .closed subId "restricted: author-only kinds require authors=[self]"
      else
        match extractChannelIdsFromFiltersLimited filters with
        | .error _ => .closed subId "restricted: too many explicit channels"
        | .ok _ =>
            match lookups.accessibleChannelIds ctx.pubkey with
            | .error _ => .closed subId "error: database error"
            | .ok ids =>
                match filters.foldlM (countFilter db lookups community ctx) (ctx.narrow ids, 0) with
                | .error message => .closed subId message
                | .ok acc => .count subId acc.2

/-! ## The rows that are counted -/

/-- The query of a filter, whichever branch it takes. -/
def countQueryOf (community : CommunityId) (reader : PublicKey) (f : Filter)
    (accessible : List Uuid) : EventQuery :=
  match extractChannelIdsFromFilters [f] with
  | some requested => countQueryInChannels community reader f requested accessible
  | none => countQueryAnywhere community reader f accessible

/-- The filter names channels, none of which is accessible. -/
def countSkips (f : Filter) (accessible : List Uuid) : Bool :=
  (extractChannelIdsFromFilters [f]).any fun requested =>
    (requested.filter fun ch => decide (ch ∈ accessible)).isEmpty

/-- The rows that a filter counts, given the accessible channels at its turn. -/
def countedRows (db : Database) (community : CommunityId) (reader : PublicKey) (f : Filter)
    (accessible : List Uuid) : List EventRow :=
  let q := countQueryOf community reader f accessible
  if countSkips f accessible || q.matchesNothing then []
  else if countFastPath f (toHex reader) then (db.undeleted community).filter q.countWhere
  else
    (selected db (applyCountFallbackLimit q)).filter fun r =>
      filterMatchOne f r.stored && eventVisibleToReader r.event reader

/-- The accessible channels after the requested channels of a filter were confirmed. -/
def accessAfter (lookups : Lookups) (ctx : AuthContext) (f : Filter) (accessible : List Uuid) :
    Except DbError (List Uuid) :=
  (extractChannelIdsFromFilters [f]).elim (.ok accessible) fun requested =>
    confirmChannels lookups ctx requested accessible

/-- The filters with the accessible channels at their turns. -/
def countTurns (lookups : Lookups) (ctx : AuthContext) :
    List Filter → List Uuid → List (Filter × List Uuid)
  | [], _ => []
  | f :: filters, accessible =>
      let accessible' := (accessAfter lookups ctx f accessible).toOption.getD accessible
      (f, accessible') :: countTurns lookups ctx filters accessible'

/-- The rows that the filters count, in turn. -/
def counted (db : Database) (lookups : Lookups) (community : CommunityId) (ctx : AuthContext)
    (filters : List Filter) (ids : List Uuid) : List EventRow :=
  (countTurns lookups ctx filters (ctx.narrow ids)).flatMap fun turn =>
    countedRows db community ctx.pubkey turn.1 turn.2

section Counted

variable {db : Database} {lookups : Lookups} {community : CommunityId} {ctx : AuthContext}

theorem countQueryOf_defaults (community : CommunityId) (reader : PublicKey) (f : Filter)
    (accessible : List Uuid) :
    (countQueryOf community reader f accessible).communityId = community ∧
      (countQueryOf community reader f accessible).offset = none := by
  unfold countQueryOf countQueryInChannels countQueryAnywhere
  split
  · dsimp only
    rw [withSharedGate_eq, applyChannelScopeToQuery_eq]
    exact ⟨rfl, rfl⟩
  · rw [withSharedGate_eq]
    exact ⟨rfl, rfl⟩

theorem countQuery_fallback {reader : PublicKey} {f : Filter} {q : EventQuery} {n : Nat}
    (hoffset : q.offset = none) (hfast : countFastPath f (toHex reader) = false)
    (h : countQuery db reader f q = .ok n) :
    n = if q.matchesNothing then 0 else
      (selected db (applyCountFallbackLimit q)).countP fun r =>
        filterMatchOne f r.stored && eventVisibleToReader r.event reader := by
  unfold countQuery at h
  rw [hfast] at h
  simp only [Bool.false_eq_true, if_false] at h
  cases hq : queryEventsOn db (applyCountFallbackLimit q) with
  | error e =>
      rw [hq] at h
      cases h
  | ok events =>
      simp only [hq] at h
      split at h
      · cases h
      · next hbudget =>
          obtain rfl := Except.ok.inj h
          have hoffset' : (applyCountFallbackLimit q).offset = none := hoffset
          obtain rfl := queryEventsOn_ok hoffset' hq
          have hfetch : (applyCountFallbackLimit q).fetchSize =
              if q.matchesNothing then 0 else countFallbackCandidateLimit + 1 := rfl
          simp only [countFallbackExceeded, decide_eq_true_eq, Nat.not_lt, List.length_map,
            page, hfetch] at hbudget ⊢
          split
          · rfl
          · next hsome =>
              rw [if_neg hsome, List.length_take] at hbudget
              rw [List.take_of_length_le (by omega), List.countP_map]
              simp [Function.comp_def, filtersMatch, EventRow.stored]

theorem countQuery_eq {f : Filter} {accessible : List Uuid} {n : Nat}
    (hskip : countSkips f accessible = false)
    (h : countQuery db ctx.pubkey f (countQueryOf community ctx.pubkey f accessible) = .ok n) :
    n = (countedRows db community ctx.pubkey f accessible).length := by
  obtain ⟨hcommunity, hoffset⟩ := countQueryOf_defaults community ctx.pubkey f accessible
  unfold countedRows
  dsimp only
  rw [hskip, Bool.false_or]
  cases hfast : countFastPath f (toHex ctx.pubkey) with
  | true =>
      rw [countQuery, if_pos hfast] at h
      obtain rfl := Except.ok.inj h
      unfold countEventsOn
      rw [hcommunity]
      split
      · rfl
      · rw [if_pos rfl, List.countP_eq_length_filter]
  | false =>
      rw [countQuery_fallback hoffset hfast h]
      split
      · rfl
      · rw [if_neg (by simp), List.countP_eq_length_filter]

theorem countFilter_ok {acc acc' : List Uuid × Nat} {f : Filter}
    (h : countFilter db lookups community ctx acc f = .ok acc') :
    accessAfter lookups ctx f acc.1 = .ok acc'.1 ∧
      acc'.2 = acc.2 + (countedRows db community ctx.pubkey f acc'.1).length := by
  unfold countFilter at h
  unfold accessAfter
  cases hx : extractChannelIdsFromFilters [f] with
  | none =>
      simp only [hx] at h
      have hskip : countSkips f acc.1 = false := by simp [countSkips, hx]
      cases hn : countQuery db ctx.pubkey f (countQueryAnywhere community ctx.pubkey f acc.1) with
      | error e =>
          rw [hn] at h
          cases h
      | ok n =>
          rw [hn] at h
          obtain rfl := Except.ok.inj h
          refine ⟨rfl, ?_⟩
          rw [← countQuery_eq hskip (n := n)]
          rw [countQueryOf, hx]
          exact hn
  | some requested =>
      simp only [hx] at h
      rw [Option.elim_some]
      cases hconfirm : confirmChannels lookups ctx requested acc.1 with
      | error e =>
          rw [hconfirm] at h
          cases h
      | ok accessible =>
          simp only [hconfirm] at h
          split at h
          · next hempty =>
              obtain rfl := Except.ok.inj h
              refine ⟨rfl, ?_⟩
              have hskip : countSkips f accessible = true := by
                rw [countSkips, hx]
                exact hempty
              simp [countedRows, hskip]
          · next hsome =>
              have hskip : countSkips f accessible = false := by
                rw [countSkips, hx]
                simpa using hsome
              cases hn : countQuery db ctx.pubkey f
                  (countQueryInChannels community ctx.pubkey f requested accessible) with
              | error e =>
                  rw [hn] at h
                  cases h
              | ok n =>
                  rw [hn] at h
                  obtain rfl := Except.ok.inj h
                  refine ⟨rfl, ?_⟩
                  rw [← countQuery_eq hskip (n := n)]
                  rw [countQueryOf, hx]
                  exact hn

theorem foldlM_countFilter {filters : List Filter} {acc acc' : List Uuid × Nat}
    (h : filters.foldlM (countFilter db lookups community ctx) acc = .ok acc') :
    acc'.2 = acc.2 + ((countTurns lookups ctx filters acc.1).flatMap fun turn =>
      countedRows db community ctx.pubkey turn.1 turn.2).length := by
  induction filters generalizing acc with
  | nil =>
      obtain rfl := Except.ok.inj h
      simp [countTurns]
  | cons f filters ih =>
      rw [List.foldlM_cons] at h
      cases hstep : countFilter db lookups community ctx acc f with
      | error e =>
          rw [hstep] at h
          cases h
      | ok next =>
          rw [hstep] at h
          obtain ⟨haccess, htotal⟩ := countFilter_ok hstep
          have hrest := ih h
          simp only [countTurns, haccess, Except.toOption, Option.getD_some, List.flatMap_cons,
            List.length_append]
          omega

theorem handleCount_count {auth : Option AuthContext} {subId : SubId} {filters : List Filter}
    {subId' : SubId} {total : Nat}
    (h : handleCount db lookups community auth subId filters = .count subId' total) :
    ∃ ctx ids, auth = some ctx ∧ lookups.accessibleChannelIds ctx.pubkey = .ok ids ∧
      total = (counted db lookups community ctx filters ids).length := by
  unfold handleCount at h
  cases auth with
  | none => cases h
  | some ctx =>
      dsimp only at h
      split at h
      · cases h
      · split at h
        · cases h
        · split at h
          · cases h
          · split at h
            · cases h
            · cases hids : lookups.accessibleChannelIds ctx.pubkey with
              | error e =>
                  rw [hids] at h
                  cases h
              | ok ids =>
                  simp only [hids] at h
                  split at h
                  · cases h
                  · next acc hfold =>
                      cases h
                      refine ⟨ctx, ids, rfl, hids, ?_⟩
                      rw [foldlM_countFilter hfold, Nat.zero_add]
                      rfl

end Counted

end Relay
end Maju
