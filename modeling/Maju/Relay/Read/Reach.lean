import Maju.Relay.Read.History
import Maju.Relay.Read.Pushdown

/-!
# Reach — which readable rows the history statement selects

A row that the filter accepts and the reader may see is still lost when the statement does not
select it, or when its channel is not among those that the request knows of.  `Reached` names what
such a row needs, field by field; for all the other fields the statement is at least as wide as
the filter.
-/

namespace Maju
namespace Relay

open Lib Core Db

/-! ## The channels of a request -/

/-- The request knows of the channel: it is in the cache, which a membership-list request does not
read, or a filter names it and the database confirms it. -/
def Lookups.knows (lookups : Lookups) (ctx : AuthContext) (filters : List Filter) (ch : Uuid) :
    Bool :=
  ctx.tokenAllows ch &&
    ((!filtersAreNip43MembershipOnly filters &&
        (lookups.accessibleChannelIds ctx.pubkey).toOption.any (fun ids => decide (ch ∈ ids))) ||
      (decide (ch ∈ (extractChannelIdsFromFilters filters).getD []) &&
        (lookups.isMember ch ctx.pubkey).toOption.any id))

section Route

variable {lookups : Lookups} {ctx : AuthContext} {subs : HashMap SubId (List Filter)}
  {subId : SubId} {filters : List Filter} {accessible : List Uuid}

theorem routeResolved_accessible {requested : Option (List Uuid)} {resolved : List Uuid}
    (h : routeResolved ctx subId filters requested resolved = .history accessible ∨
      routeResolved ctx subId filters requested resolved = .search accessible) :
    resolved = accessible := by
  unfold routeResolved at h
  dsimp only at h
  split at h
  · simp at h
  · split at h
    · simp at h
    · split at h
      · simp at h
      · split at h
        · split at h
          · simp at h
          · simpa using h
        · simpa using h

theorem routeReq_accessible
    (h : routeReq lookups (some ctx) subs subId filters = .history accessible ∨
      routeReq lookups (some ctx) subs subId filters = .search accessible) :
    ∃ ids, (if filtersAreNip43MembershipOnly filters then .ok []
          else lookups.accessibleChannelIds ctx.pubkey) = .ok ids ∧
      confirmChannels lookups ctx ((extractChannelIdsFromFilters filters).getD [])
        (ctx.narrow ids) = .ok accessible := by
  unfold routeReq at h
  dsimp only at h
  split at h
  · simp at h
  · split at h
    · simp at h
    · split at h
      · simp at h
      · next requested hrequested =>
          obtain rfl : requested = extractChannelIdsFromFilters filters := by
            unfold extractChannelIdsFromFiltersLimited at hrequested
            dsimp only at hrequested
            split at hrequested
            · cases hrequested
            · exact (Except.ok.inj hrequested).symm
          split at h
          · simp at h
          · next ids hids =>
              split at h
              · simp at h
              · next resolved hresolved =>
                  rw [routeResolved_accessible h] at hresolved
                  exact ⟨ids, hids, hresolved⟩

theorem mem_accessible_iff
    (h : routeReq lookups (some ctx) subs subId filters = .history accessible ∨
      routeReq lookups (some ctx) subs subId filters = .search accessible) (ch : Uuid) :
    ch ∈ accessible ↔ lookups.knows ctx filters ch = true := by
  obtain ⟨ids, hids, hconfirm⟩ := routeReq_accessible h
  have hmember : (lookups.isMember ch ctx.pubkey).toOption.any id = true ↔
      lookups.isMember ch ctx.pubkey = .ok true := by
    cases lookups.isMember ch ctx.pubkey <;> simp [Except.toOption]
  rw [mem_confirmChannels hconfirm, AuthContext.narrow, List.mem_filter, Lookups.knows]
  simp only [Bool.and_eq_true, Bool.or_eq_true, hmember, decide_eq_true_eq, Bool.not_eq_true']
  cases hnip : filtersAreNip43MembershipOnly filters with
  | true =>
      rw [hnip, if_pos rfl] at hids
      obtain rfl := Except.ok.inj hids
      simp only [List.not_mem_nil, false_and, false_or, Bool.true_eq_false]
      tauto
  | false =>
      rw [hnip, if_neg (by simp)] at hids
      simp only [hids, Except.toOption, Option.any_some, decide_eq_true_eq]
      tauto

theorem mayAccess_of_knows {ch : Uuid} (h : lookups.knows ctx filters ch = true) :
    lookups.mayAccess ctx ch = true := by
  simp only [Lookups.knows, Lookups.mayAccess, Bool.and_eq_true, Bool.or_eq_true] at h ⊢
  exact ⟨h.1, h.2.imp And.right And.right⟩

theorem routeReq_again (h : routeReq lookups (some ctx) subs subId filters = .history accessible)
    (registered : List Filter) :
    routeReq lookups (some ctx) (subs.insert subId registered) subId filters =
      .history accessible := by
  unfold routeReq at h ⊢
  dsimp only at h ⊢
  split at h
  · cases h
  · next hscope =>
      rw [if_neg hscope, if_neg (by simp)]
      split at h
      · cases h
      · exact h

end Route

/-! ## The channel scope -/

section Scope

variable {f : Filter} {values : BTreeSet String} {accessible : List Uuid} {r : EventRow}

theorem singleChannel_some (channels : List Uuid) (c : Uuid) :
    singleChannel channels (some c) = if ∀ ch ∈ channels, ch = c then some (some c) else none := by
  induction channels with
  | nil => simp [singleChannel]
  | cons ch channels ih =>
      have hstep : singleChannel (ch :: channels) (some c) =
          if c ≠ ch then none else singleChannel channels (some ch) := by
        unfold singleChannel
        rw [List.foldlM_cons]
        by_cases heq : c ≠ ch <;> simp [heq]
      rw [hstep]
      by_cases heq : c = ch
      · subst heq
        simp [ih]
      · simp [heq, Ne.symm heq]

/-- The channel that history passes to the scoping of a filter. -/
def historyChannel (f : Filter) : Option Uuid :=
  (extractChannelIdFromFilter f).or (extractChannelIdFromFilters [f])

theorem historyChannel_anywhere (h : hValues f = none) : historyChannel f = none := by
  simp [historyChannel, extractChannelIdFromFilter, extractChannelIdFromFilters, h]

theorem historyChannel_some (h : hValues f = some values) {c : Uuid}
    (hc : historyChannel f = some c) (ch : Uuid) : ch ∈ parsedChannels values ↔ ch = c := by
  unfold historyChannel at hc
  rcases Option.or_eq_some_iff.1 hc with hsingle | ⟨_, hall⟩
  · rw [extractChannelId_of_len h] at hsingle
    split at hsingle
    · next hlen =>
        have hle : (parsedChannels values).length ≤ 1 :=
          (List.length_filterMap_le _ _).trans (Nat.le_of_eq hlen)
        cases hp : parsedChannels values with
        | nil => simp [hp] at hsingle
        | cons c' rest =>
            rw [hp] at hsingle hle
            obtain rfl := Option.some.inj hsingle
            obtain rfl : rest = [] := List.eq_nil_of_length_eq_zero (by simpa using hle)
            simp
    · cases hsingle
  · simp only [extractChannelIdFromFilters, List.foldlM_cons, h, Option.elim_some] at hall
    cases hp : parsedChannels values with
    | nil => simp [hp] at hall
    | cons c' rest =>
        rw [hp, singleChannel, List.foldlM_cons] at hall
        change ((singleChannel rest (some c') >>= _).getD none) = some c at hall
        rw [singleChannel_some] at hall
        split at hall
        · next heq =>
            have hcc : some c' = some c := hall
            obtain rfl := Option.some.inj hcc
            rw [List.mem_cons]
            constructor
            · rintro (rfl | hmem)
              · rfl
              · exact heq ch hmem
            · exact Or.inl
        · cases hall

theorem historyQuery_eq (community : CommunityId) (reader : PublicKey) (accessible : List Uuid)
    (f : Filter) (beforeId : Option EventId) :
    historyQuery community reader (extractChannelIdFromFilters [f]) accessible f beforeId =
      { filterToQueryParams f (historyChannel f) community with
        beforeId := beforeId
        channelIds := scopedChannelIds (filterToQueryParams f (historyChannel f) community) f
          (historyChannel f) accessible
        channelIdsIncludeGlobal :=
          if (historyChannel f).isSome || (hValues f).isNone then true else false
        sharedGatedReader := if filterCanMatchSharedGatedKinds f then some reader else none } := by
  unfold historyQuery
  dsimp only
  rw [withSharedGate_eq, applyChannelScopeToQuery_eq]
  rfl

/-- Of a row in an accessible channel, the scope asks that it is filed in a channel that the
filter names. -/
theorem historyScope_iff (community : CommunityId) (reader : PublicKey)
    (haccess : accessibleRow accessible r = true) (beforeId : Option EventId) :
    (historyQuery community reader (extractChannelIdFromFilters [f]) accessible f
          beforeId).channelClause r = true ∧
        (historyQuery community reader (extractChannelIdFromFilters [f]) accessible f
          beforeId).channelIdsClause r = true ↔
      ∀ values, hValues f = some values → InRequested values r := by
  rw [historyQuery_eq]
  simp only [EventQuery.channelClause, EventQuery.channelIdsClause, scopedChannelIds]
  have hparams : (filterToQueryParams f (historyChannel f) community).channelId =
      historyChannel f ∧ (filterToQueryParams f (historyChannel f) community).channelIds = none ∧
      (filterToQueryParams f (historyChannel f) community).globalOnly = false := ⟨rfl, rfl, rfl⟩
  rw [hparams.1, hparams.2.1, hparams.2.2]
  cases h : hValues f with
  | none =>
      rw [historyChannel_anywhere h]
      unfold accessibleRow at haccess
      cases hr : r.channelId with
      | none => simp
      | some ch =>
          rw [hr] at haccess
          simpa using haccess
  | some values =>
      simp only [Option.some.injEq, forall_eq', InRequested]
      cases hc : historyChannel f with
      | some c =>
          simp only [Option.isSome_some, if_true, Option.all_none, and_true, decide_eq_true_eq,
            historyChannel_some h hc, exists_eq_left]
      | none =>
          unfold accessibleRow at haccess
          cases hr : r.channelId with
          | none => simp
          | some ch =>
              rw [hr] at haccess
              have hmem : ch ∈ accessible := by simpa using haccess
              simp [hmem]

end Scope

/-! ## Reached rows -/

/-- What a readable row needs to be selected for history: the request knows of its channel, the
upper bound does not wrap to a time before the epoch, the mention index has the single `#p` value,
the first `d` tag is among the `#d` values, and it is filed in a channel that the filter names. -/
structure Reached (lookups : Lookups) (ctx : AuthContext) (f : Filter) (r : EventRow) : Prop where
  known : ∀ ch, r.channelId = some ch → lookups.knows ctx [f] ch = true
  untilAt : ∀ untilAt, f.untilAt = some untilAt →
    asI64 untilAt < minTimestamp ∨ 0 ≤ asI64 untilAt
  mention : ∀ values, f.genericTags.lookup .p = some values → ∀ v, values.toList = [v] →
    toAsciiLowercase v ∈ mentions r.event
  address : isNip33Only f = true → ∀ values, f.genericTags.lookup .d = some values →
    ∃ d ∈ values.toList, extractDTag r.event = some d
  channel : ∀ values, hValues f = some values → InRequested values r

section Reached

variable {lookups : Lookups} {ctx : AuthContext} {subs : HashMap SubId (List Filter)}
  {subId : SubId} {f : Filter} {accessible : List Uuid} {community : CommunityId} {r : EventRow}

theorem untilClause_iff_not_wrapped {ch : Option Uuid}
    (haccepts : ∀ u, f.untilAt = some u → r.event.createdAt.toNat ≤ u.toNat) :
    (filterToQueryParams f ch community).untilClause r = true ↔
      ∀ u, f.untilAt = some u → asI64 u < minTimestamp ∨ 0 ≤ asI64 u := by
  have huntil : (filterToQueryParams f ch community).untilAt =
      f.untilAt.bind fun u => fromTimestamp (asI64 u) := rfl
  unfold EventQuery.untilClause
  rw [huntil]
  cases hu : f.untilAt with
  | none => simp
  | some u =>
      have hle := haccepts u hu
      have hlt : u.toNat < 2 ^ 64 := u.toNat_lt
      simp only [Option.bind_some, Option.some.injEq, forall_eq']
      unfold fromTimestamp
      split
      · next hrange =>
          rw [Option.all_some, decide_eq_true_eq, EventRow.createdAt]
          by_cases hsigned : u.toNat < 2 ^ 63
          · simp only [asI64, if_pos hsigned] at hrange ⊢
            omega
          · simp only [asI64, if_neg hsigned] at hrange ⊢
            omega
      · next hrange =>
          simp only [Option.all_none, true_iff]
          unfold maxTimestamp at hrange
          omega

/-- A wanted row is accessible to the request and selected by its statement, if and only if it is
reached. -/
theorem reached_iff
    (hroute : routeReq lookups (some ctx) subs subId [f] = .history accessible)
    (hwanted : wantedRow lookups ctx f r = true) :
    accessibleRow accessible r = true ∧
        (historyQuery community ctx.pubkey (extractChannelIdFromFilters [f]) accessible f
          none).queryWhere r = true ↔
      Reached lookups ctx f r := by
  simp only [wantedRow, filtersMatch_singleton, Bool.and_eq_true] at hwanted
  obtain ⟨⟨hmatch, _⟩, hvisible⟩ := hwanted
  have haccepts := filterMatchOne_iff.1 hmatch
  have hknown : accessibleRow accessible r = true ↔
      ∀ ch, r.channelId = some ch → lookups.knows ctx [f] ch = true := by
    simp only [accessibleRow, Option.all_eq_true, decide_eq_true_eq, mem_accessible_iff (Or.inl hroute)]
  have hcustom : (historyQuery community ctx.pubkey (extractChannelIdFromFilters [f]) accessible f
      none).customTagClause r = true := by
    rw [historyQuery_eq]
    rfl
  have hshared : (historyQuery community ctx.pubkey (extractChannelIdFromFilters [f]) accessible f
      none).sharedClause r = true := by
    refine sharedClause_of_visible ?_ hvisible
    rw [historyQuery_eq]
    cases filterCanMatchSharedGatedKinds f <;> simp
  have huntil : (historyQuery community ctx.pubkey (extractChannelIdFromFilters [f]) accessible f
      none).cursorClause r = true ↔
        ∀ u, f.untilAt = some u → asI64 u < minTimestamp ∨ 0 ≤ asI64 u := by
    have hclause : (filterToQueryParams f (historyChannel f) community).untilClause r = true ↔ _ :=
      untilClause_iff_not_wrapped haccepts.untilAt
    rw [historyQuery_eq, ← hclause]
    rfl
  have hne : ∀ key values, f.genericTags.lookup key = some values → key.toString ≠ "h" →
      values.toList ≠ [] := by
    intro key values hl hkey hnil
    obtain ⟨v, hv, _⟩ := (genericTagMatches_of_ne_h hkey).1 (haccepts.tags key values hl)
    simp [hnil] at hv
  have hfields : FieldsHold (historyQuery community ctx.pubkey (extractChannelIdFromFilters [f])
        accessible f none) r ↔
      (∀ values, f.genericTags.lookup .p = some values → ∀ v, values.toList = [v] →
          toAsciiLowercase v ∈ mentions r.event) ∧
        (isNip33Only f = true → ∀ values, f.genericTags.lookup .d = some values →
          ∃ d ∈ values.toList, extractDTag r.event = some d) := by
    rw [historyQuery_eq]
    have hkinds : (filterToQueryParams f (historyChannel f) community).kindsClause r = true :=
      (kindsClause_iff.2 haccepts.kinds).1
    have hauthors : (filterToQueryParams f (historyChannel f) community).pubkeyClause r = true ∧
        (filterToQueryParams f (historyChannel f) community).authorsClause r = true :=
      (authorsClauses_iff fun authors hs =>
        List.ne_nil_of_mem (haccepts.authors authors hs)).2 haccepts.authors
    have hids : (filterToQueryParams f (historyChannel f) community).idsClause r = true :=
      (idsClause_iff fun ids hs => List.ne_nil_of_mem (haccepts.ids ids hs)).2 haccepts.ids
    have heTags : (filterToQueryParams f (historyChannel f) community).eTagsClause r = true :=
      (eTagsClause_iff (fun values hl => hne .e values hl (by decide)) (fun values hl _ =>
        (genericTagMatches_of_ne_h (by decide)).1 (haccepts.tags .e values hl))).2
        (haccepts.tags .e)
    have hsince : (filterToQueryParams f (historyChannel f) community).sinceClause r = true := by
      refine (sinceClause_iff ?_).2 haccepts.since
      intro s hs
      have hfits := r.fits
      have := haccepts.since s hs
      have hle : s.toNat ≤ r.event.createdAt.toNat := this
      omega
    have hmention : (filterToQueryParams f (historyChannel f) community).mentionsClause r = true ↔
        _ := mentionsClause_iff_indexed
    have hdTag : (filterToQueryParams f (historyChannel f) community).dTagClause r = true ↔ _ :=
      dTagClause_iff_column fun values hl => hne .d values hl (by decide)
    constructor
    · rintro ⟨hm, _, _, _, _, _, hd⟩
      exact ⟨hmention.1 hm, hdTag.1 hd⟩
    · rintro ⟨hm, hd⟩
      exact ⟨hmention.2 hm, hkinds, hauthors, hids, heTags, hsince, hdTag.2 hd⟩
  simp only [EventQuery.queryWhere, Bool.and_eq_true, commonWhere_iff, hcustom, hshared, huntil,
    hfields, and_true]
  constructor
  · rintro ⟨haccess, ⟨⟨hmention, haddress⟩, hscope⟩, hbound⟩
    exact ⟨hknown.1 haccess, hbound, hmention, haddress,
      (historyScope_iff community ctx.pubkey haccess none).1 hscope⟩
  · intro h
    have haccess := hknown.2 h.known
    exact ⟨haccess, ⟨⟨h.mention, h.address⟩,
      (historyScope_iff community ctx.pubkey haccess none).2 h.channel⟩, h.untilAt⟩

end Reached

end Relay
end Maju
