import Maju.Db.Query

/-!
# Timeline — the rows of a community in query order

A row query sorts what it selects.  Ids are distinct within a community, so the order is total and
strict there, and a query reads a part of one fixed list: the timeline.  The keyset cursor
`(until, before_id)` of a row reads what stands behind that row.
-/

namespace Maju
namespace Db

open Lib Core

/-- The undeleted rows of a community, newest first. -/
def timeline (db : Database) (communityId : CommunityId) : List EventRow :=
  (db.undeleted communityId).insertionSort NewestFirst

variable {db : Database} {communityId : CommunityId} {r s c : EventRow}

theorem mem_timeline : r ∈ timeline db communityId ↔ r ∈ db.undeleted communityId :=
  List.mem_insertionSort NewestFirst

theorem pairwise_timeline (db : Database) (communityId : CommunityId) :
    (timeline db communityId).Pairwise NewestFirst :=
  List.pairwise_insertionSort NewestFirst _

theorem nodup_ids_timeline (db : Database) (communityId : CommunityId) :
    ((timeline db communityId).map fun r => r.event.id).Nodup :=
  ((List.perm_insertionSort NewestFirst _).map _).nodup_iff.2 (db.nodup_undeleted communityId)

theorem nodup_timeline (db : Database) (communityId : CommunityId) :
    (timeline db communityId).Nodup :=
  List.Nodup.of_map _ (nodup_ids_timeline db communityId)

theorem eq_of_id_eq (hr : r ∈ timeline db communityId) (hs : s ∈ timeline db communityId)
    (h : r.event.id = s.event.id) : r = s :=
  List.inj_on_of_nodup_map (nodup_ids_timeline db communityId) hr hs h

theorem eq_of_map_event_eq (db : Database) (communityId : CommunityId) {l₁ l₂ : List EventRow}
    (h₁ : ∀ r ∈ l₁, r ∈ timeline db communityId)
    (h₂ : ∀ r ∈ l₂, r ∈ timeline db communityId)
    (h : l₁.map EventRow.event = l₂.map EventRow.event) : l₁ = l₂ := by
  induction l₁ generalizing l₂ with
  | nil => exact (List.map_eq_nil_iff.1 h.symm).symm
  | cons r l₁ ih =>
      cases l₂ with
      | nil => cases h
      | cons s l₂ =>
          rw [List.map_cons, List.map_cons, List.cons.injEq] at h
          obtain rfl := eq_of_id_eq (h₁ r List.mem_cons_self) (h₂ s List.mem_cons_self)
            (congrArg Event.id h.1)
          rw [ih (fun t ht => h₁ t (List.mem_cons_of_mem _ ht))
            (fun t ht => h₂ t (List.mem_cons_of_mem _ ht)) h.2]

theorem id_eq_of_newestFirst (hrs : NewestFirst r s) (hsr : NewestFirst s r) :
    r.event.id = s.event.id := by
  unfold NewestFirst at hrs hsr
  exact BitVec.eq_of_toNat_eq (by omega)

theorem filter_insertionSort (p : EventRow → Bool) :
    ((db.undeleted communityId).filter p).insertionSort NewestFirst =
      (timeline db communityId).filter p := by
  refine List.Perm.eq_of_pairwise ?_ (List.pairwise_insertionSort NewestFirst _)
    ((pairwise_timeline db communityId).filter _) ?_
  · intro r s hr hs hrs hsr
    have hr' := mem_timeline.2 (List.mem_filter.1 ((List.mem_insertionSort _).1 hr)).1
    exact eq_of_id_eq hr' (List.mem_filter.1 hs).1 (id_eq_of_newestFirst hrs hsr)
  · exact (List.perm_insertionSort _ _).trans ((List.perm_insertionSort NewestFirst _).symm.filter p)

theorem selected_eq_filter (db : Database) (q : EventQuery) :
    selected db q = (timeline db q.communityId).filter q.queryWhere :=
  filter_insertionSort q.queryWhere

/-! ## Behind a row -/

/-- What the keyset cursor of the row `c` asks of another row. -/
def Behind (c r : EventRow) : Prop :=
  r.createdAt < c.createdAt ∨ (r.createdAt = c.createdAt ∧ c.event.id.toNat < r.event.id.toNat)

instance (c r : EventRow) : Decidable (Behind c r) :=
  inferInstanceAs (Decidable (r.createdAt < c.createdAt ∨
    (r.createdAt = c.createdAt ∧ c.event.id.toNat < r.event.id.toNat)))

theorem behind_of_newestFirst (h : NewestFirst c r) (hne : c.event.id ≠ r.event.id) :
    Behind c r := by
  have hne' : c.event.id.toNat ≠ r.event.id.toNat := fun heq => hne (BitVec.eq_of_toNat_eq heq)
  unfold NewestFirst at h
  unfold Behind
  omega

theorem not_behind_of_newestFirst (h : NewestFirst r c) : ¬Behind c r := by
  unfold NewestFirst at h
  unfold Behind
  omega

theorem filter_behind {front back : List EventRow}
    (hsplit : timeline db communityId = front ++ c :: back) (p : EventRow → Bool) :
    (timeline db communityId).filter (fun r => decide (Behind c r) && p r) = back.filter p := by
  have hpairwise := pairwise_timeline db communityId
  have hids := nodup_ids_timeline db communityId
  rw [hsplit] at hpairwise hids ⊢
  obtain ⟨_, hback, hcross⟩ := List.pairwise_append.1 hpairwise
  have hfront : front.filter (fun r => decide (Behind c r) && p r) = [] := by
    rw [List.filter_eq_nil_iff]
    intro r hr
    simp [not_behind_of_newestFirst (hcross r hr c List.mem_cons_self)]
  have hself : (decide (Behind c c) && p c) = false := by
    have : ¬Behind c c := by
      unfold Behind
      omega
    simp [this]
  have hlater : ∀ r ∈ back, Behind c r := by
    intro r hr
    refine behind_of_newestFirst (List.rel_of_pairwise_cons hback hr) ?_
    intro heq
    rw [List.map_append, List.map_cons] at hids
    have hfresh := (List.nodup_cons.1 (List.Nodup.of_append_right hids)).1
    exact hfresh (List.mem_map.2 ⟨r, hr, heq.symm⟩)
  rw [List.filter_append, hfront, List.nil_append, List.filter_cons_of_neg (by simp [hself])]
  refine List.filter_congr ?_
  intro r hr
  simp [hlater r hr]

end Db
end Maju
