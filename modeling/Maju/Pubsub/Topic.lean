import Maju.Core.Nostr

/-!
# Topic — scoped event topics and their local refcounts

A relay pod keeps, for each topic, how many of its subscriptions want it.  The first retain of a
topic asks the subscriber task to subscribe, the last release to unsubscribe later.
-/

namespace Maju
namespace Pubsub

open Lib Core

/-- A tenant-local event routing scope. -/
inductive EventTopic where
  | channel (channelId : Uuid)
  | global
  deriving DecidableEq, Repr

/-- A fully qualified event topic. -/
structure EventTopicKey where
  communityId : CommunityId
  topic : EventTopic
  deriving DecidableEq, Repr

abbrev DesiredTopics := HashMap EventTopicKey Nat

namespace DesiredTopics

/-- `topic_refcount`. -/
def refcount (desired : DesiredTopics) (t : EventTopicKey) : Nat := (desired.lookup t).getD 0

/-- The counting part of `retain_topic`; the flag asks for a SUBSCRIBE. -/
def retain (desired : DesiredTopics) (t : EventTopicKey) : DesiredTopics × Bool :=
  let count := desired.refcount t
  (desired.insert t (count + 1), decide (count = 0))

/-- What `release_topic` found. -/
inductive Released where
  | unretained
  | stillWanted
  | becameZero
  deriving DecidableEq, Repr

/-- The counting part of `release_topic`. -/
def release (desired : DesiredTopics) (t : EventTopicKey) : DesiredTopics × Released :=
  match desired.lookup t with
  | none => (desired, .unretained)
  | some count =>
      if count - 1 = 0 then (desired.erase t, .becameZero)
      else (desired.insert t (count - 1), .stillWanted)

theorem refcount_retain (desired : DesiredTopics) (t t' : EventTopicKey) :
    (desired.retain t).1.refcount t' = desired.refcount t' + if t' = t then 1 else 0 := by
  unfold retain refcount
  rw [HashMap.lookup_insert_eq]
  by_cases h : t' = t
  · subst h
    simp
  · simp [h]

theorem refcount_release {desired : DesiredTopics} {t : EventTopicKey}
    (ht : 0 < desired.refcount t) (t' : EventTopicKey) :
    (desired.release t).2 ≠ .unretained ∧
      (desired.release t).1.refcount t' + (if t' = t then 1 else 0) = desired.refcount t' := by
  unfold release
  cases hl : desired.lookup t with
  | none => simp [refcount, hl] at ht
  | some count =>
      have hcount : desired.refcount t = count := by simp [refcount, hl]
      rw [hcount] at ht
      dsimp only
      split
      · refine ⟨by simp, ?_⟩
        unfold refcount
        rw [HashMap.lookup_erase_eq]
        by_cases h : t' = t
        · subst h
          simp only [if_true, Option.getD_none, hl, Option.getD_some]
          omega
        · simp [h]
      · refine ⟨by simp, ?_⟩
        unfold refcount
        rw [HashMap.lookup_insert_eq]
        by_cases h : t' = t
        · subst h
          simp only [if_true, Option.getD_some, hl]
          omega
        · simp [h]

end DesiredTopics

end Pubsub
end Maju
