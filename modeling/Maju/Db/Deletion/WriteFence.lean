import Maju.Db.Deletion.ServingLeases
import Maju.Lib.Slots
import Maju.Lib.Trace

/-!
# WriteFence — what the community lock and the fence generation guarantee

The log of a run lists the committed effects.  A transaction decides what it writes some time
before it commits, but it holds the lock in between, so what it decided is still right:

* `Effect.Sound` — what an effect that is about to be committed says about the rows;
* `Inv` — the lock is exclusive, every pending effect is sound, and the log agrees with the rows;
* `serving_write_fence` — the guarantees for every run from any rows.
-/

namespace Maju
namespace Db
namespace Deletion

open Lib

namespace Effect

def IsAdmission : Effect → Prop
  | .acquired _ | .mutated => True
  | _ => False

/-- Anything that a serving process does. -/
def IsServing : Effect → Prop
  | .acquired _ | .renewed _ _ | .verified _ | .mutated | .mutatedUnder _ => True
  | _ => False

def IsQuiesce : Effect → Prop
  | .quiesced _ => True
  | _ => False

def IsFence : Effect → Prop
  | .fenced _ => True
  | _ => False

def IsAbort : Effect → Prop
  | .aborted _ => True
  | _ => False

/-- A transition that ends the generation of the leases before it. -/
def IsBarrier (e : Effect) : Prop := e.IsFence ∨ e.IsAbort

/-- The lease that an effect was admitted with. -/
def used : Effect → Option ServingWriteLease
  | .renewed lease _ | .verified lease | .mutatedUnder lease => some lease
  | _ => none

def mode : Effect → Mode
  | .quiesced _ | .fenced _ | .aborted _ => .exclusive
  | _ => .shared

end Effect

/-- Two records of one lease row; a renewal changes the expiry only. -/
structure ServingWriteLease.Same (a b : ServingWriteLease) : Prop where
  id : a.id = b.id
  owner : a.owner = b.owner
  generation : a.generation = b.generation
  fenceGeneration : a.fenceGeneration = b.fenceGeneration

/-- The lease was acquired before a fence or an abort of the log. -/
def Outdated (log : List Effect) (lease : ServingWriteLease) : Prop :=
  ∃ before e after, log = before ++ e :: after ∧ e.IsBarrier ∧ .acquired lease ∈ before

/-- The community accepts the uses of existing leases. -/
def Store.Serves (s : Store) : Prop :=
  s.community.deletionState = .active ∨ s.community.deletionState = .quiescing

/-- The guarantees of the fence, in a state of the system.  No lease is acquired and no plain
mutation committed between quiescing and an abort, and nothing is served between a fence and an
abort; a fence commits only when no lease is unexpired at the start of its transaction; a lease from
before a fence or an abort is not valid at any time, and nothing admitted with it is committed
afterwards; every fence and every abort raises the generation. -/
structure WriteFence (s : System) : Prop where
  admissions : AtEach (fun before e => e.IsAdmission →
    ¬ Since Effect.IsQuiesce Effect.IsAbort before) s.log
  serving : AtEach (fun before e => e.IsServing →
    ¬ Since Effect.IsFence Effect.IsAbort before) s.log
  drained : ∀ i drawn tx after, s.txs[i]? = some tx → tx.phase = .ready (.fenced after) →
    ∀ lease ∈ (s.step (.advance i drawn)).store.leases, lease.leaseUntil < tx.start
  invalid : ∀ lease, Outdated s.log lease → ∀ used, lease.Same used → ∀ now,
    s.store.leaseValid now used = false
  unused : AtEach (fun before e => ∀ used, e.used = some used →
    ∀ lease, Outdated before lease → ¬ lease.Same used) s.log
  generation : ∀ i drawn tx e, s.txs[i]? = some tx → tx.phase = .ready e → e.IsBarrier →
    s.store.community.deletionFenceGeneration <
      (s.step (.advance i drawn)).store.community.deletionFenceGeneration

/-! ## Sound effects -/

/-- What a pending effect says about the rows it is to be applied to. -/
def Effect.Sound (s : Store) (start : Int) : Effect → Prop
  | .acquired lease =>
      s.community.deletionState = .active ∧
        lease.fenceGeneration = s.community.deletionFenceGeneration
  | .renewed lease _ | .verified lease | .mutatedUnder lease =>
      s.Serves ∧ lease.fenceGeneration = s.community.deletionFenceGeneration
  | .mutated => s.community.deletionState = .active
  | .quiesced after =>
      s.Serves ∧ after.community.deletionState = .quiescing ∧
        after.community.deletionFenceGeneration = s.community.deletionFenceGeneration
  | .fenced after =>
      after.community.deletionState = .fenced ∧
        s.community.deletionFenceGeneration < after.community.deletionFenceGeneration ∧
        ∀ lease ∈ s.leases, lease.leaseUntil < start
  | .aborted after =>
      s.community.deletionFenceGeneration < after.community.deletionFenceGeneration

namespace Store

variable {s : Store} {now : Int}

theorem leaseValid_iff {lease : ServingWriteLease} :
    s.leaseValid now lease = true ↔
      s.community.deletedAt = none ∧ s.Serves ∧
        s.community.deletionFenceGeneration = lease.fenceGeneration ∧
        ∃ row ∈ s.leases, row.Same lease ∧ now ≤ row.leaseUntil := by
  simp only [leaseValid, List.any_eq_true, Bool.and_eq_true, Bool.or_eq_true, decide_eq_true_eq,
    Option.isNone_iff_eq_none, Serves]
  constructor
  · rintro ⟨row, hrow, ⟨⟨⟨⟨⟨⟨hid, howner⟩, hgen⟩, hfence⟩, hnow⟩, hdeleted⟩, hstate⟩, hcurrent⟩
    exact ⟨hdeleted, hstate, hcurrent.trans hfence, row, hrow, ⟨hid, howner, hgen, hfence⟩, hnow⟩
  · rintro ⟨hdeleted, hstate, hcurrent, row, hrow, ⟨hid, howner, hgen, hfence⟩, hnow⟩
    exact ⟨row, hrow, ⟨⟨⟨⟨⟨⟨hid, howner⟩, hgen⟩, hfence⟩, hnow⟩, hdeleted⟩, hstate⟩,
      hcurrent.trans hfence.symm⟩

theorem activeLeases_eq_nil (h : ¬ 0 < (s.activeLeases now).length) :
    ∀ lease ∈ s.leases, lease.leaseUntil < now := by
  have hnil : s.activeLeases now = [] := List.length_eq_zero_iff.1 (Nat.eq_zero_of_not_pos h)
  intro lease hlease
  have hexpired := List.filter_eq_nil_iff.1 hnil lease hlease
  exact Int.not_le.1 (by simpa using hexpired)

theorem lt_of_nextGeneration {generation next : Int} (h : nextGeneration generation = some next) :
    generation < next := by
  simp only [nextGeneration] at h
  split at h
  · cases h
    exact Int.lt_succ generation
  · cases h

theorem beginQuiescing_sound {token : LeaseToken} {after : Transition}
    (h : s.beginQuiescing now token = .ok after) :
    s.Serves ∧ after.community.deletionState = .quiescing ∧
      after.community.deletionFenceGeneration = s.community.deletionFenceGeneration := by
  simp only [beginQuiescing] at h
  cases hverify : s.verifyLease now token .approved with
  | error e => simp [hverify, bind, Except.bind] at h
  | ok request =>
      simp only [hverify, bind, Except.bind] at h
      split at h
      next hstate =>
        cases h
        exact ⟨by simpa [Serves] using (Bool.and_eq_true_iff.1 hstate).1, rfl, rfl⟩
      next => cases h

theorem fence_sound {token : LeaseToken} {after : Transition}
    (h : s.fence now token = .ok after) :
    after.community.deletionState = .fenced ∧
      s.community.deletionFenceGeneration < after.community.deletionFenceGeneration ∧
      ∀ lease ∈ s.leases, lease.leaseUntil < now := by
  simp only [fence] at h
  cases hverify : s.verifyLease now token .approved with
  | error e => simp [hverify, bind, Except.bind] at h
  | ok request =>
      simp only [hverify, bind, Except.bind] at h
      split at h
      next => cases h
      next hnone =>
        split at h
        next => cases h
        next generation hgeneration =>
          split at h
          next =>
            cases h
            exact ⟨rfl, lt_of_nextGeneration hgeneration, activeLeases_eq_nil hnone⟩
          next => cases h

theorem abort_sound {request : Core.Uuid} {after : Transition}
    (h : s.abort now request = .ok after) :
    s.community.deletionFenceGeneration < after.community.deletionFenceGeneration := by
  simp only [abort] at h
  split at h
  next => cases h
  next =>
    split at h
    next => cases h
    next =>
      split at h
      next => cases h
      next =>
        split at h
        next => cases h
        next generation hgeneration =>
          split at h
          next =>
            cases h
            exact lt_of_nextGeneration hgeneration
          next => cases h

theorem acquireServingWriteLease_sound {id : Core.Uuid} {operation owner : Text} {seconds : Nat}
    {lease : ServingWriteLease}
    (h : s.acquireServingWriteLease now id operation owner seconds = .ok lease) :
    s.community.deletionState = .active ∧
      lease.fenceGeneration = s.community.deletionFenceGeneration := by
  simp only [acquireServingWriteLease] at h
  split at h
  next => cases h
  next =>
    split at h
    next hactive =>
      split at h
      next => cases h
      next =>
        cases h
        exact ⟨by simpa using (Bool.and_eq_true_iff.1 hactive).1, rfl⟩
    next => cases h

theorem guardTransaction_sound (h : s.guardTransaction = .ok ()) :
    s.community.deletionState = .active := by
  simp only [guardTransaction] at h
  split at h
  next => cases h
  next =>
    split at h
    next hactive => exact hactive
    next => cases h

theorem serves_of_leaseValid {lease : ServingWriteLease} (h : s.leaseValid now lease = true) :
    s.Serves ∧ lease.fenceGeneration = s.community.deletionFenceGeneration := by
  obtain ⟨-, hserves, hgeneration, -⟩ := leaseValid_iff.1 h
  exact ⟨hserves, hgeneration.symm⟩

theorem leaseValid_of_ok {lease : ServingWriteLease} {α : Type} {a b : α}
    (h : (if s.leaseValid now lease then Except.ok a else .error (.staleServingLease lease.id)) =
      (.ok b : Except DbError α)) : s.leaseValid now lease = true := by
  split at h
  next hvalid => exact hvalid
  next => cases h

end Store

theorem ok_of_map_ok {ε α β : Type} {x : Except ε α} {f : α → β} {b : β}
    (h : x.map f = .ok b) : ∃ a, x = .ok a ∧ b = f a := by
  cases x with
  | error e => cases h
  | ok a =>
      cases h
      exact ⟨a, rfl, rfl⟩

theorem Tx.execute_sound {s : Store} {drawn : Core.Uuid} {tx : Tx} {e : Effect}
    (h : tx.execute s drawn = .ok e) : e.mode = tx.call.mode ∧ e.Sound s tx.start := by
  rcases tx with ⟨call, start, phase⟩
  cases call with
  | acquireServingWriteLease operation owner seconds =>
      obtain ⟨lease, hlease, rfl⟩ := ok_of_map_ok h
      exact ⟨rfl, Store.acquireServingWriteLease_sound hlease⟩
  | renewServingWriteLease lease seconds =>
      obtain ⟨leaseUntil, huntil, rfl⟩ := ok_of_map_ok h
      exact ⟨rfl, Store.serves_of_leaseValid (Store.leaseValid_of_ok huntil)⟩
  | verifyServingWriteLease lease =>
      obtain ⟨_, hverified, rfl⟩ := ok_of_map_ok h
      exact ⟨rfl, Store.serves_of_leaseValid (Store.leaseValid_of_ok hverified)⟩
  | mutation =>
      obtain ⟨_, hguarded, rfl⟩ := ok_of_map_ok h
      exact ⟨rfl, Store.guardTransaction_sound hguarded⟩
  | leasedMutation lease =>
      obtain ⟨_, hguarded, rfl⟩ := ok_of_map_ok h
      exact ⟨rfl, Store.serves_of_leaseValid (Store.leaseValid_of_ok hguarded)⟩
  | beginQuiescing token =>
      obtain ⟨after, hafter, rfl⟩ := ok_of_map_ok h
      exact ⟨rfl, Store.beginQuiescing_sound hafter⟩
  | fence token =>
      obtain ⟨after, hafter, rfl⟩ := ok_of_map_ok h
      exact ⟨rfl, Store.fence_sound hafter⟩
  | abort request abortedBy reason =>
      obtain ⟨after, hafter, rfl⟩ := ok_of_map_ok h
      exact ⟨rfl, Store.abort_sound hafter⟩

namespace Effect

variable {s s' : Store} {start : Int} {e : Effect}

theorem Sound.of_removal (h : e.Sound s start) (hcommunity : s'.community = s.community)
    (hleases : ∀ lease ∈ s'.leases, lease ∈ s.leases) : e.Sound s' start := by
  cases e with
  | fenced after =>
      simp only [Sound, hcommunity] at h ⊢
      exact ⟨h.1, h.2.1, fun lease hlease => h.2.2 lease (hleases lease hlease)⟩
  | _ => simpa only [Sound, Store.Serves, hcommunity] using h

theorem Sound.of_community (h : e.Sound s start) (hshared : e.mode = .shared)
    (hcommunity : s'.community = s.community) : e.Sound s' start := by
  cases e with
  | fenced after => exact nomatch hshared
  | _ => simpa only [Sound, Store.Serves, hcommunity] using h

theorem apply_community (hshared : e.mode = .shared) (s : Store) :
    (s.apply e).community = s.community := by
  cases e with
  | quiesced after => exact nomatch hshared
  | fenced after => exact nomatch hshared
  | aborted after => exact nomatch hshared
  | _ => rfl

end Effect

/-! ## The log -/

theorem outdated_concat_iff {log : List Effect} {e : Effect} {lease : ServingWriteLease} :
    Outdated (log ++ [e]) lease ↔
      Outdated log lease ∨ (e.IsBarrier ∧ .acquired lease ∈ log) := by
  constructor
  · rintro ⟨before, x, after, hlog, hx, hlease⟩
    rcases List.eq_nil_or_concat after with rfl | ⟨middle, last, rfl⟩
    · obtain ⟨hbefore, hlast⟩ := List.append_inj' hlog rfl
      exact Or.inr ⟨(List.cons.inj hlast).1 ▸ hx, hbefore ▸ hlease⟩
    · rw [List.concat_eq_append] at hlog
      have hsplit : log ++ [e] = (before ++ x :: middle) ++ [last] := by simpa using hlog
      exact Or.inl ⟨before, x, middle, (List.append_inj' hsplit rfl).1, hx, hlease⟩
  · rintro (⟨before, x, after, rfl, hx, hlease⟩ | ⟨he, hlease⟩)
    · exact ⟨before, x, after ++ [e], by simp, hx, hlease⟩
    · exact ⟨log, e, [], rfl, he, hlease⟩

/-- The log agrees with the rows, and leases are acquired in the current generation. -/
structure History (s : Store) (log : List Effect) : Prop where
  admissions : AtEach (fun before e => e.IsAdmission →
    ¬ Since Effect.IsQuiesce Effect.IsAbort before) log
  serving : AtEach (fun before e => e.IsServing →
    ¬ Since Effect.IsFence Effect.IsAbort before) log
  unused : AtEach (fun before e => ∀ used, e.used = some used →
    ∀ lease, Outdated before lease → ¬ lease.Same used) log
  quiesced : Since Effect.IsQuiesce Effect.IsAbort log → s.community.deletionState ≠ .active
  fenced : Since Effect.IsFence Effect.IsAbort log → ¬ s.Serves
  acquired : ∀ lease, .acquired lease ∈ log →
    lease.fenceGeneration ≤ s.community.deletionFenceGeneration
  outdated : ∀ lease, Outdated log lease →
    lease.fenceGeneration < s.community.deletionFenceGeneration

namespace History

variable {s : Store} {log : List Effect} {e : Effect} {start : Int}

theorem empty (s : Store) : History s [] where
  admissions := .nil
  serving := .nil
  unused := .nil
  quiesced h := absurd h Since.not_nil
  fenced h := absurd h Since.not_nil
  acquired lease h := absurd h List.not_mem_nil
  outdated lease h := by
    rcases h with ⟨before, x, after, hlog, -, -⟩
    simp at hlog

theorem of_community {s' : Store} (h : History s log) (hcommunity : s'.community = s.community) :
    History s' log where
  admissions := h.admissions
  serving := h.serving
  unused := h.unused
  quiesced := hcommunity ▸ h.quiesced
  fenced := by
    simp only [Store.Serves, hcommunity]
    exact h.fenced
  acquired := hcommunity ▸ h.acquired
  outdated := hcommunity ▸ h.outdated

theorem admission_now (h : History s log) (he : e.Sound s start) (hadmission : e.IsAdmission) :
    ¬ Since Effect.IsQuiesce Effect.IsAbort log := by
  intro hsince
  cases e with
  | acquired lease => exact h.quiesced hsince he.1
  | mutated => exact h.quiesced hsince he
  | _ => exact hadmission

theorem serving_now (h : History s log) (he : e.Sound s start) (hserving : e.IsServing) :
    ¬ Since Effect.IsFence Effect.IsAbort log := by
  intro hsince
  refine h.fenced hsince ?_
  cases e with
  | acquired lease => exact Or.inl he.1
  | mutated => exact Or.inl he
  | renewed lease leaseUntil => exact he.1
  | verified lease => exact he.1
  | mutatedUnder lease => exact he.1
  | _ => exact hserving.elim

theorem unused_now (h : History s log) (he : e.Sound s start) {used : ServingWriteLease}
    (hused : e.used = some used) {lease : ServingWriteLease} (hlease : Outdated log lease) :
    ¬ lease.Same used := by
  intro hsame
  have hcurrent : used.fenceGeneration = s.community.deletionFenceGeneration := by
    cases e with
    | renewed lease leaseUntil => exact Option.some.inj hused ▸ he.2
    | verified lease => exact Option.some.inj hused ▸ he.2
    | mutatedUnder lease => exact Option.some.inj hused ▸ he.2
    | _ => exact nomatch hused
  have hold := h.outdated lease hlease
  rw [hsame.fenceGeneration, hcurrent] at hold
  exact lt_irrefl _ hold

theorem generation_le_apply (he : e.Sound s start) :
    s.community.deletionFenceGeneration ≤ (s.apply e).community.deletionFenceGeneration := by
  cases e with
  | quiesced after => exact he.2.2.ge
  | fenced after => exact he.2.1.le
  | aborted after => exact Int.le_of_lt he
  | _ => exact le_refl _

theorem generation_lt_apply (he : e.Sound s start) (hbarrier : e.IsBarrier) :
    s.community.deletionFenceGeneration < (s.apply e).community.deletionFenceGeneration := by
  cases e with
  | fenced after => exact he.2.1
  | aborted after => exact he
  | _ => rcases hbarrier with hbarrier | hbarrier <;> exact hbarrier.elim

theorem commit (h : History s log) (he : e.Sound s start) :
    History (s.apply e) (log ++ [e]) where
  admissions := h.admissions.concat (h.admission_now he)
  serving := h.serving.concat (h.serving_now he)
  unused := h.unused.concat fun _ hused _ hlease => h.unused_now he hused hlease
  quiesced hsince := by
    rcases since_concat_iff.1 hsince with hquiesce | ⟨hnoAbort, hsince⟩
    · cases e with
      | quiesced after => exact fun hactive => nomatch he.2.1.symm.trans hactive
      | _ => exact hquiesce.elim
    · have hold := h.quiesced hsince
      cases e with
      | quiesced after => exact fun hactive => nomatch he.2.1.symm.trans hactive
      | fenced after => exact fun hactive => nomatch he.1.symm.trans hactive
      | aborted after => exact absurd trivial hnoAbort
      | _ => exact hold
  fenced hsince := by
    have hfenced : ∀ after : Store.Transition, after.community.deletionState = .fenced →
        ¬ ({ s with community := after.community } : Store).Serves := by
      rintro after hstate (hactive | hquiescing)
      · exact nomatch hstate.symm.trans hactive
      · exact nomatch hstate.symm.trans hquiescing
    rcases since_concat_iff.1 hsince with hfence | ⟨hnoAbort, hsince⟩
    · cases e with
      | fenced after => exact hfenced after he.1
      | _ => exact hfence.elim
    · have hold := h.fenced hsince
      cases e with
      | quiesced after => exact absurd he.1 hold
      | fenced after => exact hfenced after he.1
      | aborted after => exact absurd trivial hnoAbort
      | _ => exact hold
  acquired lease hlease := by
    rcases List.mem_append.1 hlease with hold | hnew
    · exact (h.acquired lease hold).trans (generation_le_apply he)
    · obtain rfl := List.mem_singleton.1 hnew
      exact he.2.le
  outdated lease hlease := by
    rcases outdated_concat_iff.1 hlease with hold | ⟨hbarrier, hmem⟩
    · exact (h.outdated lease hold).trans_le (generation_le_apply he)
    · exact (h.acquired lease hmem).trans_lt (generation_lt_apply he hbarrier)

end History

/-! ## The invariant -/

/-- Two transactions that must not hold the lock together. -/
def Tx.Conflict (x y : Tx) : Prop :=
  x.holds = true ∧ y.holds = true ∧ (x.call.mode = .exclusive ∨ y.call.mode = .exclusive)

theorem Tx.Conflict.symm {x y : Tx} (h : x.Conflict y) : y.Conflict x := ⟨h.2.1, h.1, h.2.2.symm⟩

structure Inv (s : System) : Prop where
  locks : Slots.Exclusive Tx.Conflict s.txs
  ready : ∀ tx ∈ s.txs, ∀ e, tx.phase = .ready e →
    e.mode = tx.call.mode ∧ e.Sound s.store tx.start
  history : History s.store s.log

namespace Inv

variable {s : System} {i : Nat} {tx : Tx}

theorem initial (store : Store) : Inv (System.initial store) where
  locks := .nil
  ready _ htx := absurd htx List.not_mem_nil
  history := .empty store

theorem of_removal {store : Store} (h : Inv s) (hcommunity : store.community = s.store.community)
    (hleases : ∀ lease ∈ store.leases, lease ∈ s.store.leases) :
    Inv { s with store := store } where
  locks := h.locks
  ready tx htx e he :=
    ⟨(h.ready tx htx e he).1, (h.ready tx htx e he).2.of_removal hcommunity hleases⟩
  history := h.history.of_community hcommunity

theorem setPhase (h : Inv s) {phase : Phase}
    (hlock : ∀ (j : Nat) (y : Tx), s.txs[j]? = some y → y.Conflict { tx with phase := phase } →
      j = i)
    (hready : ∀ e, phase = .ready e → e.mode = tx.call.mode ∧ e.Sound s.store tx.start) :
    Inv (s.setPhase i tx phase) where
  locks := h.locks.set (fun _ _ => Tx.Conflict.symm) hlock
  ready y hy e he := by
    rcases List.mem_or_eq_of_mem_set hy with hold | rfl
    · exact h.ready y hold e he
    · exact hready e he
  history := h.history

theorem not_conflict {y : Tx} (htx : tx.holds = false) : ¬ y.Conflict tx := by
  intro hconflict
  rw [hconflict.2.1] at htx
  cases htx

theorem end_of (h : Inv s) {phase : Phase}
    (hphase : ({ tx with phase := phase } : Tx).holds = false) : Inv (s.setPhase i tx phase) := by
  refine h.setPhase (fun _ _ _ hconflict => absurd hconflict (not_conflict hphase)) ?_
  rintro e rfl
  cases hphase

theorem grant (h : Inv s) (hgrant : s.grantable tx.call.mode = true) :
    Inv (s.setPhase i tx .locked) := by
  refine h.setPhase (fun j y hy hconflict => ?_) (fun e he => nomatch he)
  have hfree := List.all_eq_true.1 hgrant y (List.mem_of_getElem? hy)
  obtain ⟨hholds, -, hmode⟩ := hconflict
  rcases hmode with hmode | hmode <;> simp [hholds, hmode] at hfree

theorem execute (h : Inv s) (htx : s.txs[i]? = some tx) (hphase : tx.phase = .locked)
    {drawn : Core.Uuid} {e : Effect} (he : tx.execute s.store drawn = .ok e) :
    Inv (s.setPhase i tx (.ready e)) := by
  refine h.setPhase (fun j y hy hconflict => ?_) ?_
  · have hholds : tx.holds = true := by simp [Tx.holds, hphase]
    exact h.locks j i y tx hy htx ⟨hconflict.1, hholds, hconflict.2.2⟩
  · intro e' he'
    obtain rfl := Phase.ready.inj he'
    exact Tx.execute_sound he

theorem commit (h : Inv s) (htx : s.txs[i]? = some tx) {e : Effect} (hphase : tx.phase = .ready e) :
    Inv { (s.setPhase i tx .committed) with
            store := s.store.apply e
            log := s.log ++ [e] } := by
  obtain ⟨hmode, hsound⟩ := h.ready tx (List.mem_of_getElem? htx) e hphase
  have hholds : tx.holds = true := by simp [Tx.holds, hphase]
  have hended : Inv (s.setPhase i tx .committed) := h.end_of rfl
  refine ⟨hended.locks, ?_, h.history.commit hsound⟩
  intro y hy e' hready
  obtain ⟨j, hj⟩ := List.mem_iff_getElem?.1 hy
  rcases Slots.getElem?_set_cases hj with ⟨-, rfl⟩ | ⟨hne, hold⟩
  · exact nomatch hready
  obtain ⟨hmode', hsound'⟩ := h.ready y (List.mem_of_getElem? hold) e' hready
  have hshared : ¬ (y.call.mode = .exclusive ∨ tx.call.mode = .exclusive) := by
    intro hexclusive
    have hyholds : y.holds = true := by simp [Tx.holds, hready]
    exact hne (h.locks j i y tx hold htx ⟨hyholds, hholds, hexclusive⟩)
  have hshare : ∀ m : Mode, m ≠ .exclusive → m = .shared := by
    intro m hm
    cases m with
    | shared => rfl
    | exclusive => exact absurd rfl hm
  obtain ⟨hy', htx'⟩ := not_or.1 hshared
  exact ⟨hmode', hsound'.of_community (hmode'.trans (hshare _ hy'))
    (Effect.apply_community (hmode.trans (hshare _ htx')) s.store)⟩

theorem advance (h : Inv s) (htx : s.txs[i]? = some tx) (drawn : Core.Uuid) :
    Inv (s.advance i drawn tx) := by
  unfold System.advance
  split
  next =>
    split
    · exact h.end_of rfl
    · exact h.end_of rfl
  next =>
    split
    next hgrant => exact h.grant hgrant
    next => exact h
  next hphase =>
    split
    · exact h
    · split
      next e he => exact h.execute htx hphase he
      next => exact h.end_of rfl
  next e hphase => exact h.commit htx hphase
  next => exact h
  next => exact h
  next => exact h

theorem step (h : Inv s) (input : Input) : Inv (s.step input) := by
  cases input with
  | start call now =>
      refine ⟨h.locks.append (fun _ _ => Tx.Conflict.symm) fun y _ => not_conflict rfl, ?_,
        h.history⟩
      intro y hy e he
      rcases List.mem_append.1 hy with hold | hnew
      · exact h.ready y hold e he
      · obtain rfl := List.mem_singleton.1 hnew
        exact nomatch he
  | advance i drawn =>
      simp only [System.step]
      split
      next tx htx => exact h.advance htx drawn
      next => exact h
  | rollback i =>
      simp only [System.step]
      split
      next tx htx =>
        split
        · exact h
        · exact h
        · exact h
        · exact h.end_of rfl
      next => exact h
  | release lease =>
      simp only [System.step]
      split
      · exact h
      · exact h.of_removal rfl fun lease hlease => (List.mem_filter.1 hlease).1
  | reap now limit => exact h.of_removal rfl fun lease hlease => (List.mem_filter.1 hlease).1
  | request row =>
      simp only [System.step]
      split
      · exact h
      · exact h.of_removal rfl fun _ hlease => hlease

theorem run (store : Store) (inputs : List Input) : Inv (System.run store inputs) :=
  Run.invariant_of_step Inv (fun _ input h => h.step input) (initial store) inputs

end Inv

/-! ## Every run -/

theorem System.step_ready {s : System} {i : Nat} {tx : Tx} {e : Effect}
    (htx : s.txs[i]? = some tx) (hphase : tx.phase = .ready e) (drawn : Core.Uuid) :
    (s.step (.advance i drawn)).store = s.store.apply e := by
  simp only [System.step, htx, System.advance, hphase]

theorem Inv.writeFence {s : System} (h : Inv s) : WriteFence s where
  admissions := h.history.admissions
  serving := h.history.serving
  drained i drawn tx after htx hphase lease hlease := by
    rw [System.step_ready htx hphase] at hlease
    have hsound := (h.ready tx (List.mem_of_getElem? htx) _ hphase).2
    exact hsound.2.2 lease hlease
  invalid lease hlease used hsame now := by
    have hold := h.history.outdated lease hlease
    refine Bool.eq_false_iff.2 fun hvalid => ?_
    obtain ⟨-, -, hcurrent, -⟩ := Store.leaseValid_iff.1 hvalid
    rw [hsame.fenceGeneration, hcurrent] at hold
    exact lt_irrefl _ hold
  unused := h.history.unused
  generation i drawn tx e htx hphase hbarrier := by
    rw [System.step_ready htx hphase]
    exact History.generation_lt_apply (h.ready tx (List.mem_of_getElem? htx) e hphase).2 hbarrier

/-- The fence holds in every state of every run, from any rows of the community. -/
theorem serving_write_fence (store : Store) (inputs : List Input) :
    WriteFence (System.run store inputs) :=
  (Inv.run store inputs).writeFence

namespace Sample

def request : DeletionRequest where
  id := 7
  stage := .approved
  approved := true
  leaseOwner := some "executor".toList
  leaseGeneration := 1
  leaseUntil := some 90
  blockedAt := none
  fenceGeneration := none
  preQuiesceArchivedAt := none
  quiescingStartedAt := none

def store : Store := ⟨⟨.active, 0, none, none⟩, [request], []⟩

def token : LeaseToken := ⟨7, "executor".toList, 1⟩

/-- One transaction from its start to its commit. -/
def whole (i : Nat) (call : Call) (now : Int) : List Input :=
  [.start call now, .advance i 5, .advance i 5, .advance i 5, .advance i 5]

/-- A lease is acquired before the community quiesces and has run out when it is fenced. -/
def deletion : List Input :=
  whole 0 (.acquireServingWriteLease "upload".toList "relay".toList 0) 10 ++
    whole 1 (.beginQuiescing token) 20 ++ whole 2 (.fence token) 30 ++ whole 3 .mutation 40 ++
    whole 4 (.abort 7 "operator".toList "mistake".toList) 50 ++ whole 5 .mutation 60

end Sample

-- The mutation after the fence fails, the one after the abort is committed.
example : ((System.run Sample.store Sample.deletion).txs.map Tx.phase =
    [.committed, .committed, .committed, .failed (.writeFenced .fenced), .committed,
      .committed]) ∧
    (System.run Sample.store Sample.deletion).store.community.deletionFenceGeneration = 2 := by
  decide

end Deletion
end Db
end Maju
