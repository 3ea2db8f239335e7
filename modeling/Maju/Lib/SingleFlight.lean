import Mathlib.Algebra.Order.BigOperators.Group.List
import Mathlib.Algebra.Order.Group.Nat
import Maju.Lib.Run
import Maju.Lib.Slots

/-!
# SingleFlight — calls that share one piece of work for a key

The calls for a key meet at a flight.  A flight is registered under its key when a call finds none
there, counts those who take part in it and has a lock that one of them holds.  Who finds the count
at zero when he leaves takes the flight out of the register, unless somebody has joined since.

* `Phase`, `Flights`, `step` — where a call stands, the register, and the moves of the calls;
* `Inv`, `Inv.run` — the invariant, and that every run keeps it;
* `Inv.owner_unique` — one call at a time holds the lock of a key.
-/

namespace Maju
namespace Lib
namespace SingleFlight

universe u

variable {K : Type u}

/-! ## The flights -/

/-- Outside; with a flight, in front of its lock, holding it or done with it; or about to take the
flight out of the register. -/
inductive Phase (K : Type u) where
  | outside
  | waiting (k : K) (f : Nat)
  | owner (k : K) (f : Nat)
  | unlocked (k : K) (f : Nat)
  | last (k : K) (f : Nat)
  deriving DecidableEq, Repr

/-- The flight that a call takes part in. -/
def Phase.flight : Phase K → Option (K × Nat)
  | .waiting k f => some (k, f)
  | .owner k f => some (k, f)
  | .unlocked k f => some (k, f)
  | _ => none

/-- The call holds the lock of the flight. -/
def Phase.Owns (ph : Phase K) (f : Nat) : Prop := ∃ k, ph = .owner k f

instance (ph : Phase K) (f : Nat) : Decidable (ph.Owns f) :=
  match ph with
  | .owner k g => decidable_of_iff (g = f) ⟨fun h => ⟨k, h ▸ rfl⟩, by rintro ⟨_, ⟨⟩⟩; rfl⟩
  | .outside | .waiting _ _ | .unlocked _ _ | .last _ _ => isFalse (by rintro ⟨_, ⟨⟩⟩)

/-- The register, the counts, the number of the next flight, and the calls. -/
structure Flights (K : Type u) where
  flights : K → Option Nat
  participants : Nat → Nat
  next : Nat
  phases : List (Phase K)

variable {s : Flights K} {i j : Nat} {k k' : K} {f f' : Nat} {ph : Phase K}

def init : Flights K := ⟨fun _ => none, fun _ => 0, 0, []⟩

/-! ## The invariant -/

/-- What a call adds to the count of a flight. -/
def Phase.weight (f : Nat) (ph : Phase K) : Nat :=
  match ph.flight with
  | some (_, g) => if g = f then 1 else 0
  | none => 0

theorem weight_of_none {ph : Phase K} (h : ph.flight = none) (f : Nat) : ph.weight f = 0 := by
  rw [Phase.weight, h]

theorem flight_of_weight {ph : Phase K} (h : ph.weight f ≠ 0) : ∃ k, ph.flight = some (k, f) := by
  unfold Phase.weight at h
  split at h
  · next k g hflight =>
      by_cases hg : g = f
      · exact ⟨k, hg ▸ hflight⟩
      · exact absurd (if_neg hg) h
  · exact absurd rfl h

def Phase.Clash (x y : Phase K) : Prop := ∃ f, x.Owns f ∧ y.Owns f

structure Inv (s : Flights K) : Prop where
  registered : ∀ {i : Nat} {ph : Phase K} {k : K} {f : Nat}, s.phases[i]? = some ph →
    ph.flight = some (k, f) → s.flights k = some f
  counted : ∀ f, s.participants f = (s.phases.map (Phase.weight f)).sum
  present : ∀ {k : K} {f : Nat}, s.flights k = some f →
    0 < s.participants f ∨ ∃ i : Nat, s.phases[i]? = some (.last k f)
  fresh : ∀ {k : K} {f : Nat}, s.flights k = some f → f < s.next
  inj : ∀ {k k' : K} {f : Nat}, s.flights k = some f → s.flights k' = some f → k = k'
  exclusive : Slots.Exclusive Phase.Clash s.phases

theorem inv_init : Inv (init : Flights K) where
  registered h := by cases h
  counted _ := rfl
  present h := by cases h
  fresh h := by cases h
  inj h := by cases h
  exclusive := Slots.Exclusive.nil

theorem clash_symm (x y : Phase K) (h : x.Clash y) : y.Clash x := by
  obtain ⟨f, hx, hy⟩ := h
  exact ⟨f, hy, hx⟩

theorem lt_length {l : List (Phase K)} (h : l[i]? = some ph) : i < l.length :=
  (List.getElem?_eq_some_iff.1 h).1

/-- Where a call rewrites its phase, the others keep theirs. -/
theorem getElem?_set_of_ne {l : List (Phase K)} (hi : l[i]? = some ph) {j : Nat} {ph' : Phase K}
    (hj : l[j]? = some ph') (hne : ph' ≠ ph) (b : Phase K) : (l.set i b)[j]? = some ph' := by
  have hij : i ≠ j := by
    rintro rfl
    exact hne (Option.some.inj (hj.symm.trans hi))
  rw [List.getElem?_set_ne hij, hj]

/-- A phase that owns no lock clashes with nothing. -/
theorem exclusive_set_of_not_owner (h : Slots.Exclusive Phase.Clash s.phases) (i : Nat)
    {b : Phase K} (hb : ∀ f, ¬ b.Owns f) : Slots.Exclusive Phase.Clash (s.phases.set i b) :=
  h.set clash_symm fun _ _ _ hclash => by
    obtain ⟨f, -, howns⟩ := hclash
    exact absurd howns (hb f)

/-- The count of a flight changes by what a call adds to it. -/
theorem counted_set (h : ∀ f, s.participants f = (s.phases.map (Phase.weight f)).sum)
    (hi : s.phases[i]? = some ph) (b : Phase K) (f : Nat) :
    ((s.phases.set i b).map (Phase.weight f)).sum + ph.weight f =
      s.participants f + b.weight f := by
  rw [h f]
  exact Slots.sum_map_set (Phase.weight f) hi b

/-- Who takes part in a flight is counted. -/
theorem Inv.pos (h : Inv s) (hi : s.phases[i]? = some ph) (hflight : ph.flight = some (k, f)) :
    0 < s.participants f := by
  have hmem : ph.weight f ∈ s.phases.map (Phase.weight f) :=
    List.mem_map_of_mem (List.mem_of_getElem? hi)
  have hle := List.single_le_sum (fun _ _ => Nat.zero_le _) _ hmem
  have hone : ph.weight f = 1 := by
    rw [Phase.weight, hflight]
    exact if_pos rfl
  rw [h.counted f]
  omega

/-- No call takes part in a flight that is to come. -/
theorem Inv.participants_next (h : Inv s) : s.participants s.next = 0 := by
  rw [h.counted, List.sum_eq_zero]
  intro n hn
  obtain ⟨ph, hph, rfl⟩ := List.mem_map.1 hn
  obtain ⟨i, hi⟩ := List.mem_iff_getElem?.1 hph
  unfold Phase.weight
  split
  · next k g hflight =>
      have hlt := h.fresh (h.registered hi hflight)
      exact if_neg (Nat.ne_of_lt hlt)
  · rfl

/-- A call that goes on within its flight, or takes its lock, keeps the rest. -/
theorem Inv.move (h : Inv s) {b : Phase K} (hi : s.phases[i]? = some ph)
    (hflight : ph.flight = some (k, f)) (hb : b.flight = some (k, f))
    (hexclusive : Slots.Exclusive Phase.Clash (s.phases.set i b)) :
    Inv { s with phases := s.phases.set i b } where
  registered hj hflight' := by
    rcases Slots.getElem?_set_cases hj with ⟨-, rfl⟩ | ⟨-, hj⟩
    · cases hb.symm.trans hflight'
      exact h.registered hi hflight
    · exact h.registered hj hflight'
  counted g := by
    have hsum := counted_set h.counted hi b g
    rw [Phase.weight, Phase.weight, hflight, hb] at hsum
    exact (Nat.add_right_cancel hsum).symm
  present hg := by
    rcases h.present hg with hpos | ⟨j, hj⟩
    · exact Or.inl hpos
    · refine Or.inr ⟨j, getElem?_set_of_ne hi hj ?_ _⟩
      rintro rfl
      cases hflight
  fresh := h.fresh
  inj := h.inj
  exclusive := hexclusive

/-- A call takes its part out of the count. -/
def Flights.leave (s : Flights K) (i : Nat) (k : K) (f : Nat) : Flights K :=
  { s with
    participants := Function.update s.participants f (s.participants f - 1)
    phases := s.phases.set i (if s.participants f = 1 then .last k f else .outside) }

theorem Inv.leave (h : Inv s) (hi : s.phases[i]? = some (.unlocked k f)) : Inv (s.leave i k f) := by
  have hreg := h.registered hi rfl
  have hpos := h.pos hi rfl
  unfold Flights.leave
  generalize hb : (if s.participants f = 1 then Phase.last k f else .outside) = b
  have hnone : b.flight = none ∧ ∀ g, ¬ b.Owns g := by
    rw [← hb]
    split_ifs
    · exact ⟨rfl, by rintro _ ⟨_, ⟨⟩⟩⟩
    · exact ⟨rfl, by rintro _ ⟨_, ⟨⟩⟩⟩
  exact {
    registered := fun hj hflight => by
      rcases Slots.getElem?_set_cases hj with ⟨-, rfl⟩ | ⟨-, hj⟩
      · cases hnone.1.symm.trans hflight
      · exact h.registered hj hflight
    counted := fun g => by
      have hsum := counted_set h.counted hi b g
      rw [weight_of_none hnone.1, Nat.add_zero] at hsum
      simp only [Phase.weight, Phase.flight] at hsum
      dsimp only
      rw [Function.update_apply]
      split_ifs with hg
      · subst hg
        rw [if_pos rfl] at hsum
        omega
      · rw [if_neg (Ne.symm hg)] at hsum
        exact hsum.symm
    present := fun {k' g} hg => by
      rcases h.present hg with hpos' | ⟨j, hj⟩
      · by_cases hone : g = f ∧ s.participants f = 1
        · -- the last one who takes part is about to take the flight out of the register
          obtain ⟨rfl, hone⟩ := hone
          rw [if_pos hone] at hb
          obtain rfl := h.inj hg hreg
          exact Or.inr ⟨i, by rw [List.getElem?_set_self (lt_length hi), hb]⟩
        · left
          dsimp only
          rw [Function.update_apply]
          split_ifs with hgf
          · have hne : s.participants f ≠ 1 := fun hone' => hone ⟨hgf, hone'⟩
            omega
          · exact hpos'
      · exact Or.inr ⟨j, getElem?_set_of_ne hi hj (by simp) _⟩
    fresh := h.fresh
    inj := h.inj
    exclusive := exclusive_set_of_not_owner h.exclusive i hnone.2 }

/-- One call at a time holds the lock of a key. -/
theorem Inv.owner_unique (h : Inv s) (hi : s.phases[i]? = some (.owner k f))
    (hj : s.phases[j]? = some (.owner k f')) : i = j := by
  have hf : some f = some f' := (h.registered hi rfl).symm.trans (h.registered hj rfl)
  cases hf
  exact h.exclusive i j _ _ hi hj ⟨f, ⟨k, rfl⟩, ⟨k, rfl⟩⟩

/-! ## The moves -/

inductive Move (K : Type u) where
  | arrive
  | join (i : Nat) (k : K)
  | lock (i : Nat)
  | giveUp (i : Nat)
  | unlock (i : Nat)
  | leave (i : Nat)
  | forget (i : Nat)

variable [DecidableEq K]

/-- A call joins the flight of its key, or registers one. -/
def Flights.join (s : Flights K) (i : Nat) (k : K) : Flights K :=
  match s.flights k with
  | some f =>
      { s with
        participants := Function.update s.participants f (s.participants f + 1)
        phases := s.phases.set i (.waiting k f) }
  | none =>
      { flights := Function.update s.flights k (some s.next)
        participants := Function.update s.participants s.next 1
        next := s.next + 1
        phases := s.phases.set i (.waiting k s.next) }

/-- The flight is taken out of the register if it is still there and nobody takes part in it. -/
def Flights.forget (s : Flights K) (i : Nat) (k : K) (f : Nat) : Flights K :=
  { s with
    flights :=
      if s.flights k = some f ∧ s.participants f = 0 then Function.update s.flights k none
      else s.flights
    phases := s.phases.set i .outside }

def Flights.Locked (s : Flights K) (f : Nat) : Prop := ∃ ph ∈ s.phases, ph.Owns f

instance (s : Flights K) (f : Nat) : Decidable (s.Locked f) :=
  inferInstanceAs (Decidable (∃ ph ∈ s.phases, ph.Owns f))

/-- A move that the phase of its call does not admit does nothing. -/
def step (s : Flights K) : Move K → Flights K
  | .arrive => { s with phases := s.phases ++ [.outside] }
  | .join i k =>
      match s.phases[i]? with
      | some .outside => s.join i k
      | _ => s
  | .lock i =>
      match s.phases[i]? with
      | some (.waiting k f) =>
          if s.Locked f then s else { s with phases := s.phases.set i (.owner k f) }
      | _ => s
  | .giveUp i =>
      match s.phases[i]? with
      | some (.waiting k f) => { s with phases := s.phases.set i (.unlocked k f) }
      | _ => s
  | .unlock i =>
      match s.phases[i]? with
      | some (.owner k f) => { s with phases := s.phases.set i (.unlocked k f) }
      | _ => s
  | .leave i =>
      match s.phases[i]? with
      | some (.unlocked k f) => s.leave i k f
      | _ => s
  | .forget i =>
      match s.phases[i]? with
      | some (.last k f) => s.forget i k f
      | _ => s

theorem Inv.join (h : Inv s) (hi : s.phases[i]? = some .outside) : Inv (s.join i k) := by
  have hexclusive : ∀ f, Slots.Exclusive Phase.Clash (s.phases.set i (.waiting k f)) := fun f =>
    exclusive_set_of_not_owner h.exclusive i (by rintro _ ⟨_, ⟨⟩⟩)
  have hcount := fun f g => counted_set h.counted hi (.waiting k f) g
  have hlast : ∀ {j : Nat} {k' : K} {f' : Nat} (f : Nat), s.phases[j]? = some (.last k' f') →
      (s.phases.set i (.waiting k f))[j]? = some (.last k' f') := fun f hj =>
    getElem?_set_of_ne hi hj (by simp) _
  unfold Flights.join
  cases hf : s.flights k with
  | some f =>
      have hmono : ∀ g, s.participants g ≤
          Function.update s.participants f (s.participants f + 1) g := by
        intro g
        rw [Function.update_apply]
        split_ifs with hg
        · rw [hg]
          exact Nat.le_succ _
        · exact Nat.le_refl _
      exact {
        registered := fun hj hflight => by
          rcases Slots.getElem?_set_cases hj with ⟨-, rfl⟩ | ⟨-, hj⟩
          · cases hflight
            exact hf
          · exact h.registered hj hflight
        counted := fun g => by
          have hsum := hcount f g
          simp only [Phase.weight, Phase.flight] at hsum
          dsimp only
          rw [Function.update_apply]
          split_ifs with hg
          · subst hg
            simp only [if_true] at hsum
            exact hsum.symm
          · rw [if_neg (Ne.symm hg)] at hsum
            exact hsum.symm
        present := fun hg => by
          rcases h.present hg with hpos | ⟨j, hj⟩
          · exact Or.inl (Nat.lt_of_lt_of_le hpos (hmono _))
          · exact Or.inr ⟨j, hlast f hj⟩
        fresh := h.fresh
        inj := h.inj
        exclusive := hexclusive f }
  | none =>
      have hother : ∀ {k' f'}, Function.update s.flights k (some s.next) k' = some f' →
          (k' = k ∧ f' = s.next) ∨ (k' ≠ k ∧ s.flights k' = some f' ∧ f' < s.next) := by
        intro k' f' hk'
        rw [Function.update_apply] at hk'
        split_ifs at hk' with heq
        · exact Or.inl ⟨heq, (Option.some.inj hk').symm⟩
        · exact Or.inr ⟨heq, hk', h.fresh hk'⟩
      exact {
        registered := fun hj hflight => by
          rcases Slots.getElem?_set_cases hj with ⟨-, rfl⟩ | ⟨-, hj⟩
          · cases hflight
            exact Function.update_self ..
          · have hreg := h.registered hj hflight
            dsimp only
            rw [Function.update_of_ne, hreg]
            rintro rfl
            cases hf.symm.trans hreg
        counted := fun g => by
          have hsum := hcount s.next g
          simp only [Phase.weight, Phase.flight] at hsum
          dsimp only
          rw [Function.update_apply]
          split_ifs with hg
          · subst hg
            rw [if_pos rfl, h.participants_next] at hsum
            exact hsum.symm
          · rw [if_neg (Ne.symm hg)] at hsum
            exact hsum.symm
        present := fun hg => by
          rcases hother hg with ⟨-, rfl⟩ | ⟨-, hg, hlt⟩
          · left
            dsimp only
            rw [Function.update_self]
            exact Nat.one_pos
          · rcases h.present hg with hpos | ⟨j, hj⟩
            · left
              dsimp only
              rwa [Function.update_of_ne (Nat.ne_of_lt hlt)]
            · exact Or.inr ⟨j, hlast s.next hj⟩
        fresh := fun hg => by
          rcases hother hg with ⟨-, rfl⟩ | ⟨-, -, hlt⟩
          · exact Nat.lt_succ_self _
          · exact Nat.lt_succ_of_lt hlt
        inj := fun hg hg' => by
          rcases hother hg with ⟨rfl, rfl⟩ | ⟨-, hg, hlt⟩
          · rcases hother hg' with ⟨rfl, -⟩ | ⟨-, -, hlt⟩
            · rfl
            · exact absurd hlt (Nat.lt_irrefl _)
          · rcases hother hg' with ⟨-, rfl⟩ | ⟨-, hg', -⟩
            · exact absurd hlt (Nat.lt_irrefl _)
            · exact h.inj hg hg'
        exclusive := hexclusive s.next }

theorem Inv.forget (h : Inv s) (hi : s.phases[i]? = some (.last k f)) : Inv (s.forget i k f) := by
  have hregister : ∀ {k' g},
      (if s.flights k = some f ∧ s.participants f = 0 then Function.update s.flights k none
        else s.flights) k' = some g → s.flights k' = some g := by
    intro k' g hg
    split_ifs at hg with hzero
    · rw [Function.update_apply] at hg
      split_ifs at hg
      exact hg
    · exact hg
  unfold Flights.forget
  exact {
    registered := fun {j ph k' g} hj hflight => by
      rcases Slots.getElem?_set_cases hj with ⟨-, rfl⟩ | ⟨-, hj⟩
      · cases hflight
      · have hreg := h.registered hj hflight
        have hcount := h.pos hj hflight
        dsimp only
        split_ifs with hzero
        · rw [Function.update_of_ne, hreg]
          rintro rfl
          -- nobody takes part in the flight that is taken out
          cases hreg.symm.trans hzero.1
          exact absurd hzero.2 (Nat.ne_of_gt hcount)
        · exact hreg
    counted := fun g => by
      have hsum := counted_set h.counted hi .outside g
      exact hsum.symm
    present := fun {k' g} hg => by
      have hreg := hregister hg
      rcases h.present hreg with hpos | ⟨j, hj⟩
      · exact Or.inl hpos
      · by_cases hsame : (Phase.last k' g : Phase K) = .last k f
        · cases hsame
          by_cases hzero : s.participants f = 0
          · dsimp only at hg
            rw [if_pos ⟨hreg, hzero⟩, Function.update_self] at hg
            cases hg
          · exact Or.inl (Nat.pos_of_ne_zero hzero)
        · exact Or.inr ⟨j, getElem?_set_of_ne hi hj hsame _⟩
    fresh := fun hg => h.fresh (hregister hg)
    inj := fun hg hg' => h.inj (hregister hg) (hregister hg')
    exclusive := exclusive_set_of_not_owner h.exclusive i (by rintro _ ⟨_, ⟨⟩⟩) }

/-! ## Runs -/

/-- Every move keeps the invariant. -/
theorem inv_step (h : Inv s) (m : Move K) : Inv (step s m) := by
  cases m with
  | arrive =>
      have hold : ∀ {j : Nat} {ph : Phase K}, (s.phases ++ [Phase.outside])[j]? = some ph →
          ph ≠ .outside → s.phases[j]? = some ph := by
        intro j ph hj hne
        rcases Slots.getElem?_append_singleton_cases hj with ⟨-, rfl⟩ | ⟨-, hj⟩
        · exact absurd rfl hne
        · exact hj
      have hkeep : ∀ {j : Nat} {ph : Phase K}, s.phases[j]? = some ph →
          (s.phases ++ [Phase.outside])[j]? = some ph := fun hj => by
        rw [List.getElem?_append_left (lt_length hj), hj]
      exact {
        registered := fun hj hflight =>
          h.registered (hold hj (by rintro rfl; cases hflight)) hflight
        counted := fun g => by
          show _ = ((s.phases ++ [Phase.outside]).map (Phase.weight g)).sum
          rw [List.map_append, List.sum_append, ← h.counted g]
          rfl
        present := fun hg => (h.present hg).imp id fun ⟨j, hj⟩ => ⟨j, hkeep hj⟩
        fresh := h.fresh
        inj := h.inj
        exclusive := fun j l x y hx hy hclash => by
          obtain ⟨f, ⟨_, rfl⟩, ⟨_, rfl⟩⟩ := hclash
          exact h.exclusive j l _ _ (hold hx (by simp)) (hold hy (by simp))
            ⟨f, ⟨_, rfl⟩, ⟨_, rfl⟩⟩ }
  | join i k =>
      simp only [step]
      split
      · next hi => exact h.join hi
      · exact h
  | lock i =>
      simp only [step]
      split
      · next k f hi =>
          split_ifs with hlocked
          · exact h
          · refine h.move hi rfl rfl (h.exclusive.set clash_symm fun j x hj hclash => ?_)
            obtain ⟨g, hx, ⟨_, hb⟩⟩ := hclash
            cases hb
            exact absurd ⟨x, List.mem_of_getElem? hj, hx⟩ hlocked
      · exact h
  | giveUp i | unlock i =>
      simp only [step]
      split
      · next k f hi =>
          exact h.move hi rfl rfl
            (exclusive_set_of_not_owner h.exclusive i (by rintro _ ⟨_, ⟨⟩⟩))
      · exact h
  | leave i =>
      simp only [step]
      split
      · next hi => exact h.leave hi
      · exact h
  | forget i =>
      simp only [step]
      split
      · next hi => exact h.forget hi
      · exact h

/-- Every run keeps the invariant. -/
theorem Inv.run (h : Inv s) (moves : List (Move K)) : Inv (Run.run step s moves) :=
  Run.invariant_of_step Inv (fun _ m h => inv_step h m) h moves

end SingleFlight
end Lib
end Maju
