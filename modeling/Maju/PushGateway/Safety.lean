import Maju.Lib.Run
import Maju.PushGateway.MemoryGrants
import Maju.PushGateway.PostgresGrants

/-!
# Safety — what an authority store guarantees over every run

* `StoreModel` — a store and its refinement of `Grants`; both stores of the gateway are one;
* `Gateway.step` — a call at a time of the clock, or the finishing of a delivery that was admitted;
* `AuthFenced`, `RequestFenced` — the replay fences hold what they have to until it has expired;
* `Safe` — the guarantees; `push_authority_safety` proves them of both stores.
-/

namespace Maju
namespace PushGateway

open Lib Core

/-! ## Stores -/

/-- A store and its view; `MarksKept` when reaping at a time leaves the delegations of the
installations that it keeps. -/
structure StoreModel (S : Type) where
  exec : Int → S → Request → Result × S
  view : S → Authority
  start : S
  Sound : S → Prop
  MarksKept : S → Int → Prop
  sound_start : Sound start
  unique_start : Unique (view start)
  outcome : ∀ now s request, Sound s →
    Outcome now (view s) (view (exec now s request).2) request (exec now s request).1 ∧
      Sound (exec now s request).2
  marks : ∀ now s, Sound s → MarksKept s now →
    KeepsMarks (view s) (view (exec now s .reapExpired).2) .reapExpired

/-- `MemoryAuthorityStore`, which reaps no delegation. -/
def memory : StoreModel MemoryState where
  exec := MemoryState.exec
  view := MemoryState.view
  start := .empty
  Sound := MemoryState.Sound
  MarksKept _ _ := True
  sound_start := MemoryState.sound_empty
  unique_start := fun _ _ _ _ h => (nomatch h)
  outcome _ _ request hs := MemoryState.outcome_exec hs request
  marks _ _ _ _ := fun _ _ _ => rfl

/-- `PostgresAuthorityStore`. -/
def postgres (sha256 : Bytes → Bytes) : StoreModel PostgresState where
  exec := PostgresState.exec sha256
  view := PostgresState.view
  start := .empty
  Sound := PostgresState.Sound
  MarksKept := PostgresState.MarksKept
  sound_start := PostgresState.sound_empty
  unique_start := fun _ _ _ _ h => (nomatch h)
  outcome _ _ request hs := PostgresState.outcome_exec sha256 hs request
  marks := by
    intro now s _ hmarks _ key hkept
    rcases hexec : PostgresState.exec sha256 now s .reapExpired with ⟨result, s'⟩
    rw [hexec] at hkept
    cases result with
    | error e =>
        cases PostgresState.exec_error hexec
        rfl
    | ok response =>
        exact PostgresState.reapExpired_marks hmarks (PostgresState.settle_ok hexec) key hkept

instance memory.decidableMarksKept (s : MemoryState) (now : Int) :
    Decidable (memory.MarksKept s now) :=
  inferInstanceAs (Decidable True)

instance postgres.decidableMarksKept (sha256 : Bytes → Bytes) (s : PostgresState) (now : Int) :
    Decidable ((postgres sha256).MarksKept s now) :=
  inferInstanceAs (Decidable (s.MarksKept now))

/-! ## Runs -/

/-- A delivery that was admitted, and how it was finished. -/
structure Admission where
  delivery : Delivery
  permit : DeliveryPermit
  finished : Option DeliveryDisposition
  deriving DecidableEq

structure Gateway (S : Type) where
  store : S
  clock : Int
  log : List Admission

inductive Input where
  | call (now : Int) (request : Request)
  | finish (now : Int) (admission : Nat) (disposition : DeliveryDisposition)
  deriving DecidableEq

def Input.now : Input → Int
  | .call now _ => now
  | .finish now _ _ => now

def admissionOf : Request → Result → List Admission
  | .authorizeDelivery q, .ok (.permit permit) => [⟨q, permit, none⟩]
  | _, _ => []

section Runs

variable {S : Type} (M : StoreModel S)

namespace Gateway

def start (clock : Int) : Gateway S := ⟨M.start, clock, []⟩

def step (g : Gateway S) : Input → Gateway S
  -- permits are made by admissions only
  | .call _ (.finishDelivery _ _) => g
  | .call now request =>
      ⟨(M.exec now g.store request).2, now,
        g.log ++ admissionOf request (M.exec now g.store request).1⟩
  | .finish now k disposition =>
      match g.log[k]? with
      | some admission =>
          if admission.finished = none then
            ⟨(M.exec now g.store (.finishDelivery admission.permit disposition)).2, now,
              g.log.set k { admission with finished := some disposition }⟩
          else g
      | none => g

def reached (clock : Int) (inputs : List Input) : Gateway S :=
  Run.run (step M) (start M clock) inputs

end Gateway

def Timely (g : Gateway S) (input : Input) : Prop := g.clock ≤ input.now

instance Timely.decidable (g : Gateway S) (input : Input) : Decidable (Timely g input) :=
  inferInstanceAs (Decidable (_ ≤ _))

/-- Reaping leaves the delegations of the installations that it keeps. -/
def MarksKept (g : Gateway S) : Input → Prop
  | .call now .reapExpired => M.MarksKept g.store now
  | _ => True

instance MarksKept.decidable [∀ s now, Decidable (M.MarksKept s now)] (g : Gateway S)
    (input : Input) : Decidable (MarksKept M g input) := by
  unfold MarksKept
  split
  · infer_instance
  · infer_instance

/-- A delivery is finished as retryable by the expiry of its request. -/
def Prompt (g : Gateway S) : Input → Prop
  | .finish now k .retryable => ∀ admission ∈ g.log[k]?,
      now ≤ admission.delivery.requestExpiresAt
  | _ => True

instance Prompt.decidable (g : Gateway S) (input : Input) : Decidable (Prompt g input) := by
  unfold Prompt
  split
  · infer_instance
  · infer_instance

/-- The installation is neither removed nor replaced. -/
def KeepsInstallation (id : Uuid) (g : Gateway S) : Input → Prop
  | .call now request => Keeps (M.view g.store) (M.view (M.exec now g.store request).2) request
      (M.exec now g.store request).1 id
  | .finish _ _ _ => True

end Runs

/-! ## What a call leaves of the fences -/

section Fences

variable {now : Int} {a a' : Authority} {request : Request} {result : Result}

theorem Fades.kept {K : Type} {old new : K → Option Int} {key : K} {expiresAt : Int}
    (h : Fades now old new) (hkey : old key = some expiresAt) :
    new key = some expiresAt ∨ expiresAt < now := by
  rcases h key with hsame | ⟨_, e, he, hlt⟩
  · exact Or.inl (hsame.trans hkey)
  · rw [hkey] at he
    cases he
    exact Or.inr hlt

/-- Only an authorization, the release of a permit and a reaping touch the replay records. -/
theorem replays_outcome (houtcome : Outcome now a a' request result) :
    (a'.authReplay = a.authReplay ∧ a'.requestReplay = a.requestReplay) ∨
      (∃ q response, request = .authorizeDelivery q ∧ result = .ok response) ∨
      (∃ permit response, request = .finishDelivery permit .retryable ∧ result = .ok response) ∨
      ∃ response, request = .reapExpired ∧ result = .ok response := by
  have hsame : ∀ {b : Authority}, b = a →
      b.authReplay = a.authReplay ∧ b.requestReplay = a.requestReplay := by
    rintro b rfl
    exact ⟨rfl, rfl⟩
  cases result with
  | error e => exact Or.inl (hsame houtcome)
  | ok response =>
      cases request with
      | createInstallation n => exact Or.inl ⟨houtcome.authReplay, houtcome.requestReplay⟩
      | advanceAssertionCounter id previous next =>
          obtain ⟨_, _, _, _, _, rfl⟩ := houtcome
          exact Or.inl ⟨rfl, rfl⟩
      | upsertDelegation d =>
          obtain ⟨_, _, _, _, _, _, rfl⟩ := houtcome
          exact Or.inl ⟨rfl, rfl⟩
      | rotateEndpoint id expected new ciphertext fingerprint =>
          obtain ⟨_, _, _, _, _, _, rfl⟩ := houtcome
          exact Or.inl ⟨rfl, rfl⟩
      | revokeDelegation id relay generation =>
          obtain ⟨_, _, _, _, _, rfl⟩ := houtcome
          exact Or.inl ⟨rfl, rfl⟩
      | revokeInstallation id expected new =>
          obtain ⟨_, _, _, _, _, rfl⟩ := houtcome
          exact Or.inl ⟨rfl, rfl⟩
      | authorizeDelivery q => exact Or.inr (Or.inl ⟨q, response, rfl, rfl⟩)
      | finishDelivery permit disposition =>
          cases disposition with
          | terminal => exact Or.inl (hsame houtcome)
          | retryable => exact Or.inr (Or.inr (Or.inl ⟨permit, response, rfl, rfl⟩))
      | reapExpired => exact Or.inr (Or.inr (Or.inr ⟨response, rfl, rfl⟩))
      | ready => exact Or.inl (hsame houtcome)
      | putChallenge c => exact Or.inl (hsame houtcome)
      | consumeChallenge id value => exact Or.inl (hsame houtcome)
      | matchingInstallation keyId profile fingerprint epoch expiresAt =>
          exact Or.inl (hsame houtcome)
      | installation id => exact Or.inl (hsame houtcome)

theorem authReplay_outcome {key : PublicKey × EventId} {expiresAt : Int}
    (houtcome : Outcome now a a' request result) (hkey : a.authReplay key = some expiresAt) :
    a'.authReplay key = some expiresAt ∨ expiresAt < now := by
  rcases replays_outcome houtcome with ⟨hsame, _⟩ | ⟨q, response, rfl, rfl⟩ |
    ⟨permit, response, rfl, rfl⟩ | ⟨response, rfl, rfl⟩
  · exact Or.inl (by rw [hsame, hkey])
  · obtain ⟨_, _, _, _, _, _, _, hfresh, _, rfl⟩ := houtcome
    refine Or.inl ?_
    change Function.update a.authReplay _ _ key = _
    rw [Function.update_apply, if_neg, hkey]
    rintro rfl
    rw [hfresh] at hkey
    cases hkey
  · cases houtcome
    exact Or.inl hkey
  · exact houtcome.authReplay.kept hkey

theorem requestReplay_outcome {key : PublicKey × Uuid} {expiresAt : Int}
    (houtcome : Outcome now a a' request result) (hkey : a.requestReplay key = some expiresAt)
    (hrequest : ∀ permit, request = .finishDelivery permit .retryable →
      key ≠ (permit.relayPubkey, permit.requestId)) :
    a'.requestReplay key = some expiresAt ∨ expiresAt < now := by
  rcases replays_outcome houtcome with ⟨_, hsame⟩ | ⟨q, response, rfl, rfl⟩ |
    ⟨permit, response, rfl, rfl⟩ | ⟨response, rfl, rfl⟩
  · exact Or.inl (by rw [hsame, hkey])
  · obtain ⟨_, _, _, _, _, _, _, _, hfresh, rfl⟩ := houtcome
    refine Or.inl ?_
    change Function.update a.requestReplay _ _ key = _
    rw [Function.update_apply, if_neg, hkey]
    rintro rfl
    rw [hfresh] at hkey
    cases hkey
  · cases houtcome
    refine Or.inl ?_
    change Function.update a.requestReplay _ _ key = _
    rw [Function.update_apply, if_neg (hrequest permit rfl), hkey]
  · exact houtcome.requestReplay.kept hkey

end Fences

/-! ## Steps -/

section Steps

variable {S : Type} {M : StoreModel S} {g : Gateway S}

theorem Gateway.step_cases (M : StoreModel S) (g : Gateway S) (input : Input) :
    g.step M input = g ∨
    (∃ now request, input = .call now request ∧
      (∀ permit disposition, request ≠ .finishDelivery permit disposition) ∧
      g.step M input = ⟨(M.exec now g.store request).2, now,
        g.log ++ admissionOf request (M.exec now g.store request).1⟩) ∨
    ∃ now k disposition admission, input = .finish now k disposition ∧
      g.log[k]? = some admission ∧ admission.finished = none ∧
      g.step M input = ⟨(M.exec now g.store (.finishDelivery admission.permit disposition)).2, now,
        g.log.set k { admission with finished := some disposition }⟩ := by
  cases input with
  | call now request =>
      cases request with
      | finishDelivery permit disposition => exact Or.inl rfl
      | _ => exact Or.inr (Or.inl ⟨now, _, rfl, fun _ _ h => (nomatch h), rfl⟩)
  | finish now k disposition =>
      simp only [Gateway.step]
      split
      · next admission hadmission =>
          split_ifs with hopen
          · exact Or.inr (Or.inr ⟨now, k, disposition, admission, rfl, hadmission, hopen, rfl⟩)
          · exact Or.inl rfl
      · exact Or.inl rfl

theorem Gateway.step_outcome (hg : M.Sound g.store) (input : Input) :
    M.Sound (g.step M input).store ∧
      (M.view (g.step M input).store = M.view g.store ∨
        ∃ request result, Outcome input.now (M.view g.store) (M.view (g.step M input).store) request
          result) := by
  rcases g.step_cases M input with hsame | ⟨now, request, rfl, _, hstep⟩ |
    ⟨now, k, disposition, admission, rfl, _, _, hstep⟩
  · rw [hsame]
    exact ⟨hg, Or.inl rfl⟩
  · rw [hstep]
    obtain ⟨houtcome, hsound⟩ := M.outcome now g.store request hg
    exact ⟨hsound, Or.inr ⟨_, _, houtcome⟩⟩
  · rw [hstep]
    obtain ⟨houtcome, hsound⟩ := M.outcome now g.store _ hg
    exact ⟨hsound, Or.inr ⟨_, _, houtcome⟩⟩

/-- The store is sound and its installations are unique. -/
def Good (M : StoreModel S) (g : Gateway S) : Prop := M.Sound g.store ∧ Unique (M.view g.store)

theorem Good.step (hg : Good M g) (input : Input) : Good M (g.step M input) := by
  obtain ⟨hsound, hview⟩ := Gateway.step_outcome hg.1 input
  refine ⟨hsound, ?_⟩
  rcases hview with hsame | ⟨_, _, houtcome⟩
  · rw [hsame]
    exact hg.2
  · exact hg.2.outcome houtcome

/-! ## Auth events -/

/-- What a delivery is fenced by in the table of auth events. -/
def Delivery.authKey (q : Delivery) : PublicKey × EventId := (q.relayPubkey, q.eventId)

/-- What a delivery is fenced by in the table of requests. -/
def Delivery.requestKey (q : Delivery) : PublicKey × Uuid := (q.relayPubkey, q.requestId)

def Gateway.deliveries (g : Gateway S) : List Delivery := g.log.map Admission.delivery

/-- The fence of every admitted delivery holds until it expires, and none was admitted twice. -/
structure AuthFenced (M : StoreModel S) (g : Gateway S) : Prop where
  fence : ∀ q ∈ g.deliveries, (M.view g.store).authReplay q.authKey = some q.requestExpiresAt ∨
    q.requestExpiresAt < g.clock
  once : g.deliveries.Pairwise fun q q' =>
    ¬ (q.authKey = q'.authKey ∧ q.requestExpiresAt = q'.requestExpiresAt)

theorem admissionOf_cases (request : Request) (result : Result) :
    admissionOf request result = [] ∨ ∃ q permit, request = .authorizeDelivery q ∧
      result = .ok (.permit permit) ∧ admissionOf request result = [⟨q, permit, none⟩] := by
  unfold admissionOf
  split
  · exact Or.inr ⟨_, _, rfl, rfl, rfl⟩
  · exact Or.inl rfl

theorem Gateway.deliveries_set {k : Nat} {admission : Admission} {finished} (store : S)
    (clock : Int) (h : g.log[k]? = some admission) :
    Gateway.deliveries ⟨store, clock, g.log.set k { admission with finished := finished }⟩ =
      g.deliveries := by
  unfold Gateway.deliveries
  refine List.ext_getElem? fun j => ?_
  rw [List.getElem?_map, List.getElem?_map]
  by_cases hj : k = j
  · subst hj
    rw [h, List.getElem?_set_self (List.getElem?_eq_some_iff.1 h).1]
    rfl
  · rw [List.getElem?_set_ne hj]

theorem AuthFenced.step (hg : Good M g) (hfenced : AuthFenced M g) {input : Input}
    (htimely : Timely g input) : AuthFenced M (g.step M input) := by
  -- the fences after a call, for the deliveries admitted before it
  have hold : ∀ now request, g.clock ≤ now → ∀ q ∈ g.deliveries,
      (M.view (M.exec now g.store request).2).authReplay q.authKey = some q.requestExpiresAt ∨
        q.requestExpiresAt < now := by
    intro now request hclock q hq
    rcases hfenced.fence q hq with hfence | hexpired
    · exact authReplay_outcome (M.outcome now g.store request hg.1).1 hfence
    · exact Or.inr (Int.lt_of_lt_of_le hexpired hclock)
  rcases g.step_cases M input with hsame | ⟨now, request, rfl, _, hstep⟩ |
    ⟨now, k, disposition, admission, rfl, hadmission, _, hstep⟩
  · rw [hsame]
    exact hfenced
  · rw [hstep]
    have hdeliveries : Gateway.deliveries
        (⟨(M.exec now g.store request).2, now,
          g.log ++ admissionOf request (M.exec now g.store request).1⟩ : Gateway S) =
        g.deliveries ++ (admissionOf request (M.exec now g.store request).1).map
          Admission.delivery :=
      List.map_append
    rcases admissionOf_cases request (M.exec now g.store request).1 with hnone |
      ⟨q, permit, rfl, hresult, hone⟩
    · rw [hnone, List.append_nil]
      exact ⟨hold now request htimely, hfenced.once⟩
    · have hperformed := (M.outcome now g.store (.authorizeDelivery q) hg.1).1
      rw [hresult] at hperformed
      obtain ⟨d, i, _, _, hadmissible, _, _, hfresh, _, hview⟩ := hperformed
      have hfuture : now ≤ q.requestExpiresAt := hadmissible.2.2.2.2.2.2.2.2.2.2.1
      rw [hone] at hdeliveries ⊢
      refine ⟨?_, ?_⟩
      · rw [hdeliveries]
        intro q' hq'
        rcases List.mem_append.1 hq' with hbefore | hnew
        · exact hold now _ htimely q' hbefore
        · cases List.mem_singleton.1 hnew
          refine Or.inl ?_
          change (M.view (M.exec now g.store (.authorizeDelivery q)).2).authReplay q.authKey = _
          rw [hview]
          exact Function.update_self _ _ _
      · rw [hdeliveries]
        refine List.pairwise_append.2 ⟨hfenced.once, List.pairwise_singleton _ _, ?_⟩
        intro q' hq' q'' hq''
        cases List.mem_singleton.1 hq''
        rintro ⟨hkey, hexpiry⟩
        rcases hfenced.fence q' hq' with hfence | hexpired
        · rw [hkey] at hfence
          rw [show (M.view g.store).authReplay q.authKey = none from hfresh] at hfence
          cases hfence
        · have hclock : g.clock ≤ now := htimely
          change q'.requestExpiresAt = q.requestExpiresAt at hexpiry
          omega
  · rw [hstep]
    refine ⟨?_, ?_⟩
    · rw [Gateway.deliveries_set _ _ hadmission]
      exact hold now _ htimely
    · rw [Gateway.deliveries_set _ _ hadmission]
      exact hfenced.once

/-! ## Requests -/

/-- The permits are those of their deliveries; the fence of every admitted request holds until it
expires or is released; a request is admitted again only after its release. -/
structure RequestFenced (M : StoreModel S) (g : Gateway S) : Prop where
  permits : ∀ (k : Nat) (a : Admission), g.log[k]? = some a →
    (a.permit.relayPubkey, a.permit.requestId) = a.delivery.requestKey
  fence : ∀ (k : Nat) (a : Admission), g.log[k]? = some a → a.finished = some .retryable ∨
    (M.view g.store).requestReplay a.delivery.requestKey = some a.delivery.requestExpiresAt ∨
    a.delivery.requestExpiresAt < g.clock
  once : ∀ (k l : Nat) (a b : Admission), k < l → g.log[k]? = some a → g.log[l]? = some b →
    a.delivery.requestKey = b.delivery.requestKey →
    a.delivery.requestExpiresAt = b.delivery.requestExpiresAt → a.finished = some .retryable

theorem getElem?_concat_cases {log : List Admission} {added a : Admission} {k : Nat}
    (h : (log ++ [added])[k]? = some a) : log[k]? = some a ∨ (k = log.length ∧ a = added) := by
  rcases Nat.lt_or_ge k log.length with hlt | hge
  · rw [List.getElem?_append_left hlt] at h
    exact Or.inl h
  · rw [List.getElem?_append_right hge] at h
    have hzero : k - log.length = 0 := by
      by_contra hne
      rw [List.getElem?_eq_none (by simp; omega)] at h
      cases h
    rw [hzero] at h
    cases h
    exact Or.inr ⟨by omega, rfl⟩

theorem RequestFenced.call (hg : Good M g) (hfenced : RequestFenced M g) {now : Int}
    {request : Request} (hclock : g.clock ≤ now)
    (hcall : ∀ permit disposition, request ≠ .finishDelivery permit disposition) :
    RequestFenced M ⟨(M.exec now g.store request).2, now,
      g.log ++ admissionOf request (M.exec now g.store request).1⟩ := by
  have hfences : ∀ (k : Nat) (a : Admission), g.log[k]? = some a → a.finished = some .retryable ∨
      (M.view (M.exec now g.store request).2).requestReplay a.delivery.requestKey =
        some a.delivery.requestExpiresAt ∨ a.delivery.requestExpiresAt < now := by
    intro k a ha
    rcases hfenced.fence k a ha with hfinished | hfence | hexpired
    · exact Or.inl hfinished
    · refine Or.inr (requestReplay_outcome (M.outcome now g.store request hg.1).1 hfence ?_)
      intro permit hrequest
      exact absurd hrequest (hcall permit .retryable)
    · exact Or.inr (Or.inr (Int.lt_of_lt_of_le hexpired hclock))
  rcases admissionOf_cases request (M.exec now g.store request).1 with hnone |
    ⟨q, permit, rfl, hresult, hone⟩
  · rw [hnone, List.append_nil]
    exact ⟨hfenced.permits, hfences, hfenced.once⟩
  · have hperformed := (M.outcome now g.store (.authorizeDelivery q) hg.1).1
    rw [hresult] at hperformed
    obtain ⟨d, i, _, _, hadmissible, _, hpermit, _, hfresh, hview⟩ := hperformed
    have hfuture : now ≤ q.requestExpiresAt := hadmissible.2.2.2.2.2.2.2.2.2.2.1
    cases hpermit
    rw [hone]
    refine ⟨?_, ?_, ?_⟩
    · intro k a ha
      rcases getElem?_concat_cases ha with hbefore | ⟨_, rfl⟩
      · exact hfenced.permits k a hbefore
      · rfl
    · intro k a ha
      rcases getElem?_concat_cases ha with hbefore | ⟨_, rfl⟩
      · exact hfences k a hbefore
      · refine Or.inr (Or.inl ?_)
        change (M.view (M.exec now g.store (.authorizeDelivery q)).2).requestReplay q.requestKey = _
        rw [hview]
        exact Function.update_self _ _ _
    · intro k l a b hlt ha hb hkey hexpiry
      rcases getElem?_concat_cases hb with hbefore | ⟨rfl, rfl⟩
      · rcases getElem?_concat_cases ha with hbefore' | ⟨rfl, _⟩
        · exact hfenced.once k l a b hlt hbefore' hbefore hkey hexpiry
        · have := (List.getElem?_eq_some_iff.1 hbefore).1
          omega
      · rcases getElem?_concat_cases ha with hbefore | ⟨rfl, _⟩
        · -- the request is not fenced when it is admitted again
          rcases hfenced.fence k a hbefore with hfinished | hfence | hexpired
          · exact hfinished
          · rw [hkey, show (M.view g.store).requestReplay q.requestKey = none from hfresh] at hfence
            cases hfence
          · change a.delivery.requestExpiresAt = q.requestExpiresAt at hexpiry
            omega
        · omega

theorem getElem?_finish_cases {log : List Admission} {admission a : Admission} {k l : Nat}
    {disposition : DeliveryDisposition} (hk : log[k]? = some admission)
    (h : (log.set k { admission with finished := some disposition })[l]? = some a) :
    (l = k ∧ a = { admission with finished := some disposition }) ∨ (l ≠ k ∧ log[l]? = some a) := by
  by_cases hl : k = l
  · subst hl
    rw [List.getElem?_set_self (List.getElem?_eq_some_iff.1 hk).1] at h
    cases h
    exact Or.inl ⟨rfl, rfl⟩
  · rw [List.getElem?_set_ne hl] at h
    exact Or.inr ⟨fun hlk => hl hlk.symm, h⟩

theorem RequestFenced.finish (hg : Good M g) (hfenced : RequestFenced M g) {now : Int} {k : Nat}
    {disposition : DeliveryDisposition} {admission : Admission} (hclock : g.clock ≤ now)
    (hk : g.log[k]? = some admission) (hopen : admission.finished = none)
    (hprompt : disposition = .retryable → now ≤ admission.delivery.requestExpiresAt) :
    RequestFenced M ⟨(M.exec now g.store (.finishDelivery admission.permit disposition)).2, now,
      g.log.set k { admission with finished := some disposition }⟩ := by
  have houtcome := (M.outcome now g.store (.finishDelivery admission.permit disposition) hg.1).1
  -- an admission that is open was not followed by one of the same request and expiry
  have hlast : ∀ (l : Nat) (b : Admission), k < l → g.log[l]? = some b →
      admission.delivery.requestKey = b.delivery.requestKey →
      admission.delivery.requestExpiresAt ≠ b.delivery.requestExpiresAt := by
    intro l b hlt hb hkey hexpiry
    have hfinished := hfenced.once k l admission b hlt hk hb hkey hexpiry
    rw [hopen] at hfinished
    cases hfinished
  have hothers : ∀ (l : Nat) (b : Admission), l ≠ k → g.log[l]? = some b →
      b.finished = some .retryable ∨
      (M.view (M.exec now g.store (.finishDelivery admission.permit disposition)).2).requestReplay
        b.delivery.requestKey = some b.delivery.requestExpiresAt ∨
      b.delivery.requestExpiresAt < now := by
    intro l b hne hb
    rcases hfenced.fence l b hb with hfinished | hfence | hexpired
    · exact Or.inl hfinished
    · by_cases hreleased : disposition = .retryable ∧
          b.delivery.requestKey = admission.delivery.requestKey
      · -- the fence that is released is that of both, so they have one expiry
        obtain ⟨hretryable, hkey⟩ := hreleased
        have hsame : admission.delivery.requestExpiresAt = b.delivery.requestExpiresAt := by
          rcases hfenced.fence k admission hk with hfinished | hown | hexpired
          · rw [hopen] at hfinished
            cases hfinished
          · rw [← hkey, hfence] at hown
            exact (Option.some.inj hown).symm
          · have := hprompt hretryable
            omega
        rcases Nat.lt_or_gt_of_ne hne with hbefore | hafter
        · exact Or.inl (hfenced.once l k b admission hbefore hb hk hkey hsame.symm)
        · exact absurd hsame (hlast l b hafter hb hkey.symm)
      · refine Or.inr (requestReplay_outcome houtcome hfence ?_)
        intro permit hrequest hkey
        cases hrequest
        exact hreleased ⟨rfl, hkey.trans (hfenced.permits k admission hk)⟩
    · exact Or.inr (Or.inr (Int.lt_of_lt_of_le hexpired hclock))
  refine ⟨?_, ?_, ?_⟩
  · intro l b hb
    rcases getElem?_finish_cases hk hb with ⟨rfl, rfl⟩ | ⟨_, hb⟩
    · exact hfenced.permits l admission hk
    · exact hfenced.permits l b hb
  · intro l b hb
    rcases getElem?_finish_cases hk hb with ⟨rfl, rfl⟩ | ⟨hne, hb⟩
    · cases disposition with
      | retryable => exact Or.inl rfl
      | terminal =>
          refine Or.inr ?_
          rcases hfenced.fence l admission hk with hfinished | hfence | hexpired
          · rw [hopen] at hfinished
            cases hfinished
          · refine requestReplay_outcome houtcome hfence ?_
            intro permit hrequest
            cases hrequest
          · exact Or.inr (Int.lt_of_lt_of_le hexpired hclock)
    · exact hothers l b hne hb
  · intro l m a b hlt ha hb hkey hexpiry
    rcases getElem?_finish_cases hk ha with ⟨rfl, rfl⟩ | ⟨_, hold⟩
    · rcases getElem?_finish_cases hk hb with ⟨rfl, _⟩ | ⟨_, hold'⟩
      · exact absurd hlt (Nat.lt_irrefl _)
      · exact absurd hexpiry (hlast m b hlt hold' hkey)
    · rcases getElem?_finish_cases hk hb with ⟨rfl, rfl⟩ | ⟨_, hold'⟩
      · exact hfenced.once l m a admission hlt hold hk hkey hexpiry
      · exact hfenced.once l m a b hlt hold hold' hkey hexpiry

theorem RequestFenced.step (hg : Good M g) (hfenced : RequestFenced M g) {input : Input}
    (htimely : Timely g input) (hprompt : Prompt g input) : RequestFenced M (g.step M input) := by
  rcases g.step_cases M input with hsame | ⟨now, request, rfl, hcall, hstep⟩ |
    ⟨now, k, disposition, admission, rfl, hadmission, hopen, hstep⟩
  · rw [hsame]
    exact hfenced
  · rw [hstep]
    exact hfenced.call hg htimely hcall
  · rw [hstep]
    refine hfenced.finish hg htimely hadmission hopen ?_
    rintro rfl
    exact hprompt admission hadmission

/-! ## While an installation is kept -/

theorem installation_finish {now : Int} {a a' : Authority} {permit : DeliveryPermit}
    {disposition : DeliveryDisposition} {result : Result}
    (h : Outcome now a a' (.finishDelivery permit disposition) result) :
    a'.installation = a.installation := by
  cases result with
  | error e => exact congrArg Authority.installation h
  | ok response =>
      cases disposition with
      | terminal => exact congrArg Authority.installation h
      | retryable =>
          cases h
          rfl

theorem Gateway.step_kept (hg : Good M g) {id : Uuid} {input : Input}
    (hpresent : ((M.view g.store).installation id).isSome = true) (hmarks : MarksKept M g input)
    (hkeeps : KeepsInstallation M id g input) :
    M.view (g.step M input).store = M.view g.store ∨
      ∃ now request result,
        Outcome now (M.view g.store) (M.view (g.step M input).store) request result ∧
        Keeps (M.view g.store) (M.view (g.step M input).store) request result id ∧
        KeepsMarks (M.view g.store) (M.view (g.step M input).store) request := by
  rcases g.step_cases M input with hsame | ⟨now, request, rfl, _, hstep⟩ |
    ⟨now, k, disposition, admission, rfl, _, _, hstep⟩
  · exact Or.inl (by rw [hsame])
  · rw [hstep]
    refine Or.inr ⟨now, request, _, (M.outcome now g.store request hg.1).1, hkeeps, ?_⟩
    rintro rfl
    exact M.marks now g.store hg.1 hmarks rfl
  · rw [hstep]
    have houtcome := (M.outcome now g.store (.finishDelivery admission.permit disposition) hg.1).1
    refine Or.inr ⟨now, _, _, houtcome, ⟨?_, ?_⟩, ?_⟩
    · change ((M.view (M.exec now g.store _).2).installation id).isSome = true
      rw [installation_finish houtcome]
      exact hpresent
    · intro n response hrequest
      cases hrequest
    · intro hrequest
      cases hrequest

theorem Spent.step {id : Uuid} {relay : PublicKey} {generation : Int} {input : Input}
    (hg : Good M g) (h : Spent id relay generation (M.view g.store)) (hmarks : MarksKept M g input)
    (hkeeps : KeepsInstallation M id g input) :
    Spent id relay generation (M.view (g.step M input).store) := by
  rcases Gateway.step_kept hg h.1 hmarks hkeeps with hsame | ⟨_, _, _, houtcome, hkept, hmarked⟩
  · rw [hsame]
    exact h
  · exact h.outcome houtcome hkept hmarked

theorem Dead.step {id : Uuid} {relay : PublicKey} {epoch generation : Int} {input : Input}
    (hg : Good M g) (h : Dead id relay epoch generation (M.view g.store))
    (hmarks : MarksKept M g input) (hkeeps : KeepsInstallation M id g input) :
    Dead id relay epoch generation (M.view (g.step M input).store) := by
  have hpresent : ((M.view g.store).installation id).isSome = true := by
    obtain ⟨i, hi, _⟩ := h
    rw [hi]
    rfl
  rcases Gateway.step_kept hg hpresent hmarks hkeeps with hsame | ⟨_, _, _, houtcome, hkept, hmarked⟩
  · rw [hsame]
    exact h
  · exact h.outcome houtcome hkept hmarked

end Steps

/-! ## The guarantees -/

/-- The grants that a successful call ends: those of an epoch that is left, of an installation or a
generation that is revoked, and of a generation that is superseded. -/
def Ends : Request → Uuid → PublicKey → Int → Int → Prop
  | .rotateEndpoint id expected _ _ _, id', _, epoch, _ => id' = id ∧ epoch ≤ expected
  | .revokeInstallation id _ _, id', _, _, _ => id' = id
  | .revokeDelegation id relay generation, id', relay', _, generation' =>
      (id', relay') = (id, relay) ∧ generation' = generation
  | .upsertDelegation d, id', relay', _, generation' =>
      (id', relay') = d.key ∧ generation' < d.generation
  | _, _, _, _, _ => False

/-- The endpoint epoch of the installation moves forward. -/
def EpochMoves (a a' : Authority) (id : Uuid) : Prop :=
  ∃ i i', a.installation id = some i ∧ a'.installation id = some i' ∧
    i.endpointEpoch < i'.endpointEpoch

section Guarantees

variable {S : Type} (M : StoreModel S)

/-- The store before a call, the store after it, and what it returns. -/
def Calls (g : Gateway S) (now : Int) (request : Request) (a a' : Authority)
    (response : Response) : Prop :=
  a = M.view g.store ∧ a' = M.view (M.exec now g.store request).2 ∧
    (M.exec now g.store request).1 = .ok response

/-- What is guaranteed of the next calls in a state, if the steps between satisfy `P`.
`generations` is about two upserts for a relay with the installation kept between them, and `ended`
says that a grant that a call has ended is not used while the installation is kept. -/
structure Safe (P : Gateway S → Input → Prop) (g : Gateway S) : Prop where
  counters : ∀ now id previous next a a' response,
    Calls M g now (.advanceAssertionCounter id previous next) a a' response →
    ∃ i i', a.installation id = some i ∧ a'.installation id = some i' ∧
      i.assertionCounter < i'.assertionCounter
  rotations : ∀ now id expected new ciphertext fingerprint a a' response,
    Calls M g now (.rotateEndpoint id expected new ciphertext fingerprint) a a' response →
    EpochMoves a a' id
  revocations : ∀ now id expected new a a' response,
    Calls M g now (.revokeInstallation id expected new) a a' response → EpochMoves a a' id
  generations : ∀ now d a a' response, Calls M g now (.upsertDelegation d) a a' response →
    ∀ between, Run.Along (fun g i => P g i ∧ KeepsInstallation M d.installationId g i)
      (Gateway.step M) g (.call now (.upsertDelegation d) :: between) →
    ∀ now' d' b b' response',
      Calls M (Run.run (Gateway.step M) g (.call now (.upsertDelegation d) :: between)) now'
        (.upsertDelegation d') b b' response' →
      d'.key = d.key → d.generation < d'.generation
  unique : Unique (M.view g.store)
  live : ∀ now n a a' response, Calls M g now (.createInstallation n) a a' response →
    ∀ id i, a.installation id = some i → i.Live now → a'.installation id = some i
  admissions : ∀ now q a a' response, Calls M g now (.authorizeDelivery q) a a' response →
    ∃ d i, a.delegation (i.id, q.relayPubkey) = some d ∧ a.installation i.id = some i ∧
      q.Admissible d i now ∧ response = .permit (q.permit i d.expiresAt)
  ended : ∀ now request a a' response, Calls M g now request a a' response →
    ∀ id relay epoch generation, Ends request id relay epoch generation →
    ∀ between, Run.Along (fun g i => P g i ∧ KeepsInstallation M id g i)
      (Gateway.step M) g (.call now request :: between) →
    ∀ now' q b b' permit,
      Calls M (Run.run (Gateway.step M) g (.call now request :: between)) now'
        (.authorizeDelivery q) b b' (.permit permit) →
      ¬ (permit.authority.installationId = id ∧ q.relayPubkey = relay ∧ q.endpointEpoch = epoch ∧
        q.generation = generation)
  authEvents : g.deliveries.Pairwise fun q q' =>
    ¬ (q.authKey = q'.authKey ∧ q.requestExpiresAt = q'.requestExpiresAt)
  requests : ∀ (k l : Nat) (a b : Admission), k < l → g.log[k]? = some a → g.log[l]? = some b →
    a.delivery.requestKey = b.delivery.requestKey →
    a.delivery.requestExpiresAt = b.delivery.requestExpiresAt → a.finished = some .retryable

/-- No mark is reaped before its installation, and no permit is released late. -/
def Sane (g : Gateway S) (input : Input) : Prop :=
  Timely g input ∧ MarksKept M g input ∧ Prompt g input

instance Sane.decidable [∀ s now, Decidable (M.MarksKept s now)] (g : Gateway S) (input : Input) :
    Decidable (Sane M g input) :=
  inferInstanceAs (Decidable (_ ∧ _ ∧ _))

variable {M} {g : Gateway S}

theorem Gateway.step_call {now : Int} {request : Request}
    (hcall : ∀ permit disposition, request ≠ .finishDelivery permit disposition) :
    (g.step M (.call now request)).store = (M.exec now g.store request).2 := by
  cases request with
  | finishDelivery permit disposition => exact absurd rfl (hcall permit disposition)
  | _ => rfl

theorem dead_of_ends {now : Int} {a a' : Authority} {request : Request} {response : Response}
    {id : Uuid} {relay : PublicKey} {epoch generation : Int}
    (h : Performed now a a' request response) (hpresent : (a'.installation id).isSome = true)
    (hends : Ends request id relay epoch generation) : Dead id relay epoch generation a' := by
  obtain ⟨i, hi⟩ := Option.isSome_iff_exists.1 hpresent
  refine ⟨i, hi, ?_⟩
  cases request with
  | rotateEndpoint other expected new ciphertext fingerprint =>
      obtain ⟨rfl, hle⟩ := hends
      obtain ⟨j, _, _, _, rfl, _, rfl⟩ := h
      rw [setInstallation_apply, if_pos rfl] at hi
      cases hi
      exact Or.inl (Int.lt_add_one_of_le hle)
  | revokeInstallation other expected new =>
      cases hends
      obtain ⟨j, _, _, _, _, rfl⟩ := h
      rw [setInstallation_apply, if_pos rfl] at hi
      cases hi
      exact Or.inr (Or.inl rfl)
  | revokeDelegation other relay' generation' =>
      obtain ⟨hkey, rfl⟩ := hends
      obtain ⟨d, _, _, hgeneration, hdkey, rfl⟩ := h
      refine Or.inr (Or.inr ⟨{ d with revoked := true }, ?_, Or.inr ⟨hgeneration, rfl⟩⟩)
      rw [setDelegation_apply]
      exact if_pos (hkey.trans hdkey.symm)
  | upsertDelegation d =>
      obtain ⟨hkey, hlt⟩ := hends
      obtain ⟨j, revoked, _, _, _, _, rfl⟩ := h
      refine Or.inr (Or.inr ⟨d.setRevoked revoked, ?_, Or.inl hlt⟩)
      rw [setDelegation_apply]
      exact if_pos hkey
  | _ => exact hends.elim

theorem Calls.performed {now : Int} {request : Request} {a a' : Authority} {response : Response}
    (hg : Good M g) (h : Calls M g now request a a' response) :
    Performed now a a' request response := by
  obtain ⟨rfl, rfl, hresult⟩ := h
  have houtcome := (M.outcome now g.store request hg.1).1
  rw [hresult] at houtcome
  exact houtcome

theorem Spent.run {id : Uuid} {relay : PublicKey} {generation : Int} {inputs : List Input}
    (hg : Good M g) (h : Spent id relay generation (M.view g.store))
    (halong : Run.Along (fun g i => MarksKept M g i ∧ KeepsInstallation M id g i)
      (Gateway.step M) g inputs) :
    Spent id relay generation (M.view (Run.run (Gateway.step M) g inputs).store) := by
  have hinv : ∀ g i, (Good M g ∧ Spent id relay generation (M.view g.store)) →
      (MarksKept M g i ∧ KeepsInstallation M id g i) →
      Good M (g.step M i) ∧ Spent id relay generation (M.view (g.step M i).store) := by
    intro g i hs hi
    exact ⟨hs.1.step i, hs.2.step hs.1 hi.1 hi.2⟩
  exact (Run.invariant _ hinv ⟨hg, h⟩ halong).2

theorem Dead.run {id : Uuid} {relay : PublicKey} {epoch generation : Int} {inputs : List Input}
    (hg : Good M g) (h : Dead id relay epoch generation (M.view g.store))
    (halong : Run.Along (fun g i => MarksKept M g i ∧ KeepsInstallation M id g i)
      (Gateway.step M) g inputs) :
    Dead id relay epoch generation (M.view (Run.run (Gateway.step M) g inputs).store) := by
  have hinv : ∀ g i, (Good M g ∧ Dead id relay epoch generation (M.view g.store)) →
      (MarksKept M g i ∧ KeepsInstallation M id g i) →
      Good M (g.step M i) ∧ Dead id relay epoch generation (M.view (g.step M i).store) := by
    intro g i hs hi
    exact ⟨hs.1.step i, hs.2.step hs.1 hi.1 hi.2⟩
  exact (Run.invariant _ hinv ⟨hg, h⟩ halong).2

theorem epochMoves_set {a : Authority} {id : Uuid} {i i' : Installation Bool}
    (hi : a.installation id = some i) (hlt : i.endpointEpoch < i'.endpointEpoch) :
    EpochMoves a (a.setInstallation id i') id :=
  ⟨i, i', hi, by rw [setInstallation_apply, if_pos rfl], hlt⟩

theorem generations_increase (hg : Good M g) {now now' : Int} {d d' : Delegation Bool}
    {a a' b b' : Authority} {response response' : Response} {between : List Input}
    (hcall : Calls M g now (.upsertDelegation d) a a' response)
    (halong : Run.Along (fun g i => Sane M g i ∧ KeepsInstallation M d.installationId g i)
      (Gateway.step M) g (.call now (.upsertDelegation d) :: between))
    (hcall' : Calls M (Run.run (Gateway.step M) g (.call now (.upsertDelegation d) :: between)) now'
      (.upsertDelegation d') b b' response') (hkey : d'.key = d.key) :
    d.generation < d'.generation := by
  have hspent : Spent d.installationId d.relayPubkey d.generation
      (M.view (g.step M (.call now (.upsertDelegation d))).store) := by
    obtain ⟨i, revoked, _, _, _, _, hview⟩ := hcall.performed hg
    rw [hcall.2.1] at hview
    change Spent _ _ _ (M.view (M.exec now g.store (.upsertDelegation d)).2)
    refine ⟨halong.1.2.1, d.setRevoked revoked, ?_, Int.le_refl _⟩
    rw [hview, setDelegation_apply]
    exact if_pos rfl
  have hlater := hspent.run (hg.step _) (halong.2.mono fun _ _ h => ⟨h.1.2.1, h.2⟩)
  have hg' : Good M (Run.run (Gateway.step M) g (.call now (.upsertDelegation d) :: between)) :=
    Run.invariant_of_step (Good M) (fun _ i h => h.step i) hg _
  obtain ⟨_, old, hold, hle⟩ := hlater
  obtain ⟨_, _, _, _, _, hnewer, _⟩ := hcall'.performed hg'
  rw [hcall'.1, hkey] at hnewer
  exact Int.lt_of_le_of_lt hle (hnewer old hold)

theorem not_used_after_end (hg : Good M g) {now now' : Int} {request : Request} {q : Delivery}
    {a a' b b' : Authority} {response : Response} {permit : DeliveryPermit} {between : List Input}
    {id : Uuid} {relay : PublicKey} {epoch generation : Int}
    (hcall : Calls M g now request a a' response)
    (hends : Ends request id relay epoch generation)
    (halong : Run.Along (fun g i => Sane M g i ∧ KeepsInstallation M id g i)
      (Gateway.step M) g (.call now request :: between))
    (hcall' : Calls M (Run.run (Gateway.step M) g (.call now request :: between)) now'
      (.authorizeDelivery q) b b' (.permit permit)) :
    ¬ (permit.authority.installationId = id ∧ q.relayPubkey = relay ∧ q.endpointEpoch = epoch ∧
      q.generation = generation) := by
  have hrequest : ∀ permit disposition, request ≠ .finishDelivery permit disposition := by
    rintro permit disposition rfl
    exact hends
  have hdead : Dead id relay epoch generation (M.view (g.step M (.call now request)).store) := by
    rw [Gateway.step_call hrequest]
    have hperformed := hcall.performed hg
    rw [hcall.2.1] at hperformed
    exact dead_of_ends hperformed halong.1.2.1 hends
  have hlater := hdead.run (hg.step _) (halong.2.mono fun _ _ h => ⟨h.1.2.1, h.2⟩)
  have hg' : Good M (Run.run (Gateway.step M) g (.call now request :: between)) :=
    Run.invariant_of_step (Good M) (fun _ i h => h.step i) hg _
  rintro ⟨rfl, rfl, rfl, rfl⟩
  have hadmitted := hcall'.performed hg'
  rw [hcall'.1] at hadmitted
  exact hlater.not_admitted hadmitted

theorem live_kept {now : Int} {n : NewInstallation} {a a' : Authority} (h : Creates now a a' n)
    {id : Uuid} {i : Installation Bool} (hi : a.installation id = some i) (hlive : i.Live now) :
    a'.installation id = some i := by
  have hfree : n.conflicts i = false := by
    cases hconflicts : n.conflicts i with
    | false => rfl
    | true => exact absurd hlive (h.dead id i hi hconflicts)
  have hne : id ≠ n.id := by
    rintro rfl
    have hconflict := h.free i hi
    rw [hfree] at hconflict
    cases hconflict
  rw [h.others id hne, hi]
  simp [hfree]

theorem safe_of (hg : Good M g) (hauth : AuthFenced M g) (hrequest : RequestFenced M g) :
    Safe M (Sane M) g where
  counters := by
    intro now id previous next a a' response hcall
    obtain ⟨i, hi, _, hprevious, hlt, rfl⟩ := hcall.performed hg
    refine ⟨i, { i with assertionCounter := next }, hi, ?_, hprevious ▸ hlt⟩
    rw [setInstallation_apply, if_pos rfl]
  rotations := by
    intro now id expected new ciphertext fingerprint a a' response hcall
    obtain ⟨i, hi, _, hexpected, hnew, _, rfl⟩ := hcall.performed hg
    refine epochMoves_set hi ?_
    change i.endpointEpoch < new
    omega
  revocations := by
    intro now id expected new a a' response hcall
    obtain ⟨i, hi, _, hexpected, hnew, rfl⟩ := hcall.performed hg
    refine epochMoves_set hi ?_
    change i.endpointEpoch < new
    omega
  generations := by
    intro now d a a' response hcall between halong now' d' b b' response' hcall' hkey
    exact generations_increase hg hcall halong hcall' hkey
  unique := hg.2
  live := by
    intro now n a a' response hcall id i hi hlive
    exact live_kept (hcall.performed hg) hi hlive
  admissions := by
    intro now q a a' response hcall
    obtain ⟨d, i, hd, hi, hadmissible, hid, hresponse, _⟩ := hcall.performed hg
    have hrelay : d.relayPubkey = q.relayPubkey := hadmissible.2.2.2.1
    refine ⟨d, i, ?_, ?_, hadmissible, hresponse⟩
    · rw [hid, ← hrelay]
      exact hd
    · rw [hid]
      exact hi
  ended := by
    intro now request a a' response hcall id relay epoch generation hends between halong now' q b b'
      permit hcall'
    exact not_used_after_end hg hcall hends halong hcall'
  authEvents := hauth.once
  requests := hrequest.once

theorem safe_reached (clock : Int) (inputs : List Input)
    (halong : Run.Along (Sane M) (Gateway.step M) (Gateway.start M clock) inputs) :
    Safe M (Sane M) (Gateway.reached M clock inputs) := by
  have hinv : ∀ g i, (Good M g ∧ AuthFenced M g ∧ RequestFenced M g) → Sane M g i →
      Good M (g.step M i) ∧ AuthFenced M (g.step M i) ∧ RequestFenced M (g.step M i) := by
    rintro g i ⟨hgood, hauth, hrequest⟩ ⟨htimely, _, hprompt⟩
    exact ⟨hgood.step i, hauth.step hgood htimely, hrequest.step hgood htimely hprompt⟩
  have hstart : Good M (Gateway.start M clock) ∧ AuthFenced M (Gateway.start M clock) ∧
      RequestFenced M (Gateway.start M clock) := by
    refine ⟨⟨M.sound_start, M.unique_start⟩, ⟨?_, List.Pairwise.nil⟩, ⟨?_, ?_, ?_⟩⟩
    · intro q hq
      cases hq
    · intro k a ha
      cases ha
    · intro k a ha
      cases ha
    · intro k l a b _ ha
      cases ha
  obtain ⟨hgood, hauth, hrequest⟩ := Run.invariant _ hinv hstart halong
  exact safe_of hgood hauth hrequest

end Guarantees

theorem push_authority_safety (sha256 : Bytes → Bytes) (clock : Int) (inputs : List Input) :
    (Run.Along (Sane memory) (Gateway.step memory) (Gateway.start memory clock) inputs →
      Safe memory (Sane memory) (Gateway.reached memory clock inputs)) ∧
    (Run.Along (Sane (postgres sha256)) (Gateway.step (postgres sha256))
        (Gateway.start (postgres sha256) clock) inputs →
      Safe (postgres sha256) (Sane (postgres sha256))
        (Gateway.reached (postgres sha256) clock inputs)) :=
  ⟨safe_reached clock inputs, safe_reached clock inputs⟩

namespace Sample

/-- An installation with a key and a token. -/
def phone : NewInstallation :=
  ⟨1, [1], List.replicate 33 2, 0, .majuIosDogfood, [3], 4, 1, 10000⟩

/-- A delegation of the installation to relay 9. -/
def grant (id : Uuid) (generation expiresAt : Int) : Delegation Bool :=
  ⟨id, 1, 9, 1, generation, 0, expiresAt, false⟩

/-- A push of relay 9 by the delegation 5. -/
def push (event : EventId) (expiresAt : Int) : Delivery :=
  ⟨5, 9, 1, 5, event, 7, expiresAt, 60, 10⟩

/-- What admits a push, while the delegation lasts until 1000. -/
def permit : DeliveryPermit := ⟨⟨5, 1, 9, .majuIosDogfood, [3], 1, 5, 1000⟩, 9, 7⟩

/-- The delegation expires and is reaped before the next one. -/
def superseded : List Input :=
  [.call 0 (.createInstallation phone), .call 1 (.upsertDelegation (grant 5 5 100)),
    .call 200 .reapExpired, .call 201 (.upsertDelegation (grant 3 3 1000))]

/-- The first push is finished when its request has expired and the second is under way. -/
def late : List Input :=
  [.call 0 (.createInstallation phone), .call 1 (.upsertDelegation (grant 5 5 1000)),
    .call 100 (.authorizeDelivery (push 1 150)), .call 160 .reapExpired,
    .call 161 (.authorizeDelivery (push 2 300)), .finish 170 0 .retryable,
    .call 180 (.authorizeDelivery (push 3 300))]

/-- A push that is finished in time and sent again. -/
def retried : List Input :=
  [.call 0 (.createInstallation phone), .call 1 (.upsertDelegation (grant 5 5 1000)),
    .call 100 (.authorizeDelivery (push 1 150)), .finish 110 0 .retryable,
    .call 120 (.authorizeDelivery (push 2 150))]

end Sample

theorem push_authority_safety_retried :
    Run.Along (Sane memory) (Gateway.step memory) (Gateway.start memory 0) Sample.retried ∧
      Run.Along (Sane (postgres fun value => value)) (Gateway.step (postgres fun value => value))
        (Gateway.start (postgres fun value => value) 0) Sample.retried ∧
      (Gateway.reached (postgres fun value => value) 0 Sample.retried).log.length = 2 ∧
      Safe memory (Sane memory) (Gateway.reached memory 0 Sample.retried) ∧
      Safe (postgres fun value => value) (Sane (postgres fun value => value))
        (Gateway.reached (postgres fun value => value) 0 Sample.retried) := by
  have hmemory : Run.Along (Sane memory) (Gateway.step memory) (Gateway.start memory 0)
      Sample.retried := by
    decide
  have hpostgres : Run.Along (Sane (postgres fun value => value))
      (Gateway.step (postgres fun value => value))
      (Gateway.start (postgres fun value => value) 0) Sample.retried := by
    decide
  have hsafe := push_authority_safety (fun value => value) 0 Sample.retried
  exact ⟨hmemory, hpostgres, by decide, hsafe.1 hmemory, hsafe.2 hpostgres⟩

/-- A generation that was superseded is delegated again in production, once the newer one was
reaped; and in either store a late release lets a request be admitted twice. -/
theorem push_authority_safety_fails :
    (¬ ∀ clock inputs, Run.Along Timely (Gateway.step (postgres fun value => value))
        (Gateway.start (postgres fun value => value) clock) inputs →
      Safe (postgres fun value => value) Timely
        (Gateway.reached (postgres fun value => value) clock inputs)) ∧
    ¬ ∀ clock inputs, Run.Along Timely (Gateway.step memory) (Gateway.start memory clock) inputs →
      Safe memory Timely (Gateway.reached memory clock inputs) := by
  constructor
  · intro hall
    have hsafe := hall 0 (Sample.superseded.take 1) (by decide)
    have hlt := hsafe.generations 1 (Sample.grant 5 5 100) _ _ .done ⟨rfl, rfl, by decide⟩
      [.call 200 .reapExpired] ?_ 201 (Sample.grant 3 3 1000) _ _ .done
      ⟨rfl, rfl, by decide⟩ rfl
    · exact absurd hlt (by decide)
    · refine ⟨⟨by decide, by decide, ?_⟩, ⟨by decide, by decide, ?_⟩,
        trivial⟩
      · intro n response hrequest
        cases hrequest
      · intro n response hrequest
        cases hrequest
  · intro hall
    have hsafe := hall 0 Sample.late (by decide)
    have hfirst : (Gateway.reached memory 0 Sample.late).log[1]? =
        some ⟨Sample.push 2 300, Sample.permit, none⟩ := by
      decide
    have hsecond : (Gateway.reached memory 0 Sample.late).log[2]? =
        some ⟨Sample.push 3 300, Sample.permit, none⟩ := by
      decide
    have hfinished := hsafe.requests 1 2 _ _ (by decide) hfirst hsecond rfl rfl
    cases hfinished

end PushGateway
end Maju
