import Maju.Relay.Admin.Authorize
import Mathlib.Algebra.Order.Floor.Semiring
import Mathlib.Algebra.Order.Field.Basic
import Mathlib.Data.Rat.Floor
import Mathlib.Tactic.Linarith
import Mathlib.Tactic.NormNum

/-!
# Once — whether a signed request is honoured once

An event passes the verifier for 121 seconds: from the start of the second that is 60 before its
time to the end of the one that is 60 after it.  Its marker lives for 120 seconds from the claim.

* `marker_outlives_iff` — the marker of an accepted event covers the rest of the window exactly if
  the claim was not made in the first second of the window;
* `Timely` — a claim that succeeds is made in the last 120 seconds of the window;
* `nip98_honoured_once` — along every run of timely claims an event is accepted once;
* `nip98_honoured_twice` — an event claimed in the first second of its window is accepted again in
  the last.
-/

namespace Maju
namespace Relay
namespace Admin

open Lib Core Auth

universe u

variable {τ : Type u} [Field τ] [LinearOrder τ] [FloorSemiring τ]

/-! ## Honoured at most once -/

/-- An event is accepted once, its marker is there whenever it would pass again, and the checks
before the claim leave every id as claimable as it was. -/
structure Honoured (p : Primitives) (config : Config) (s : Api τ) : Prop where
  once : ∀ (i j : Nat) (a b : AdminPrincipal) (e e' : Event) (t t' : τ),
    s.requests[i]? = some (.accepted a e t) → s.requests[j]? = some (.accepted b e' t') →
      e.id = e'.id → i = j
  outlives : ∀ (i : Nat) (a : AdminPrincipal) (e : Event) (t : τ),
    s.requests[i]? = some (.accepted a e t) → ∀ time, t ≤ time → Fresh e ⌊time⌋₊ →
      Present s.markers time (nip98ReplayKeyForScope adminReplayScope e.id)
  claimable : ∀ (now time : τ) (request : Request) (lookup : Except Unit (Option String))
    (key : String),
      Present (s.step p config (.present now request lookup)).markers time key ↔
        Present s.markers time key

/-- A claim that finds no marker and is answered is made in the last 120 seconds of the window of
its event. -/
def Timely (s : Api τ) : Input τ → Prop
  | .claim time call delivery =>
      ∀ principal event, delivery = .answered →
        s.requests[call]? = some (.checked principal event) →
        ¬ Present s.markers time (nip98ReplayKeyForScope adminReplayScope event.id) →
        (event.createdAt.toNat : τ) - 59 ≤ time ∧ time < event.createdAt.toNat + 61
  | _ => True

/-! ## The invariant -/

/-- What is known of a request that passed its checks at some time before. -/
structure Claimable (p : Primitives) (e : Event) (time : τ) : Prop where
  verified : p.verifyEvent e = true
  begun : e.createdAt.toNat ≤ ⌊time⌋₊ + 60

structure Inv (p : Primitives) (s : Api τ) : Prop where
  checked : ∀ principal e, .checked principal e ∈ s.requests → Claimable p e s.now
  accepted : ∀ principal e t, .accepted principal e t ∈ s.requests →
    Claimable p e t ∧ t ≤ s.now ∧
      ⟨nip98ReplayKeyForScope adminReplayScope e.id, t + 120⟩ ∈ s.markers

theorem inv_empty (p : Primitives) : Inv p (Api.empty : Api τ) where
  checked := fun _ _ hmem => absurd hmem List.not_mem_nil
  accepted := fun _ _ _ hmem => absurd hmem List.not_mem_nil

theorem Inv.setMarkers {p : Primitives} {s : Api τ} (h : Inv p s) {markers : List (Marker τ)}
    (hsub : ∀ m ∈ s.markers, m ∈ markers) : Inv p { s with markers := markers } where
  checked := h.checked
  accepted := by
    intro principal e t hmem
    obtain ⟨hclaimable, ht, hmarker⟩ := h.accepted principal e t hmem
    exact ⟨hclaimable, ht, hsub _ hmarker⟩

omit [FloorSemiring τ] in
theorem mem_tryMarkInScope {markers : List (Marker τ)} {m : Marker τ} (hm : m ∈ markers) (time : τ)
    (scope : String) (event : EventId) (ttlSecs : Nat) :
    m ∈ (tryMarkInScope markers time scope event ttlSecs).1 := by
  unfold tryMarkInScope
  simp only
  split
  · exact hm
  · exact List.mem_cons_of_mem _ hm

theorem Inv.refuse {p : Primitives} {s : Api τ} (h : Inv p s) (call : Nat) (error : ApiError) :
    Inv p { s with requests := s.requests.set call (.refused error) } where
  checked := by
    intro principal e hmem
    rcases List.mem_or_eq_of_mem_set hmem with hold | hnew
    · exact h.checked principal e hold
    · exact nomatch hnew
  accepted := by
    intro principal e t hmem
    rcases List.mem_or_eq_of_mem_set hmem with hold | hnew
    · exact h.accepted principal e t hold
    · exact nomatch hnew

omit [FloorSemiring τ] in
theorem claim_cases (s : Api τ) (time : τ) (call : Nat) (delivery : Delivery) :
    s.claim time call delivery = s ∨
    (∃ markers, (∀ m ∈ s.markers, m ∈ markers) ∧ s.claim time call delivery =
      { s with markers := markers, requests := s.requests.set call (.refused .unauthorized) }) ∨
    ∃ principal event, delivery = .answered ∧
      s.requests[call]? = some (.checked principal event) ∧
      ¬ Present s.markers time (nip98ReplayKeyForScope adminReplayScope event.id) ∧
      s.claim time call delivery =
        { s with
            markers := ⟨nip98ReplayKeyForScope adminReplayScope event.id, time + 120⟩ :: s.markers
            requests := s.requests.set call (.accepted principal event time) } := by
  unfold Api.claim
  split
  next principal event hcall =>
    cases delivery with
    | unreachable => exact Or.inr (Or.inl ⟨s.markers, fun _ hm => hm, rfl⟩)
    | lost => exact Or.inr (Or.inl ⟨_, fun m hm => mem_tryMarkInScope hm _ _ _ _, rfl⟩)
    | answered =>
        by_cases hpresent : Present s.markers time
            (nip98ReplayKeyForScope adminReplayScope event.id)
        · simp only [tryMarkInScope, hpresent, if_true]
          exact Or.inr (Or.inl ⟨s.markers, fun _ hm => hm, rfl⟩)
        · simp only [tryMarkInScope, hpresent, if_false]
          exact Or.inr (Or.inr ⟨principal, event, trivial, hcall, hpresent, rfl⟩)
  next => exact Or.inl rfl

theorem Inv.claim {p : Primitives} {s : Api τ} (h : Inv p s) {time : τ} (hnow : s.now = time)
    (call : Nat) (delivery : Delivery) : Inv p (s.claim time call delivery) := by
  rcases claim_cases s time call delivery with heq | ⟨markers, hsub, heq⟩ |
    ⟨principal, event, -, hcall, -, heq⟩
  · exact heq.symm ▸ h
  · exact heq.symm ▸ (h.setMarkers hsub).refuse call .unauthorized
  · rw [heq]
    have hmarked : Inv p { s with
        markers := ⟨nip98ReplayKeyForScope adminReplayScope event.id, time + 120⟩ :: s.markers } :=
      h.setMarkers fun _ hm => List.mem_cons_of_mem _ hm
    refine ⟨?_, ?_⟩
    · intro principal' e hmem
      rcases List.mem_or_eq_of_mem_set hmem with hold | hnew
      · exact h.checked principal' e hold
      · exact nomatch hnew
    · intro principal' e t hmem
      rcases List.mem_or_eq_of_mem_set hmem with hold | hnew
      · exact hmarked.accepted principal' e t hold
      · obtain ⟨-, rfl, rfl⟩ := Phase.accepted.inj hnew
        have hchecked := h.checked principal e (List.mem_of_getElem? hcall)
        exact ⟨hnow ▸ hchecked, hnow.symm.le, List.mem_cons_self⟩

theorem Inv.present {p : Primitives} {s : Api τ} (h : Inv p s) (config : Config) {time : τ}
    (hnow : s.now = time) (request : Request) (lookup : Except Unit (Option String)) :
    Inv p (s.present p config time request lookup) where
  checked := by
    intro principal e hmem
    rcases List.mem_append.mp hmem with hold | hnew
    · exact h.checked principal e hold
    · have hphase := List.mem_singleton.mp hnew
      split at hphase
      next => exact nomatch hphase
      next => exact nomatch hphase
      next hcheck =>
        obtain ⟨-, rfl⟩ := Phase.checked.inj hphase
        obtain ⟨hverified, hfresh⟩ := checkRequest_verified hcheck
        exact hnow.symm ▸ ⟨hverified, (fresh_iff.mp hfresh).1⟩
  accepted := by
    intro principal e t hmem
    rcases List.mem_append.mp hmem with hold | hnew
    · exact h.accepted principal e t hold
    · have hphase := List.mem_singleton.mp hnew
      split at hphase <;> exact nomatch hphase

/-! ## The window -/

variable [IsStrictOrderedRing τ]

omit [IsStrictOrderedRing τ] in
theorem lt_of_fresh {e : Event} {time : τ} (h : Fresh e ⌊time⌋₊) :
    time < (e.createdAt.toNat : τ) + 61 := by
  have hfloor : ⌊time⌋₊ < e.createdAt.toNat + 61 := Nat.lt_succ_of_le (fresh_iff.mp h).2
  have hlt := Nat.lt_of_floor_lt hfloor
  push_cast at hlt
  exact hlt

theorem floor_le_of_lt {n : Nat} {time : τ} (h : time < (n : τ) + 61) : ⌊time⌋₊ ≤ n + 60 := by
  have hcast : time < ((n + 61 : Nat) : τ) := by
    push_cast
    exact h
  have hlt := (Nat.floor_lt' (Nat.succ_ne_zero (n + 60))).mpr hcast
  omega

theorem Claimable.mono {p : Primitives} {e : Event} {time time' : τ} (h : Claimable p e time)
    (hle : time ≤ time') : Claimable p e time' :=
  ⟨h.verified, h.begun.trans (Nat.add_le_add_right (Nat.floor_mono hle) 60)⟩

theorem Inv.setNow {p : Primitives} {s : Api τ} (h : Inv p s) {time : τ} (hle : s.now ≤ time) :
    Inv p { s with now := time } where
  checked := fun principal e hmem => (h.checked principal e hmem).mono hle
  accepted := by
    intro principal e t hmem
    obtain ⟨hclaimable, ht, hmarker⟩ := h.accepted principal e t hmem
    exact ⟨hclaimable, ht.trans hle, hmarker⟩

theorem Inv.step {p : Primitives} {s : Api τ} (h : Inv p s) (config : Config) (input : Input τ) :
    Inv p (s.step p config input) := by
  unfold Api.step
  split
  · exact h
  next hlt =>
    have hset := h.setNow (le_of_not_gt hlt)
    cases input with
    | present time request lookup => exact hset.present config rfl request lookup
    | claim time call delivery => exact hset.claim rfl call delivery
    | mark time scope event ttlSecs =>
        exact hset.setMarkers fun m hm => mem_tryMarkInScope hm _ _ _ _

/-! ## One claim -/

/-- The marker of an accepted event outlives the rest of the window of the event exactly if the
claim was not made in the first second of the window. -/
theorem marker_outlives_iff {p : Primitives} {e : Event} {t : τ} (h : Claimable p e t) :
    (∀ time, t ≤ time → Fresh e ⌊time⌋₊ → time < t + 120) ↔ (e.createdAt.toNat : τ) - 59 ≤ t := by
  constructor
  · intro hcovers
    by_contra hearly
    -- The moment at which the marker vanishes is still in the window.
    have hend : t + 120 < (e.createdAt.toNat : τ) + 61 := by linarith [not_le.mp hearly]
    have hfresh : Fresh e ⌊t + 120⌋₊ := by
      refine fresh_iff.mpr ⟨?_, floor_le_of_lt hend⟩
      exact h.begun.trans (Nat.add_le_add_right (Nat.floor_mono (by linarith)) 60)
    exact lt_irrefl _ (hcovers (t + 120) (by linarith) hfresh)
  · intro hlate time _ hfresh
    linarith [lt_of_fresh hfresh]

/-! ## Runs -/

/-- Two requests are accepted for one event. -/
def SameEvent (x y : Phase τ) : Prop :=
  ∃ a b e e' t t', x = .accepted a e t ∧ y = .accepted b e' t' ∧ e.id = e'.id

omit [Field τ] [LinearOrder τ] [FloorSemiring τ] [IsStrictOrderedRing τ] in
theorem SameEvent.symm (x y : Phase τ) : SameEvent x y → SameEvent y x := by
  rintro ⟨a, b, e, e', t, t', hx, hy, hid⟩
  exact ⟨b, a, e', e, t', t, hy, hx, hid.symm⟩

/-- The invariant of timely runs: claims came late enough, and events are accepted once. -/
structure Sound (p : Primitives) (s : Api τ) : Prop where
  inv : Inv p s
  late : ∀ principal e t, .accepted principal e t ∈ s.requests → (e.createdAt.toNat : τ) - 59 ≤ t
  once : Slots.Exclusive SameEvent s.requests

omit [IsStrictOrderedRing τ] in
theorem sound_empty (p : Primitives) : Sound p (Api.empty : Api τ) where
  inv := inv_empty p
  late := fun _ _ _ hmem => absurd hmem List.not_mem_nil
  once := .nil

omit [IsStrictOrderedRing τ] in
theorem Sound.of_set {p : Primitives} {s s' : Api τ} (h : Sound p s) (hinv : Inv p s') (call : Nat)
    {phase : Phase τ} (hset : s'.requests = s.requests.set call phase)
    (hphase : ∀ a e t, phase ≠ .accepted a e t) : Sound p s' where
  inv := hinv
  late := by
    intro principal e t hmem
    rw [hset] at hmem
    rcases List.mem_or_eq_of_mem_set hmem with hold | hnew
    · exact h.late principal e t hold
    · exact absurd hnew.symm (hphase principal e t)
  once := by
    rw [hset]
    refine h.once.set SameEvent.symm ?_
    rintro j x - ⟨a, b, e, e', t, t', -, hnew, -⟩
    exact absurd hnew (hphase b e' t')

theorem Sound.not_accepted {p : Primitives} {s : Api τ} (h : Sound p s) {event : Event} {time : τ}
    (hverified : p.verifyEvent event = true) (htimely : time < (event.createdAt.toNat : τ) + 61)
    (hfree : ¬ Present s.markers time (nip98ReplayKeyForScope adminReplayScope event.id))
    {a : AdminPrincipal} {e : Event} {t : τ} (hmem : .accepted a e t ∈ s.requests) :
    e.id ≠ event.id := by
  intro hid
  obtain ⟨hclaimable, -, hmarker⟩ := h.inv.accepted a e t hmem
  obtain rfl : e = event := p.id_binds e event hclaimable.verified hverified hid
  have hlate := h.late a e t hmem
  refine hfree ⟨_, hmarker, rfl, ?_⟩
  calc
    time < (e.createdAt.toNat : τ) + 61 := htimely
    _ = (e.createdAt.toNat : τ) - 59 + 120 := by ring
    _ ≤ t + 120 := by linarith

theorem Sound.claim {p : Primitives} {s : Api τ} (h : Sound p s) {time : τ} (hnow : s.now = time)
    (call : Nat) (delivery : Delivery)
    (htimely : Timely s (.claim time call delivery)) :
    Sound p (s.claim time call delivery) := by
  have hinv := h.inv.claim hnow call delivery
  rcases claim_cases s time call delivery with heq | ⟨markers, -, heq⟩ |
    ⟨principal, event, hanswered, hcall, hfree, heq⟩
  · exact heq.symm ▸ h
  · rw [heq] at hinv ⊢
    exact h.of_set hinv call rfl fun _ _ _ hne => nomatch hne
  · obtain ⟨hlate, hin⟩ := htimely principal event hanswered hcall hfree
    have hverified := (h.inv.checked principal event (List.mem_of_getElem? hcall)).verified
    rw [heq] at hinv ⊢
    refine ⟨hinv, ?_, ?_⟩
    · intro principal' e t hmem
      rcases List.mem_or_eq_of_mem_set hmem with hold | hnew
      · exact h.late principal' e t hold
      · obtain ⟨-, rfl, rfl⟩ := Phase.accepted.inj hnew
        exact hlate
    · refine h.once.set SameEvent.symm ?_
      rintro j x hx ⟨a, b, e, e', t, t', rfl, hnew, hid⟩
      obtain ⟨-, rfl, -⟩ := Phase.accepted.inj hnew
      exact absurd hid (h.not_accepted hverified hin hfree (List.mem_of_getElem? hx))

theorem Sound.step {p : Primitives} {s : Api τ} (h : Sound p s) (config : Config) {input : Input τ}
    (hinput : Timely s input) : Sound p (s.step p config input) := by
  unfold Api.step
  split
  · exact h
  next hlt =>
    have hset : Sound p { s with now := input.time } :=
      ⟨h.inv.setNow (le_of_not_gt hlt), h.late, h.once⟩
    cases input with
    | present time request lookup =>
        refine ⟨hset.inv.present config rfl request lookup, ?_, ?_⟩
        · intro principal e t hmem
          rcases List.mem_append.mp hmem with hold | hnew
          · exact h.late principal e t hold
          · have hphase := List.mem_singleton.mp hnew
            split at hphase <;> exact nomatch hphase
        · refine h.once.append SameEvent.symm ?_
          rintro x - ⟨a, b, e, e', t, t', -, hphase, -⟩
          split at hphase <;> exact nomatch hphase
    | claim time call delivery => exact hset.claim rfl call delivery hinput
    | mark time scope event ttlSecs =>
        refine ⟨hset.inv.setMarkers fun m hm => mem_tryMarkInScope hm _ _ _ _, h.late, h.once⟩

/-- Along every run of timely claims an event is honoured at most once. -/
theorem nip98_honoured_once (p : Primitives) (config : Config) (inputs : List (Input τ))
    (h : Run.Along Timely (Api.step p config) Api.empty inputs) :
    Honoured p config (Api.run p config inputs) := by
  have hsound : Sound p (Api.run p config inputs) :=
    Run.invariant (Sound p) (fun _ _ hs hinput => hs.step config hinput) (sound_empty p) h
  refine ⟨?_, ?_, ?_⟩
  · intro i j a b e e' t t' hi hj hid
    exact hsound.once i j _ _ hi hj ⟨a, b, e, e', t, t', rfl, rfl, hid⟩
  · intro i a e t hi time hle hfresh
    obtain ⟨hclaimable, -, hmarker⟩ := hsound.inv.accepted a e t (List.mem_of_getElem? hi)
    refine ⟨_, hmarker, rfl, ?_⟩
    exact (marker_outlives_iff hclaimable).mpr (hsound.late a e t (List.mem_of_getElem? hi))
      time hle hfresh
  · intro now time request lookup key
    unfold Api.step
    split <;> rfl

namespace Sample

/-- A signed event, as a client sends it. -/
def eventJson : String :=
  "\x7b\"id\":\"bd0bf3e802a99675c3ccb8dae9095f190d3b2a6437f3409c81deaf1a4798b8e4\"," ++
  "\"pubkey\":\"f9308a019258c31049344f85f89d5229b531c845836f99b08601f113bce036f9\"," ++
  "\"created_at\":1767225600,\"kind\":27235," ++
  "\"tags\":[[\"u\",\"https://admin.example.com/api/admin/v1/reports\"]," ++
  "[\"method\",\"GET\"]],\"content\":\"\"," ++
  "\"sig\":\"987d1d8e7fcce61d0b5138ab6502f887fb6a7d8c6757d02af5a7031c6c46635c" ++
  "4224baf62ac459e90214d1687aa6bedfd3c43e074f5921a4b31e68671a4dbc9f\"\x7d"

def credential : String :=
  "e" ++ ("yJpZCI6ImJkMGJmM2U4MDJhOTk2NzVjM2NjYjhkYWU5MDk1ZjE5MGQzYjJhNjQzN2YzNDA5YzgxZGVhZjFhN" ++
  "Dc5OGI4ZTQiLCJwdWJrZXkiOiJmOTMwOGEwMTkyNThjMzEwNDkzNDRmODVmODlkNTIyOWI1MzFjODQ1ODM2Z" ++
  "jk5YjA4NjAxZjExM2JjZTAzNmY5IiwiY3JlYXRlZF9hdCI6MTc2NzIyNTYwMCwia2luZCI6MjcyMzUsInRhZ" ++
  "3MiOltbInUiLCJodHRwczovL2FkbWluLmV4YW1wbGUuY29tL2FwaS9hZG1pbi92MS9yZXBvcnRzIl0sWyJtZ" ++
  "XRob2QiLCJHRVQiXV0sImNvbnRlbnQiOiIiLCJzaWciOiI5ODdkMWQ4ZTdmY2NlNjFkMGI1MTM4YWI2NTAyZ" ++
  "jg4N2ZiNmE3ZDhjNjc1N2QwMmFmNWE3MDMxYzZjNDY2MzVjNDIyNGJhZjYyYWM0NTllOTAyMTRkMTY4N2FhN" ++
  "mJlZGZkM2M0M2UwNzRmNTkyMWE0YjMxZTY4NjcxYTRkYmM5ZiJ9")

def event : Event where
  id := 0xbd0bf3e802a99675c3ccb8dae9095f190d3b2a6437f3409c81deaf1a4798b8e4
  pubkey := 0xf9308a019258c31049344f85f89d5229b531c845836f99b08601f113bce036f9
  createdAt := 1767225600
  kind := 27235
  tags := [⟨"u", ["https://admin.example.com/api/admin/v1/reports"]⟩, ⟨"method", ["GET"]⟩]

/-- The libraries, on the one credential. -/
def primitives : Primitives where
  decode := fun text => if text = credential then some eventJson else none
  parse := fun text => if text = eventJson then some event else none
  verifyEvent := fun e => decide (e = event)
  trimUrl := some
  toLowercase := id
  sha256 := fun _ => 0
  id_binds := by
    intro e e' he he' _
    rw [of_decide_eq_true he, of_decide_eq_true he']

def config : Config where
  host := "admin.example.com"
  auth := .nip98
  relayOperatorPubkeys := ["f9308a019258c31049344f85f89d5229b531c845836f99b08601f113bce036f9"]
  relayOwnerPubkey := none

def request : Request where
  authorization := [some ("Nostr " ++ credential)]
  host := some (some "admin.example.com")
  origin := none
  pathAndQuery := "/reports"
  method := "GET"
  rawBody := none

def principal : AdminPrincipal := ⟨event.pubkey, .operator, .config⟩

theorem credential_head : credential.toList.head? = some 'e' := by
  rw [credential, String.toList_append]
  rfl

theorem verifyTags_ok : verifyTags primitives event (canonicalUrl "admin.example.com"
    (adminApiPrefix ++ "/reports")) "GET" none = .ok event.pubkey := by decide

theorem resolveAdminPrincipal_ok :
    resolveAdminPrincipal config event.pubkey (.ok none) = .ok principal := by decide

theorem checkHost_ok : checkHost config request = true := by decide

theorem checkRequest_eq {now : Nat} (h : Fresh event now) :
    checkRequest primitives config request (.ok none) now = .ok (some (principal, event)) := by
  have hdecode : (nostrCredential ("Nostr " ++ credential)).bind primitives.decode =
      some eventJson := by
    rw [nostrCredential_nostr credential_head (by decide), Option.bind_some]
    simp only [primitives, if_true]
  have hparse : primitives.parse eventJson = some event := by
    simp only [primitives, if_true]
  have hverified : primitives.verifyEvent event = true := by
    simp only [primitives, decide_true]
  have hverify := (verifyNip98Event_eq hparse (by decide) hverified h).trans verifyTags_ok
  exact checkRequest_ok rfl (authorizeNip98_ok rfl hdecode hparse rfl hverify)
    resolveAdminPrincipal_ok checkHost_ok

/-- The request is presented and claimed at a moment. -/
def use (time : ℚ) (call : Nat) : List (Input ℚ) :=
  [.present time request (.ok none), .claim time call .answered]

theorem run_use {s : Api ℚ} {time : ℚ} (hnow : s.now ≤ time) (hfresh : Fresh event ⌊time⌋₊)
    (hfree : ¬ Present s.markers time (nip98ReplayKeyForScope adminReplayScope event.id)) :
    Run.run (Api.step primitives config) s (use time s.requests.length) =
      ⟨time, ⟨nip98ReplayKeyForScope adminReplayScope event.id, time + 120⟩ :: s.markers,
        s.requests ++ [.accepted principal event time]⟩ := by
  have hpresent : s.step primitives config (.present time request (.ok none)) =
      ⟨time, s.markers, s.requests ++ [.checked principal event]⟩ := by
    simp [Api.step, Input.time, not_lt.mpr hnow, Api.present, checkRequest_eq hfresh]
  have hclaim : (⟨time, s.markers, s.requests ++ [.checked principal event]⟩ : Api ℚ).step
      primitives config (.claim time s.requests.length .answered) =
      ⟨time, ⟨nip98ReplayKeyForScope adminReplayScope event.id, time + 120⟩ :: s.markers,
        s.requests ++ [.accepted principal event time]⟩ := by
    simp [Api.step, Input.time, Api.claim, tryMarkInScope, hfree, defaultReplayTtlSecs,
      maxReplayTtlSecs]
  simp only [Run.run, use, List.foldl_cons, List.foldl_nil, hpresent, hclaim]

/-- Used in the first second of its window, and again half a second before the end. -/
def replay : List (Input ℚ) := use 1767225540 0 ++ use (3534451321 / 2) 1

end Sample

/-- A claim at the time of the event is timely. -/
theorem nip98_honoured_once_use :
    Run.Along Timely (Api.step Sample.primitives Sample.config) Api.empty
        (Sample.use 1767225600 0) ∧
      (Api.run Sample.primitives Sample.config (Sample.use 1767225600 0)).requests =
        [.accepted Sample.principal Sample.event 1767225600] ∧
      Honoured Sample.primitives Sample.config
        (Api.run Sample.primitives Sample.config (Sample.use 1767225600 0)) := by
  have hfresh : Fresh Sample.event ⌊(1767225600 : ℚ)⌋₊ := by
    rw [Nat.floor_ofNat]
    decide
  have htime : Sample.event.createdAt.toNat = 1767225600 := by decide
  have htimely : Run.Along Timely (Api.step Sample.primitives Sample.config) Api.empty
      (Sample.use 1767225600 0) := by
    refine ⟨trivial, ?_, trivial⟩
    intro principal event _ hchecked _
    simp only [Api.step, Input.time, Api.empty, Api.present, Sample.checkRequest_eq hfresh] at hchecked
    norm_num at hchecked
    obtain ⟨-, rfl⟩ := hchecked
    rw [htime]
    norm_num
  refine ⟨htimely, ?_, nip98_honoured_once _ _ _ htimely⟩
  have hrun := Sample.run_use (s := Api.empty) (by norm_num [Api.empty]) hfresh
    (by simp [Present, Api.empty])
  exact congrArg Api.requests hrun

/-- One event is accepted twice. -/
theorem nip98_honoured_twice :
    (Api.run Sample.primitives Sample.config Sample.replay).requests =
        [.accepted Sample.principal Sample.event 1767225540,
          .accepted Sample.principal Sample.event (3534451321 / 2)] ∧
      ¬ Honoured Sample.primitives Sample.config
        (Api.run Sample.primitives Sample.config Sample.replay) := by
  let key := nip98ReplayKeyForScope adminReplayScope Sample.event.id
  have hfirst : Run.run (Api.step Sample.primitives Sample.config) Api.empty
      (Sample.use 1767225540 0) =
        ⟨1767225540, [⟨key, 1767225540 + 120⟩],
          [.accepted Sample.principal Sample.event 1767225540]⟩ := by
    refine Sample.run_use (s := Api.empty) (by norm_num [Api.empty]) ?_ (by simp [Present, Api.empty])
    rw [Nat.floor_ofNat]
    decide
  have hsecond : Run.run (Api.step Sample.primitives Sample.config)
      ⟨1767225540, [⟨key, 1767225540 + 120⟩],
        [.accepted Sample.principal Sample.event 1767225540]⟩ (Sample.use (3534451321 / 2) 1) =
        ⟨3534451321 / 2, [⟨key, 3534451321 / 2 + 120⟩, ⟨key, 1767225540 + 120⟩],
          [.accepted Sample.principal Sample.event 1767225540,
            .accepted Sample.principal Sample.event (3534451321 / 2)]⟩ :=
    -- The marker vanished 60 seconds after the time of the event, half a second ago.
    Sample.run_use (by norm_num) (by decide +kernel) (by norm_num [Present])
  have hrequests : (Api.run Sample.primitives Sample.config Sample.replay).requests =
      [.accepted Sample.principal Sample.event 1767225540,
        .accepted Sample.principal Sample.event (3534451321 / 2)] := by
    rw [Api.run, Sample.replay, Run.run_append, hfirst, hsecond]
  refine ⟨hrequests, fun h => ?_⟩
  have hsame := h.once 0 1 _ _ _ _ _ _ (by rw [hrequests]; rfl) (by rw [hrequests]; rfl) rfl
  exact absurd hsame (by decide)

end Admin
end Relay
end Maju
