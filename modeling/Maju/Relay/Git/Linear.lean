import Maju.Lib.HashChain
import Maju.Relay.Git.Protocol

/-!
# Linear — the installed manifests form one chain

The only serialization of the pushers is the conditional write.  The invariant `Linear` says that
the pointer names the last manifest installed, and that every pusher carries an observation of one
manifest that was installed: its ETag, and its digest as the parent of the manifest to come.  If
equal ETags stand for equal bodies, a write that passes its precondition therefore extends the
chain at its end, even when the ETag is only a function of the body.
-/

namespace Maju
namespace Relay
namespace Git

open Lib

variable {P E : Type} {backend : Backend P E} {w : World P E}

/-! ## The invariant -/

/-- The pointer that the last of the installed manifests left. -/
def pointerOf (backend : Backend P E) (installed : List Manifest) : Option (E × Text) :=
  installed.getLast?.map fun m =>
    (backend.etag (installed.length - 1) (backend.manifestDigest m), backend.manifestDigest m)

/-- A pointer that was read: absent, or the one that some installed manifest left. -/
def Observed (backend : Backend P E) (installed : List Manifest) (pointer : Option (E × Text)) :
    Prop :=
  pointer = none ∨ ∃ i m, installed[i]? = some m ∧
    pointer = some (backend.etag i (backend.manifestDigest m), backend.manifestDigest m)

/-- The observation that a pusher hands from the hydration to the CAS. -/
def ParentState.observation (parent : ParentState E) : Option (E × Text) :=
  match parent.ifMatch, parent.parentDigest with
  | some etag, some digest => some (etag, digest)
  | _, _ => none

/-- The ETag and the digest come from one observation. -/
def Threaded (backend : Backend P E) (installed : List Manifest) (parent : ParentState E) : Prop :=
  (parent.ifMatch = none ↔ parent.parentDigest = none) ∧
    Observed backend installed parent.observation

/-- What a pusher carries in each phase. -/
def PhaseOk (backend : Backend P E) (installed : List Manifest) : Phase E → Prop
  | .observed pointer => Observed backend installed pointer
  | .hydrated parent => Threaded backend installed parent
  | .prepared parent m =>
      Threaded backend installed parent ∧ m.Canonical ∧ m.parent = parent.parentDigest
  | .stored parent m =>
      Threaded backend installed parent ∧ m.Canonical ∧ m.parent = parent.parentDigest
  | .returned (.ok m) => m ∈ installed
  | _ => True

/-- Equal ETags of two writes stand for equal bodies. -/
def EtagsFaithful (backend : Backend P E) (installed : List Manifest) : Prop :=
  ∀ i j m n, installed[i]? = some m → installed[j]? = some n →
    backend.etag i (backend.manifestDigest m) = backend.etag j (backend.manifestDigest n) →
      backend.manifestDigest m = backend.manifestDigest n

/-- No two of the installed manifests have the same hash and different bytes. -/
def CollisionFree (backend : Backend P E) (installed : List Manifest) : Prop :=
  ∀ m ∈ installed, ∀ n ∈ installed,
    backend.sha256 m.canonicalBytes = backend.sha256 n.canonicalBytes →
      m.canonicalBytes = n.canonicalBytes

/-- The invariant of every run. -/
structure Linear (backend : Backend P E) (w : World P E) : Prop where
  chain : HashChain.Succession Manifest.parent backend.manifestDigest none w.installed
  canonical : ∀ m ∈ w.installed, m.Canonical
  pointer : w.store.pointer = pointerOf backend w.installed
  writes : w.store.writes = w.installed.length
  pushers : ∀ p phase, w.pushers.lookup p = some phase → PhaseOk backend w.installed phase

theorem getElem?_append_of_some {α : Type} {l : List α} {i : Nat} {a : α} (h : l[i]? = some a)
    (b : α) : (l ++ [b])[i]? = some a := by
  rcases List.getElem?_eq_some_iff.1 h with ⟨hi, _⟩
  rw [List.getElem?_append_left hi, h]

theorem EtagsFaithful.of_append {installed : List Manifest} {m : Manifest}
    (h : EtagsFaithful backend (installed ++ [m])) : EtagsFaithful backend installed := by
  intro i j a b ha hb heq
  exact h i j a b (getElem?_append_of_some ha m) (getElem?_append_of_some hb m) heq

theorem Observed.append {installed : List Manifest} {pointer : Option (E × Text)}
    (h : Observed backend installed pointer) (m : Manifest) :
    Observed backend (installed ++ [m]) pointer := by
  rcases h with hnone | ⟨i, n, hn, heq⟩
  · exact Or.inl hnone
  · exact Or.inr ⟨i, n, getElem?_append_of_some hn m, heq⟩

theorem PhaseOk.append {installed : List Manifest} {phase : Phase E}
    (h : PhaseOk backend installed phase) (m : Manifest) :
    PhaseOk backend (installed ++ [m]) phase := by
  cases phase with
  | observed pointer => exact Observed.append h m
  | hydrated parent => exact ⟨h.1, h.2.append m⟩
  | prepared parent n => exact ⟨⟨h.1.1, h.1.2.append m⟩, h.2⟩
  | stored parent n => exact ⟨⟨h.1.1, h.1.2.append m⟩, h.2⟩
  | returned result => cases result with
      | ok n => exact List.mem_append_left _ h
      | error e => trivial
  | _ => trivial

theorem PhaseOk.of_idle {installed : List Manifest} {phase : Phase E} (h : phase.Idle) :
    PhaseOk backend installed phase := by
  cases phase with
  | returned result => cases result with
      | ok m => cases h
      | error e => trivial
  | lostRace | refused | failed | crashed => trivial
  | observed | hydrated | prepared | stored => cases h

theorem observed_pointerOf (installed : List Manifest) :
    Observed backend installed (pointerOf backend installed) := by
  cases hlast : installed.getLast? with
  | none => exact Or.inl (by simp [pointerOf, hlast])
  | some m =>
      refine Or.inr ⟨installed.length - 1, m, ?_, by simp [pointerOf, hlast]⟩
      rw [← hlast, List.getLast?_eq_getElem?]

theorem pointerOf_append (installed : List Manifest) (m : Manifest) :
    pointerOf backend (installed ++ [m]) =
      some (backend.etag installed.length (backend.manifestDigest m), backend.manifestDigest m) := by
  simp [pointerOf]

/-! ## Preservation -/

theorem linear_start : Linear backend (World.start : World P E) := by
  refine ⟨trivial, ?_, rfl, rfl, ?_⟩
  · intro m hm
    cases hm
  · intro p phase h
    cases h

theorem Linear.setPhase (h : Linear backend w) (p : Nat) {phase : Phase E}
    (hphase : PhaseOk backend w.installed phase) : Linear backend (w.setPhase p phase) := by
  refine ⟨h.chain, h.canonical, h.pointer, h.writes, ?_⟩
  intro q phase' hq
  rw [World.setPhase, HashMap.lookup_insert_eq] at hq
  split_ifs at hq with hqp
  · cases hq
    exact hphase
  · exact h.pushers q phase' hq

theorem Linear.putPack (h : Linear backend w) (pack : P) :
    Linear backend (w.putPack backend pack) :=
  ⟨h.chain, h.canonical, h.pointer, h.writes, h.pushers⟩

theorem Linear.putPacks (h : Linear backend w) (packs : List P) :
    Linear backend (w.putPacks backend packs) := by
  rcases w.putPacks_frame backend packs with ⟨objects, heq⟩
  rw [heq]
  exact ⟨h.chain, h.canonical, h.pointer, h.writes, h.pushers⟩

theorem Linear.putManifest (h : Linear backend w) (m : Manifest) :
    Linear backend (w.putManifest backend m) :=
  ⟨h.chain, h.canonical, h.pointer, h.writes, h.pushers⟩

theorem threaded_hydrate {installed : List Manifest} {store : RepoStore P E} {parent : ParentState E}
    (hpointer : Observed backend installed store.pointer)
    (h : hydrateForWrite backend store = .ok parent) : Threaded backend installed parent := by
  rcases hydrateForWrite_ok h with ⟨_, rfl⟩ | ⟨etag, digest, m, hload, rfl⟩
  · exact ⟨by simp [ParentState.fresh], Or.inl rfl⟩
  · rcases loadPointer_ok hload with ⟨body, _, hbody, hdigest, _⟩
    refine ⟨by simp, ?_⟩
    rcases hpointer with hnone | ⟨i, n, hn, heq⟩
    · rw [hbody] at hnone
      cases hnone
    · rw [hbody] at heq
      cases heq
      rw [hdigest, Backend.manifestDigest, trim_hexDigits]
      exact Or.inr ⟨i, n, hn, rfl⟩

theorem threaded_fresh (installed : List Manifest) :
    Threaded backend installed (ParentState.fresh E) :=
  ⟨by simp [ParentState.fresh], Or.inl rfl⟩

theorem Linear.install (h : Linear backend w) {m : Manifest} (hcanonical : m.Canonical)
    (hparent : m.parent = HashChain.lastDigest backend.manifestDigest none w.installed) :
    Linear backend (w.install backend m) := by
  refine ⟨HashChain.succession_append.2 ⟨h.chain, hparent⟩, ?_, ?_, ?_, ?_⟩
  · intro n hn
    rcases List.mem_append.1 hn with hold | hnew
    · exact h.canonical n hold
    · rw [List.mem_singleton.1 hnew]
      exact hcanonical
  · rw [World.install, pointerOf_append, ← h.writes]
    rfl
  · simp [World.install, writePointer, h.writes]
  · intro p phase hp
    exact (h.pushers p phase hp).append m

section Step

variable [DecidableEq E]

theorem Linear.parent_eq_last (h : Linear backend w) {parent : ParentState E}
    (hthreaded : Threaded backend w.installed parent) (hetags : EtagsFaithful backend w.installed)
    (hpre : preconditionHolds w.store parent.ifMatch = true) :
    parent.parentDigest = HashChain.lastDigest backend.manifestDigest none w.installed := by
  have hpointer := h.pointer
  cases hmatch : parent.ifMatch with
  | none =>
      -- create-only: the pointer is absent, so nothing was installed
      rw [hmatch] at hpre
      cases hlast : w.installed.getLast? with
      | none => simp [HashChain.lastDigest, hlast, hthreaded.1.1 hmatch]
      | some m =>
          simp [preconditionHolds, hpointer, pointerOf, hlast] at hpre
  | some etag =>
      cases hdigest : parent.parentDigest with
      | none =>
          rw [hthreaded.1.2 hdigest] at hmatch
          cases hmatch
      | some digest =>
          rcases hthreaded.2 with hnone | ⟨i, m, hm, heq⟩
          · simp [ParentState.observation, hmatch, hdigest] at hnone
          · simp only [ParentState.observation, hmatch, hdigest, Option.some.injEq,
              Prod.mk.injEq] at heq
            cases hlast : w.installed.getLast? with
            | none => simp [preconditionHolds, hmatch, hpointer, pointerOf, hlast] at hpre
            | some n =>
                have hn : w.installed[w.installed.length - 1]? = some n := by
                  rw [← List.getLast?_eq_getElem?, hlast]
                have hsame : backend.etag (w.installed.length - 1) (backend.manifestDigest n) =
                    etag := by
                  simpa [preconditionHolds, hmatch, hpointer, pointerOf, hlast] using hpre
                have hbody := hetags _ _ n m hn hm (hsame.trans heq.1)
                simp [HashChain.lastDigest, hlast, heq.2, hbody]

theorem Linear.step (h : Linear backend w) (hetags : EtagsFaithful backend w.installed)
    (input : Input P) : Linear backend (step backend w input) := by
  have hstep := stepped backend w input
  generalize Git.step backend w input = w' at hstep ⊢
  cases hstep with
  | still => exact h
  | seeded => exact h.putManifest emptyManifest
  | seedInstalled _ hpre =>
      have hthreaded : Threaded backend w.installed (ParentState.fresh E) := threaded_fresh _
      exact (h.putManifest emptyManifest).install ⟨rfl, List.Pairwise.nil⟩
        ((h.putManifest emptyManifest).parent_eq_last hthreaded hetags hpre)
  | observed hp => exact h.setPhase _ (h.pointer ▸ observed_pointerOf w.installed)
  | hydrated hp hread =>
      rename_i p materialized pointer parent
      have hobserved : Observed backend w.installed pointer := h.pushers p _ hp
      exact h.setPhase p (threaded_hydrate hobserved hread)
  | uploaded p pack => exact h.putPack pack
  | prepared hp hprepare =>
      have hcompose := composeManifest_canonical (prepareManifest_ok hprepare).1
      refine (h.putPacks _).setPhase _ ?_
      rw [World.putPacks_installed]
      exact ⟨h.pushers _ _ hp, hcompose⟩
  | stored hp hphase =>
      rename_i p delivery parent m phase
      have hold : PhaseOk backend w.installed (.prepared parent m) := h.pushers p _ hp
      refine (h.putManifest m).setPhase p ?_
      rcases hphase with rfl | hidle
      · exact hold
      · exact .of_idle hidle
  | installed hp hpre hresult =>
      rename_i p delivery parent m result
      rcases h.pushers p _ hp with ⟨hthreaded, hcanonical, hparent⟩
      refine (h.install hcanonical
        (hparent.trans (h.parent_eq_last hthreaded hetags hpre))).setPhase p ?_
      rcases hresult with rfl | hidle
      · exact List.mem_append_right _ (List.mem_singleton.2 rfl)
      · exact .of_idle hidle
  | ended hp hold hphase => exact h.setPhase _ (.of_idle hphase)

/-! ## Runs -/

theorem step_installed (backend : Backend P E) (w : World P E) (input : Input P) :
    (step backend w input).installed = w.installed ∨
      ∃ m, (step backend w input).installed = w.installed ++ [m] := by
  have hstep := stepped backend w input
  generalize step backend w input = w' at hstep ⊢
  cases hstep with
  | seedInstalled => exact Or.inr ⟨emptyManifest, rfl⟩
  | installed => exact Or.inr ⟨_, rfl⟩
  | prepared => exact Or.inl (World.putPacks_installed ..)
  | _ => exact Or.inl rfl

theorem EtagsFaithful.of_step {input : Input P}
    (h : EtagsFaithful backend (step backend w input).installed) :
    EtagsFaithful backend w.installed := by
  rcases step_installed backend w input with heq | ⟨m, heq⟩
  · rwa [heq] at h
  · rw [heq] at h
    exact h.of_append

theorem linear_runFrom (inputs : List (Input P))
    (h : EtagsFaithful backend (runFrom backend inputs).installed) :
    Linear backend (runFrom backend inputs) := by
  unfold runFrom at h ⊢
  refine Run.invariant_of_step (fun w => EtagsFaithful backend w.installed → Linear backend w) ?_
    (fun _ => linear_start) inputs h
  intro w input hw hetags
  exact (hw hetags.of_step).step hetags.of_step input

theorem runFrom_snoc (inputs : List (Input P)) (input : Input P) :
    runFrom backend (inputs ++ [input]) = step backend (runFrom backend inputs) input := by
  simp [runFrom, Run.run]

theorem EtagsFaithful.of_prefix {before after : List (Input P)}
    (h : EtagsFaithful backend (runFrom backend (before ++ after)).installed) :
    EtagsFaithful backend (runFrom backend before).installed := by
  induction after using List.reverseRecOn with
  | nil => simpa using h
  | append_singleton after input ih =>
      rw [← List.append_assoc, runFrom_snoc] at h
      exact ih h.of_step

def World.digest (w : World P E) : Option Text := w.store.pointer.map Prod.snd

omit [DecidableEq E] in
theorem Linear.digest_eq (h : Linear backend w) :
    w.digest = HashChain.lastDigest backend.manifestDigest none w.installed := by
  rw [World.digest, h.pointer, pointerOf, HashChain.lastDigest]
  cases w.installed.getLast? <;> rfl

theorem Linear.step_cases (h : Linear backend w) (input : Input P)
    (hetags : EtagsFaithful backend w.installed) :
    ((Git.step backend w input).store.pointer = w.store.pointer ∧
        (Git.step backend w input).installed = w.installed) ∨
      ∃ m, (Git.step backend w input).installed = w.installed ++ [m] ∧
        (Git.step backend w input).digest = some (backend.manifestDigest m) ∧
        m.parent = w.digest := by
  have hstep := h.step hetags input
  rcases step_installed backend w input with heq | ⟨m, heq⟩
  · refine Or.inl ⟨?_, heq⟩
    rw [hstep.pointer, h.pointer, heq]
  · refine Or.inr ⟨m, heq, ?_, ?_⟩
    · rw [World.digest, hstep.pointer, heq, pointerOf_append]
      rfl
    · have hchain := hstep.chain
      rw [heq] at hchain
      rw [h.digest_eq]
      exact (HashChain.succession_append.1 hchain).2

def Input.pusher : Input P → Option Nat
  | .seed _ => none
  | .observe p => some p
  | .hydrate p _ => some p
  | .upload p _ => some p
  | .prepare p _ _ _ => some p
  | .putManifest p _ => some p
  | .cas p _ => some p
  | .readWinner p => some p
  | .crash p => some p

/-- `cas_publish` has returned from the CAS. -/
def Returned (w : World P E) (p : Nat) : Prop :=
  ∃ result, w.pushers.lookup p = some (.returned result)

omit [DecidableEq E] in
theorem Returned.setPhase {p : Nat} (h : Returned w p) {q : Nat} {phase : Phase E}
    (hq : ∀ result, w.pushers.lookup q ≠ some (.returned result)) :
    Returned (w.setPhase q phase) p := by
  rcases h with ⟨result, hp⟩
  refine ⟨result, ?_⟩
  rw [World.setPhase, HashMap.lookup_insert_eq, if_neg, hp]
  rintro rfl
  exact hq result hp

omit [DecidableEq E] in
theorem Returned.of_pushers {w' : World P E} {p : Nat} (h : Returned w p)
    (heq : w'.pushers = w.pushers) : Returned w' p := by
  rcases h with ⟨result, hp⟩
  exact ⟨result, by rw [heq, hp]⟩

theorem Returned.step {p : Nat} (h : Returned w p) (input : Input P) :
    Returned (step backend w input) p := by
  have hstep := stepped backend w input
  generalize Git.step backend w input = w' at hstep ⊢
  cases hstep with
  | observed hq => exact h.setPhase (by simp [hq])
  | hydrated hq => exact h.setPhase (by simp [hq])
  | prepared hq =>
      exact Returned.setPhase (h.of_pushers (World.putPacks_pushers ..))
        (by simp [World.putPacks_pushers, hq])
  | stored hq => exact Returned.setPhase (h.of_pushers rfl) (by simp [hq])
  | installed hq => exact Returned.setPhase (h.of_pushers rfl) (by simp [hq])
  | ended hq hold =>
      refine h.setPhase fun result hresult => ?_
      rw [hq] at hresult
      exact hold result (Option.some.inj hresult)
  | _ => exact h

theorem returned_of_install {input : Input P} {p : Nat} (hp : input.pusher = some p)
    (h : (step backend w input).installed ≠ w.installed) : Returned (step backend w input) p := by
  have hstep := stepped backend w input
  generalize step backend w input = w' at hstep h ⊢
  cases hstep with
  | seedInstalled => cases hp
  | installed =>
      cases hp
      exact ⟨_, AList.lookup_insert _⟩
  | prepared => exact absurd (World.putPacks_installed ..) h
  | _ => exact absurd rfl h

theorem pointer_kept {before after : List (Input P)} {input : Input P} {p : Nat}
    (hetags : EtagsFaithful backend (runFrom backend (before ++ input :: after)).installed)
    (hp : input.pusher = some p) (h : ¬Returned (runFrom backend (before ++ input :: after)) p) :
    (runFrom backend (before ++ [input])).store.pointer =
      (runFrom backend before).store.pointer := by
  have hetags' := hetags.of_prefix
  rw [runFrom_snoc]
  rcases (linear_runFrom before hetags').step_cases input hetags' with ⟨hsame, _⟩ | ⟨m, hm, _⟩
  · exact hsame
  · refine absurd ?_ h
    have hreturned : Returned (step backend (runFrom backend before) input) p :=
      returned_of_install hp (by simp [hm])
    have hrun : Returned (Run.run (step backend)
        (step backend (runFrom backend before) input) after) p :=
      Run.invariant_of_step (fun w => Returned w p) (fun w input hw => hw.step input) hreturned after
    simpa [runFrom, Run.run] using hrun

omit [DecidableEq E] in
theorem Linear.manifestDigest_injOn (h : Linear backend w)
    (hsha : CollisionFree backend w.installed) :
    ∀ m ∈ w.installed, ∀ n ∈ w.installed,
      backend.manifestDigest m = backend.manifestDigest n → m = n := by
  intro m hm n hn heq
  have hhash := hexDigits_bitVec_injective (by decide) heq
  exact Manifest.canonicalBytes_injOn (h.canonical m hm) (h.canonical n hn) (hsha m hm n hn hhash)

/-- The manifests ever installed form one chain: each names the digest that the pointer held when
it was installed, no two name the same parent, and no digest comes back.  A push reports success
only for an installed manifest, and one that ends before the CAS leaves the pointer alone. -/
theorem linear_history (backend : Backend P E) (inputs : List (Input P))
    (hetags : EtagsFaithful backend (runFrom backend inputs).installed)
    (hsha : CollisionFree backend (runFrom backend inputs).installed) :
    (∀ before input after, inputs = before ++ input :: after →
      ((runFrom backend (before ++ [input])).store.pointer =
          (runFrom backend before).store.pointer ∧
        (runFrom backend (before ++ [input])).installed = (runFrom backend before).installed) ∨
      ∃ m, (runFrom backend (before ++ [input])).installed =
          (runFrom backend before).installed ++ [m] ∧
        (runFrom backend (before ++ [input])).digest = some (backend.manifestDigest m) ∧
        m.parent = (runFrom backend before).digest) ∧
    HashChain.Succession Manifest.parent backend.manifestDigest none
      (runFrom backend inputs).installed ∧
    ((runFrom backend inputs).installed.map Manifest.parent).Nodup ∧
    ((runFrom backend inputs).installed.map backend.manifestDigest).Nodup ∧
    (∀ p m, (runFrom backend inputs).pushers.lookup p = some (.returned (.ok m)) →
      m ∈ (runFrom backend inputs).installed) ∧
    ∀ p, ¬Returned (runFrom backend inputs) p → ∀ before input after,
      inputs = before ++ input :: after → input.pusher = some p →
        (runFrom backend (before ++ [input])).store.pointer =
          (runFrom backend before).store.pointer := by
  have hlinear := linear_runFrom inputs hetags
  have hinj := hlinear.manifestDigest_injOn hsha
  refine ⟨?_, hlinear.chain, hlinear.chain.nodup_prev hinj, hlinear.chain.nodup_digest hinj, ?_, ?_⟩
  · rintro before input after rfl
    have hetags' := hetags.of_prefix
    rw [runFrom_snoc]
    exact (linear_runFrom before hetags').step_cases input hetags'
  · intro p m hp
    exact hlinear.pushers p _ hp
  · rintro p hp before input after rfl hpusher
    exact pointer_kept hetags hpusher hp

end Step

/-! ## Two pushers that race -/

namespace Sample

/-- Both pushers hydrate from the seeded pointer; the second installs its manifest first. -/
def inputs : List (Input Nat) :=
  [.seed true, .observe 1, .observe 2, .hydrate 1 (.ok ()), .hydrate 2 (.ok ()),
    .prepare 1 limits packCompactionThreshold (answers "refs/heads/main" 7),
    .prepare 2 limits packCompactionThreshold (answers "refs/heads/dev" 8), .putManifest 1 .answered,
    .putManifest 2 .answered, .cas 2 .answered, .cas 1 .answered, .readWinner 1]

end Sample

/-- The race leaves the seeded manifest and the winner's. -/
theorem linear_history_race :
    (runFrom Sample.lengthBackend Sample.inputs).installed.length = 2 ∧
      ((runFrom Sample.lengthBackend Sample.inputs).installed.map
        Sample.lengthBackend.manifestDigest).Nodup := by
  have hetags : EtagsFaithful Sample.lengthBackend
      (runFrom Sample.lengthBackend Sample.inputs).installed := fun _ _ _ _ _ _ heq => heq
  have hsha : CollisionFree Sample.lengthBackend
      (runFrom Sample.lengthBackend Sample.inputs).installed := by
    unfold CollisionFree
    decide +kernel
  exact ⟨by decide +kernel,
    (linear_history Sample.lengthBackend Sample.inputs hetags hsha).2.2.2.1⟩

end Git
end Relay
end Maju
