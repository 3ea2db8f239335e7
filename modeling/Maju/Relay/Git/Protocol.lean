import Maju.Lib.Run
import Maju.Relay.Git.Publish

/-!
# Protocol — concurrent pushers on one repository

Any number of pushers read the pointer, hydrate, compose a manifest, store it and try to install it
with a conditional write of the pointer; there is no lock.  A pusher is one push: it moves through
the phases below and may crash in each of them.  Requests to the store may fail, and the answer to
the pointer write may be lost whether or not the write was applied.

`World.installed` records the manifests that the pointer has named, in order.  No step reads it.
-/

namespace Maju
namespace Relay
namespace Git

open Lib

variable {P E : Type}

/-! ## Seeding and the winner of a race -/

/-- The manifest that an announcement seeds the pointer with. -/
def emptyManifest : Manifest where
  version := manifestVersion
  head := "refs/heads/main".toList
  refs := SortedMap.empty
  packs := []
  parent := none

def readWinnerAfterConflict (backend : Backend P E) (store : RepoStore P E) :
    Except CasError (Manifest × Text) :=
  match store.pointer with
  | none => .error .manifestReadFailed
  | some (_, body) =>
      let digest := trim body
      if byteLen digest ≠ 64 ∨ !digest.all isAsciiHexdigit then .error .manifestReadFailed
      else
        match store.manifests.lookup digest with
        | none => .error .manifestReadFailed
        | some bytes =>
            if hexDigits 64 (backend.sha256 bytes).toNat ≠ digest then .error .manifestReadFailed
            else
              match Manifest.fromBytes bytes with
              | .error _ => .error .manifestReadFailed
              | .ok winner => .ok (winner, "manifests/".toList ++ digest)

/-! ## Pushers -/

/-- How far a push has come: `observed` has read the pointer but no manifest, `prepared` has its
packs stored and its manifest validated, `stored` has the manifest stored.  `refused` failed in
`hydrate_for_write`, `failed` in `cas_publish` before the CAS, and `returned` is past the CAS. -/
inductive Phase (E : Type) where
  | observed (pointer : Option (E × Text))
  | hydrated (parent : ParentState E)
  | prepared (parent : ParentState E) (m : Manifest)
  | stored (parent : ParentState E) (m : Manifest)
  | lostRace
  | refused (error : HydrateError)
  | failed (error : CasError)
  | returned (result : Except CasError Manifest)
  | crashed

/-- What became of a request to the store: it was answered, or not, and then applied or not. -/
inductive Delivery where
  | answered
  | unanswered (applied : Bool)
  deriving DecidableEq, Repr

/-- The store, the pushers, and the manifests that were installed. -/
structure World (P E : Type) where
  store : RepoStore P E
  pushers : HashMap Nat (Phase E)
  installed : List Manifest

namespace World

/-- Nothing is stored and nobody pushes. -/
def start : World P E := ⟨⟨∅, ∅, none, 0⟩, ∅, []⟩

def setPhase (w : World P E) (p : Nat) (phase : Phase E) : World P E :=
  { w with pushers := w.pushers.insert p phase }

def putPack (backend : Backend P E) (w : World P E) (pack : P) : World P E :=
  { w with store := { w.store with
      packs := putImmutable w.store.packs (packKey backend.info pack) pack } }

def putPacks (backend : Backend P E) (w : World P E) (packs : List P) : World P E :=
  packs.foldl (putPack backend) w

theorem putPacks_frame (backend : Backend P E) (w : World P E) (packs : List P) :
    ∃ objects, w.putPacks backend packs = { w with store := { w.store with packs := objects } } := by
  induction packs generalizing w with
  | nil => exact ⟨w.store.packs, rfl⟩
  | cons pack packs ih =>
      rcases ih (w.putPack backend pack) with ⟨objects, heq⟩
      exact ⟨objects, heq⟩

@[simp] theorem putPacks_installed (backend : Backend P E) (w : World P E) (packs : List P) :
    (w.putPacks backend packs).installed = w.installed := by
  rcases w.putPacks_frame backend packs with ⟨objects, heq⟩
  rw [heq]

@[simp] theorem putPacks_pushers (backend : Backend P E) (w : World P E) (packs : List P) :
    (w.putPacks backend packs).pushers = w.pushers := by
  rcases w.putPacks_frame backend packs with ⟨objects, heq⟩
  rw [heq]

def putManifest (backend : Backend P E) (w : World P E) (m : Manifest) : World P E :=
  { w with store := { w.store with
      manifests := putImmutable w.store.manifests (backend.manifestDigest m) m.canonicalBytes } }

/-- The conditional write of the pointer takes effect. -/
def install (backend : Backend P E) (w : World P E) (m : Manifest) : World P E :=
  { w with
    store := writePointer backend w.store (backend.manifestDigest m)
    installed := w.installed ++ [m] }

end World

/-! ## Steps -/

/-- One step of one party.  An announcement seeds the pointer or stops before it writes it;
`observe` is `get_pointer` of a new push, and `hydrate` the rest of `hydrate_for_write`, which may
fail to materialize the workspace; `upload` stores a pack of an attempt that may come to nothing;
`prepare` is `cas_publish_inner` up to the validated manifest, where `cas_publish` passes
`packCompactionThreshold`. -/
inductive Input (P : Type) where
  | seed (reaches : Bool)
  | observe (p : Nat)
  | hydrate (p : Nat) (materialized : Except HydrateError Unit)
  | upload (p : Nat) (pack : P)
  | prepare (p : Nat) (limits : PublishLimits) (threshold : Nat) (answers : Answers P)
  | putManifest (p : Nat) (delivery : Delivery)
  | cas (p : Nat) (delivery : Delivery)
  | readWinner (p : Nat)
  | crash (p : Nat)

section Step

variable [DecidableEq E] (backend : Backend P E)

/-- The pointer CAS of a pusher whose manifest is stored. -/
def casPointer (w : World P E) (p : Nat) (parent : ParentState E) (m : Manifest) :
    Delivery → World P E
  | .answered =>
      if preconditionHolds w.store parent.ifMatch then
        (w.install backend m).setPhase p (.returned (.ok m))
      else w.setPhase p .lostRace
  | .unanswered applied =>
      if applied && preconditionHolds w.store parent.ifMatch then
        (w.install backend m).setPhase p (.returned (.error .backend))
      else w.setPhase p (.returned (.error .backend))

def step (w : World P E) : Input P → World P E
  | .seed reaches =>
      let w := w.putManifest backend emptyManifest
      if reaches && preconditionHolds w.store none then w.install backend emptyManifest else w
  | .observe p =>
      match w.pushers.lookup p with
      | none => w.setPhase p (.observed w.store.pointer)
      | some _ => w
  | .hydrate p materialized =>
      match w.pushers.lookup p with
      | some (.observed pointer) =>
          match hydrateForWrite backend { w.store with pointer := pointer }, materialized with
          | .error e, _ => w.setPhase p (.refused e)
          | .ok _, .error e => w.setPhase p (.refused e)
          | .ok parent, .ok () => w.setPhase p (.hydrated parent)
      | _ => w
  | .upload p pack =>
      match w.pushers.lookup p with
      | some (.hydrated _) => w.putPack backend pack
      | _ => w
  | .prepare p limits threshold answers =>
      match w.pushers.lookup p with
      | some (.hydrated parent) =>
          match prepareManifest backend.info limits threshold parent answers with
          | .error e => w.setPhase p (.failed e)
          | .ok (m, packs) =>
              (w.putPacks backend packs).setPhase p (.prepared parent m)
      | _ => w
  | .putManifest p delivery =>
      match w.pushers.lookup p, delivery with
      | some (.prepared parent m), .answered =>
          (w.putManifest backend m).setPhase p (.stored parent m)
      | some (.prepared _ m), .unanswered true =>
          (w.putManifest backend m).setPhase p (.failed .backend)
      | some (.prepared _ _), .unanswered false => w.setPhase p (.failed .backend)
      | _, _ => w
  | .cas p delivery =>
      match w.pushers.lookup p with
      | some (.stored parent m) => casPointer backend w p parent m delivery
      | _ => w
  | .readWinner p =>
      match w.pushers.lookup p with
      | some .lostRace =>
          match readWinnerAfterConflict backend w.store with
          | .error e => w.setPhase p (.returned (.error e))
          | .ok (winner, key) => w.setPhase p (.returned (.error (.conflict winner key)))
      | _ => w
  | .crash p =>
      match w.pushers.lookup p with
      | some (.refused _) => w
      | some (.failed _) => w
      | some (.returned _) => w
      | some _ => w.setPhase p .crashed
      | none => w

def runFrom (inputs : List (Input P)) : World P E := Run.run (step backend) World.start inputs

/-! ## What one step can do -/

/-- A pusher in this phase has nothing in hand, and has not reported success. -/
def Phase.Idle : Phase E → Prop
  | .observed _ => False
  | .hydrated _ => False
  | .prepared _ _ => False
  | .stored _ _ => False
  | .lostRace => True
  | .refused _ => True
  | .failed _ => True
  | .returned (.ok _) => False
  | .returned (.error _) => True
  | .crashed => True

/-- The ways in which a step changes the world.  A request whose answer is lost may have been
applied, so `stored` and `installed` leave the phase of the pusher open. -/
inductive Stepped (w : World P E) : Input P → World P E → Prop where
  | still (input : Input P) : Stepped w input w
  | seeded (reaches : Bool) : Stepped w (.seed reaches) (w.putManifest backend emptyManifest)
  | seedInstalled (reaches : Bool)
      (hpre : preconditionHolds (w.putManifest backend emptyManifest).store none = true) :
      Stepped w (.seed reaches)
        ((w.putManifest backend emptyManifest).install backend emptyManifest)
  | observed {p : Nat} (hp : w.pushers.lookup p = none) :
      Stepped w (.observe p) (w.setPhase p (.observed w.store.pointer))
  | hydrated {p : Nat} {materialized : Except HydrateError Unit} {pointer : Option (E × Text)}
      {parent : ParentState E} (hp : w.pushers.lookup p = some (.observed pointer))
      (hread : hydrateForWrite backend { w.store with pointer := pointer } = .ok parent) :
      Stepped w (.hydrate p materialized) (w.setPhase p (.hydrated parent))
  | uploaded (p : Nat) (pack : P) : Stepped w (.upload p pack) (w.putPack backend pack)
  | prepared {p threshold : Nat} {limits : PublishLimits} {answers : Answers P}
      {parent : ParentState E} {m : Manifest} {packs : List P}
      (hp : w.pushers.lookup p = some (.hydrated parent))
      (hprepare : prepareManifest backend.info limits threshold parent answers = .ok (m, packs)) :
      Stepped w (.prepare p limits threshold answers)
        ((w.putPacks backend packs).setPhase p (.prepared parent m))
  | stored {p : Nat} {delivery : Delivery} {parent : ParentState E} {m : Manifest}
      {phase : Phase E} (hp : w.pushers.lookup p = some (.prepared parent m))
      (hphase : phase = .stored parent m ∨ phase.Idle) :
      Stepped w (.putManifest p delivery) ((w.putManifest backend m).setPhase p phase)
  | installed {p : Nat} {delivery : Delivery} {parent : ParentState E} {m : Manifest}
      {result : Except CasError Manifest} (hp : w.pushers.lookup p = some (.stored parent m))
      (hpre : preconditionHolds w.store parent.ifMatch = true)
      (hresult : result = .ok m ∨ Phase.Idle (E := E) (.returned result)) :
      Stepped w (.cas p delivery) ((w.install backend m).setPhase p (.returned result))
  | ended {input : Input P} {p : Nat} {old phase : Phase E}
      (hp : w.pushers.lookup p = some old) (hold : ∀ result, old ≠ .returned result)
      (hphase : phase.Idle) : Stepped w input (w.setPhase p phase)

theorem stepped_casPointer (w : World P E) {p : Nat} {parent : ParentState E} {m : Manifest}
    (hp : w.pushers.lookup p = some (.stored parent m)) (delivery : Delivery) :
    Stepped backend w (.cas p delivery) (casPointer backend w p parent m delivery) := by
  have hold : ∀ result, Phase.stored parent m ≠ .returned result := fun _ h => (by cases h)
  cases delivery with
  | answered =>
      simp only [casPointer]
      split_ifs with hpre
      · exact .installed hp hpre (Or.inl rfl)
      · exact .ended hp hold trivial
  | unanswered applied =>
      simp only [casPointer]
      split_ifs with hpre
      · exact .installed hp (Bool.and_eq_true_iff.1 hpre).2 (Or.inr trivial)
      · exact .ended hp hold trivial

theorem stepped (w : World P E) (input : Input P) :
    Stepped backend w input (step backend w input) := by
  cases input with
  | seed reaches =>
      simp only [step]
      split_ifs with hpre
      · exact .seedInstalled reaches (Bool.and_eq_true_iff.1 hpre).2
      · exact .seeded reaches
  | observe p =>
      simp only [step]
      split
      · next hp => exact .observed hp
      · exact .still _
  | hydrate p materialized =>
      simp only [step]
      split
      · next pointer hp =>
          have hold : ∀ result, Phase.observed pointer ≠ .returned result :=
            fun _ h => (by cases h)
          split
          · exact .ended hp hold trivial
          · exact .ended hp hold trivial
          · next parent hread => exact .hydrated hp hread
      · exact .still _
  | upload p pack =>
      simp only [step]
      split
      · exact .uploaded p pack
      · exact .still _
  | prepare p limits threshold answers =>
      simp only [step]
      split
      · next parent hp =>
          split
          · exact .ended hp (fun _ h => (by cases h)) trivial
          · next m packs hprepare => exact .prepared hp hprepare
      · exact .still _
  | putManifest p delivery =>
      simp only [step]
      split
      · next parent m hp => exact .stored hp (Or.inl rfl)
      · next parent m hp => exact .stored hp (Or.inr trivial)
      · next parent m hp => exact .ended hp (fun _ h => (by cases h)) trivial
      · exact .still _
  | cas p delivery =>
      simp only [step]
      split
      · next parent m hp => exact stepped_casPointer backend w hp delivery
      · exact .still _
  | readWinner p =>
      simp only [step]
      split
      · next hp =>
          split
          · exact .ended hp (fun _ h => (by cases h)) trivial
          · exact .ended hp (fun _ h => (by cases h)) trivial
      · exact .still _
  | crash p =>
      simp only [step]
      split
      · exact .still _
      · exact .still _
      · exact .still _
      · next phase hrefused hfailed hreturned hp => exact .ended hp hreturned trivial
      · exact .still _

end Step

/-! ## A small backend -/

namespace Sample

/-- Packs are numbers, texts hash to their length, and the ETag is the body. -/
def lengthBackend : Backend Nat Text where
  info := ⟨fun _ => 100, fun p => BitVec.ofNat 256 p⟩
  sha256 text := BitVec.ofNat 256 text.length
  etag _ body := body

/-- A workspace with one branch, whose delta is one pack. -/
def answers (branch : String) (pack : Nat) : Answers Nat where
  listing := .ok ⟨_, some (branch.toList ++ ' ' :: hexDigits 40 pack), fun _ h => by cases h; rfl⟩
  symbolicRef := .ok (some branch.toList)
  permit := .ok ()
  compaction := .error .packCapture
  delta := .ok (some pack)
  uploaded := true

def limits : PublishLimits := ⟨0, 1000, 1000⟩

end Sample

end Git
end Relay
end Maju
