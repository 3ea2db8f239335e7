import Maju.Relay.Git.Protocol
import Mathlib.Logic.Relation

/-!
# Closure — the packs of an installed manifest hold every object its refs reach

Objects are the nodes of an arbitrary graph; a pack is a set of them.  `git pack-objects --revs` is
known by its answer: a delta pack holds what the new refs reach and the old ones do not, and the
packs of a compaction together hold what the new refs reach.  A delta is taken against the refs of
the parent, not against the objects that are stored, so the argument is that the packs of the
parent hold the closure of the parent's refs.  This is carried through the stored manifests.
-/

namespace Maju
namespace Relay
namespace Git

open Lib

variable {P E Obj : Type}

/-! ## Objects, packs and git -/

/-- The object graph, the object that an id names, and the objects in a pack. -/
structure ObjectModel (P Obj : Type) where
  refers : Obj → Obj → Prop
  named : Text → Obj
  objects : P → Set Obj

namespace ObjectModel

variable (g : ObjectModel P Obj)

def reach (refs : Refs) : Set Obj :=
  {o | ∃ e ∈ refs.entries, Relation.ReflTransGen g.refers (g.named e.2) o}

/-- The packs together hold these objects. -/
def Holds (packs : List P) (s : Set Obj) : Prop := ∀ o, o ∈ s ↔ ∃ p ∈ packs, o ∈ g.objects p

/-- What `git pack-objects --revs` answers: the closure of the positive tips without the closure
of the negative ones.  A compaction has no negative tips and may split its output. -/
structure PackObjects (refsBefore refsAfter : Refs) (answers : Answers P) : Prop where
  delta : ∀ out, answers.delta = .ok out →
    g.Holds out.toList (g.reach refsAfter \ g.reach refsBefore)
  compaction : ∀ out, answers.compaction = .ok out →
    g.Holds (out.map Prod.fst) (g.reach refsAfter)

/-- The git answers of a step are those of `pack-objects` for the refs it works with. -/
def GitAnswers (w : World P E) : Input P → Prop
  | .prepare p _ _ answers => ∀ parent refsAfter head,
      w.pushers.lookup p = some (.hydrated parent) → snapshot answers = .ok (refsAfter, head) →
        g.PackObjects parent.parent.refs refsAfter answers
  | _ => True

/-- Every object that the refs reach is in a stored pack that the manifest names. -/
def Closed (store : RepoStore P E) (m : Manifest) : Prop :=
  ∀ o ∈ g.reach m.refs, ∃ key ∈ m.packs, ∃ pack,
    store.packs.lookup key = some pack ∧ o ∈ g.objects pack

end ObjectModel

/-- The packs that a step stores or may store. -/
def Input.packs : Input P → List P
  | .upload _ pack => [pack]
  | .prepare _ _ _ answers =>
      (match answers.delta with
        | .ok out => out.toList
        | .error _ => []) ++
      match answers.compaction with
        | .ok out => out.map Prod.fst
        | .error _ => []
  | _ => []

/-- Different packs of the run have different hashes. -/
def PacksCollisionFree (backend : Backend P E) (inputs : List (Input P)) : Prop :=
  ∀ i ∈ inputs, ∀ p ∈ i.packs, ∀ j ∈ inputs, ∀ q ∈ j.packs,
    backend.info.sha256 p = backend.info.sha256 q → p = q

/-! ## What a push packs -/

section Packs

variable {info : PackInfo P} {limits : PublishLimits} {refsAfter : Refs}

theorem capturePack_none {output : Except CasError (Option P)}
    (h : capturePack info limits refsAfter output = .ok none) :
    refsAfter.entries = [] ∨ output = .ok none := by
  unfold capturePack at h
  split_ifs at h with hempty
  · exact Or.inl hempty
  · cases output with
    | error e => cases h
    | ok out => cases out with
        | none => exact Or.inr rfl
        | some p =>
            simp only [bind, Except.bind] at h
            split_ifs at h
            cases h

theorem capturePack_some {output : Except CasError (Option P)} {p : P}
    (h : capturePack info limits refsAfter output = .ok (some p)) : output = .ok (some p) := by
  unfold capturePack at h
  split_ifs at h with hempty
  · cases h
  · cases output with
    | error e => cases h
    | ok out => cases out with
        | none => cases h
        | some q =>
            simp only [bind, Except.bind] at h
            split_ifs at h
            cases h
            rfl

theorem prepareCompaction_ok {packsBefore : Nat} {output : Except CasError (List (P × Nat))}
    {packs : List P}
    (h : prepareCompaction info limits refsAfter packsBefore output = .ok packs) :
    (refsAfter.entries = [] ∧ packs = []) ∨ ∃ out, output = .ok out ∧ packs = out.map Prod.fst := by
  unfold prepareCompaction at h
  cases hcapture : captureCompactedPacks info limits refsAfter output with
  | error e =>
      rw [hcapture] at h
      cases h
  | ok captured =>
      rw [hcapture] at h
      simp only [bind, Except.bind] at h
      split_ifs at h
      cases h
      unfold captureCompactedPacks at hcapture
      split_ifs at hcapture with hempty
      · cases hcapture
        exact Or.inl ⟨hempty, rfl⟩
      · cases output with
        | error e => cases hcapture
        | ok out =>
            refine Or.inr ⟨out, rfl, ?_⟩
            simp only [bind, Except.bind] at hcapture
            split_ifs at hcapture
            cases hcheck : checkCompactedSizes info limits 0 out with
            | error e =>
                rw [hcheck] at hcapture
                cases hcapture
            | ok u =>
                rw [hcheck] at hcapture
                cases hcapture
                rfl

end Packs

theorem Manifest.validate_packs {m : Manifest} (h : m.validate = .ok ()) :
    m.packs.length ≤ maxManifestPacks := by
  unfold Manifest.validate at h
  split_ifs at h with hpacks
  all_goals exact not_lt.1 hpacks

/-! ## The stored packs -/

/-- Every stored pack is one of the run, under its own key. -/
def PacksKeyed (backend : Backend P E) (packs : Set P) (store : RepoStore P E) : Prop :=
  ∀ key p, store.packs.lookup key = some p → p ∈ packs ∧ key = packKey backend.info p

def PacksKept (s t : RepoStore P E) : Prop :=
  ∀ key p, s.packs.lookup key = some p → t.packs.lookup key = some p

theorem packKey_injOn {info : PackInfo P} {p q : P} (h : packKey info p = packKey info q) :
    info.sha256 p = info.sha256 q := by
  have hhex := List.append_cancel_left h
  exact hexDigits_bitVec_injective (by decide) hhex

section Stored

variable {backend : Backend P E} {w : World P E} {packs : Set P}

theorem lookup_putImmutable {V : Type} (objects : HashMap Text V) (key k : Text) (v : V) :
    (putImmutable objects key v).lookup k =
      if k = key ∧ objects.lookup key = none then some v else objects.lookup k := by
  unfold putImmutable
  cases hlookup : objects.lookup key with
  | none =>
      rw [HashMap.lookup_insert_eq]
      by_cases hk : k = key <;> simp [hk]
  | some u => simp

theorem PacksKept.putPack (w : World P E) (pack : P) :
    PacksKept w.store (w.putPack backend pack).store := by
  intro key p hp
  change (putImmutable w.store.packs _ pack).lookup key = some p
  rw [lookup_putImmutable, if_neg, hp]
  rintro ⟨rfl, hnone⟩
  rw [hp] at hnone
  cases hnone

theorem PacksKeyed.putPack (h : PacksKeyed backend packs w.store) {pack : P} (hpack : pack ∈ packs) :
    PacksKeyed backend packs (w.putPack backend pack).store := by
  intro key p hp
  change (putImmutable w.store.packs _ pack).lookup key = some p at hp
  rw [lookup_putImmutable] at hp
  split_ifs at hp with hnew
  · cases hp
    exact ⟨hpack, hnew.1⟩
  · exact h key p hp

theorem PacksKeyed.lookup_putPack (h : PacksKeyed backend packs w.store)
    (hinj : ∀ p ∈ packs, ∀ q ∈ packs, backend.info.sha256 p = backend.info.sha256 q → p = q)
    {pack : P} (hpack : pack ∈ packs) :
    (w.putPack backend pack).store.packs.lookup (packKey backend.info pack) = some pack := by
  change (putImmutable w.store.packs _ pack).lookup _ = some pack
  rw [lookup_putImmutable]
  cases hold : w.store.packs.lookup (packKey backend.info pack) with
  | none => simp
  | some q =>
      rcases h _ q hold with ⟨hq, hkey⟩
      simp [hinj pack hpack q hq (packKey_injOn hkey)]

theorem putPacks_cons (pack : P) (rest : List P) :
    w.putPacks backend (pack :: rest) = (w.putPack backend pack).putPacks backend rest := rfl

theorem PacksKept.putPacks (w : World P E) (new : List P) :
    PacksKept w.store (w.putPacks backend new).store := by
  induction new generalizing w with
  | nil => exact fun _ _ h => h
  | cons pack rest ih =>
      intro key p hp
      exact ih (w.putPack backend pack) key p (PacksKept.putPack w pack key p hp)

theorem PacksKeyed.putPacks (h : PacksKeyed backend packs w.store) {new : List P}
    (hnew : ∀ p ∈ new, p ∈ packs) : PacksKeyed backend packs (w.putPacks backend new).store := by
  induction new generalizing w with
  | nil => exact h
  | cons pack rest ih =>
      rw [putPacks_cons]
      exact ih (h.putPack (hnew pack List.mem_cons_self)) fun p hp =>
        hnew p (List.mem_cons_of_mem pack hp)

theorem PacksKeyed.lookup_putPacks (h : PacksKeyed backend packs w.store)
    (hinj : ∀ p ∈ packs, ∀ q ∈ packs, backend.info.sha256 p = backend.info.sha256 q → p = q)
    {new : List P} (hnew : ∀ p ∈ new, p ∈ packs) {pack : P} (hpack : pack ∈ new) :
    (w.putPacks backend new).store.packs.lookup (packKey backend.info pack) = some pack := by
  induction new generalizing w with
  | nil => cases hpack
  | cons first rest ih =>
      have hfirst := hnew first List.mem_cons_self
      rw [putPacks_cons]
      rcases List.mem_cons.1 hpack with rfl | hrest
      · exact PacksKept.putPacks (w.putPack backend pack) rest _ _
          (h.lookup_putPack hinj hfirst)
      · exact ih (h.putPack hfirst) (fun p hp => hnew p (List.mem_cons_of_mem first hp)) hrest

theorem ObjectModel.Closed.mono {g : ObjectModel P Obj} {s t : RepoStore P E} {m : Manifest}
    (h : g.Closed s m) (hkept : PacksKept s t) : g.Closed t m := by
  intro o ho
  rcases h o ho with ⟨key, hkey, pack, hpack, hmem⟩
  exact ⟨key, hkey, pack, hkept key pack hpack, hmem⟩

theorem ObjectModel.closed_of_no_ref (g : ObjectModel P Obj) (store : RepoStore P E) {m : Manifest}
    (h : m.refs.entries = []) : g.Closed store m := by
  rintro o ⟨e, he, _⟩
  rw [h] at he
  cases he

end Stored

/-! ## A composed manifest is closed -/

section Compose

variable {backend : Backend P E} {w : World P E} {g : ObjectModel P Obj} {limits : PublishLimits}
  {threshold : Nat} {parent : ParentState E} {answers : Answers P} {m : Manifest} {new : List P}

theorem mem_packs_of_compose {p : Nat} (h : composeManifest backend.info limits threshold parent
    answers = .ok (m, new)) {pack : P} (hpack : pack ∈ new) :
    pack ∈ (Input.prepare p limits threshold answers).packs := by
  rcases composeManifest_ok h with ⟨refsAfter, head, _, ⟨hcompact, _⟩ | ⟨_, hdelta⟩⟩
  · rcases prepareCompaction_ok hcompact with ⟨_, rfl⟩ | ⟨out, hout, rfl⟩
    · cases hpack
    · simp only [Input.packs, hout, List.mem_append]
      exact Or.inr hpack
  · rcases publishDelta_ok hdelta with ⟨_, rfl, _⟩ | ⟨q, hcapture, rfl, _⟩
    · cases hpack
    · have hout := capturePack_some hcapture
      rw [List.mem_singleton.1 hpack]
      simp [Input.packs, hout]

theorem closed_composeManifest (hgit : ∀ refsAfter head, snapshot answers = .ok (refsAfter, head) →
      g.PackObjects parent.parent.refs refsAfter answers)
    (hparent : g.Closed w.store parent.parent)
    (hstored : ∀ pack ∈ new, (w.putPacks backend new).store.packs.lookup
      (packKey backend.info pack) = some pack)
    (h : composeManifest backend.info limits threshold parent answers = .ok (m, new)) :
    g.Closed (w.putPacks backend new).store m := by
  rcases composeManifest_ok h with ⟨refsAfter, head, hsnapshot, ⟨hcompact, rfl⟩ | ⟨_, hdelta⟩⟩
  · rcases prepareCompaction_ok hcompact with ⟨hempty, _⟩ | ⟨out, hout, rfl⟩
    · exact g.closed_of_no_ref _ hempty
    · intro o ho
      rcases ((hgit refsAfter head hsnapshot).compaction out hout o).1 ho with ⟨pack, hpack, hmem⟩
      refine ⟨packKey backend.info pack, ?_, pack, hstored pack hpack, hmem⟩
      exact mem_sortDedup.2 (List.mem_map_of_mem hpack)
  · -- what the old refs reach is in the packs of the parent, the rest is in the delta
    rcases publishDelta_ok hdelta with ⟨hcapture, rfl, rfl⟩ | ⟨pack, hcapture, rfl, _, rfl⟩
    · rcases capturePack_none hcapture with hempty | hout
      · exact g.closed_of_no_ref _ hempty
      · intro o ho
        by_cases hold : o ∈ g.reach parent.parent.refs
        · rcases hparent o hold with ⟨key, hkey, pack, hpack, hmem⟩
          exact ⟨key, mem_sortDedup.2 hkey, pack, hpack, hmem⟩
        · rcases ((hgit refsAfter head hsnapshot).delta none hout o).1 ⟨ho, hold⟩ with ⟨p, hp, _⟩
          cases hp
    · have hout := capturePack_some hcapture
      have hkeys : ∀ key, key ∈ parent.parent.packs ∨ key = packKey backend.info pack →
          key ∈ (composeAfter parent.parent parent.parentDigest
            (resolvePublishedHead refsAfter head parent.parent.head) refsAfter
            (some (packKey backend.info pack))).packs := by
        intro key hkey
        refine mem_sortDedup.2 ?_
        dsimp only
        split_ifs with hany
        · rcases hkey with hold | rfl
          · exact hold
          · simpa using hany
        · simpa using hkey
      intro o ho
      by_cases hold : o ∈ g.reach parent.parent.refs
      · rcases hparent o hold with ⟨key, hkey, q, hq, hmem⟩
        exact ⟨key, hkeys key (Or.inl hkey), q, PacksKept.putPacks w [pack] key q hq, hmem⟩
      · rcases ((hgit refsAfter head hsnapshot).delta (some pack) hout o).1 ⟨ho, hold⟩ with
          ⟨q, hq, hmem⟩
        rw [Option.mem_toList] at hq
        cases hq
        exact ⟨_, hkeys _ (Or.inr rfl), pack, hstored pack (List.mem_singleton.2 rfl), hmem⟩

end Compose

/-! ## Runs -/

/-- What a pusher has in hand is closed. -/
def PhaseClosed (g : ObjectModel P Obj) (store : RepoStore P E) : Phase E → Prop
  | .hydrated parent => g.Closed store parent.parent
  | .prepared _ m => m.Canonical ∧ m.packs.length ≤ maxManifestPacks ∧ g.Closed store m
  | .stored _ m => m.Canonical ∧ m.packs.length ≤ maxManifestPacks ∧ g.Closed store m
  | _ => True

/-- The invariant of every run in which git answers as it should. -/
structure AllClosed (backend : Backend P E) (g : ObjectModel P Obj) (packs : Set P)
    (w : World P E) : Prop where
  keyed : PacksKeyed backend packs w.store
  manifests : ∀ key bytes, w.store.manifests.lookup key = some bytes →
    ∃ m : Manifest, m.Canonical ∧ bytes = m.canonicalBytes ∧ g.Closed w.store m
  installed : ∀ m ∈ w.installed, m.packs.length ≤ maxManifestPacks ∧ g.Closed w.store m
  pushers : ∀ p phase, w.pushers.lookup p = some phase → PhaseClosed g w.store phase

section Runs

variable {backend : Backend P E} {w : World P E} {g : ObjectModel P Obj} {packs : Set P}

theorem PhaseClosed.mono {s t : RepoStore P E} {phase : Phase E} (h : PhaseClosed g s phase)
    (hkept : PacksKept s t) : PhaseClosed g t phase := by
  cases phase with
  | hydrated parent => exact ObjectModel.Closed.mono h hkept
  | prepared parent m => exact ⟨h.1, h.2.1, h.2.2.mono hkept⟩
  | stored parent m => exact ⟨h.1, h.2.1, h.2.2.mono hkept⟩
  | _ => trivial

theorem PhaseClosed.of_idle {store : RepoStore P E} {phase : Phase E} (h : phase.Idle) :
    PhaseClosed g store phase := by
  cases phase with
  | observed | hydrated | prepared | stored => cases h
  | _ => trivial

theorem allClosed_start : AllClosed backend g packs (World.start : World P E) := by
  refine ⟨?_, ?_, ?_, ?_⟩
  · intro key p h
    cases h
  · intro key bytes h
    cases h
  · intro m hm
    cases hm
  · intro p phase h
    cases h

theorem AllClosed.setPhase (h : AllClosed backend g packs w) (p : Nat) {phase : Phase E}
    (hphase : PhaseClosed g w.store phase) : AllClosed backend g packs (w.setPhase p phase) := by
  refine ⟨h.keyed, h.manifests, h.installed, ?_⟩
  intro q phase' hq
  rw [World.setPhase, HashMap.lookup_insert_eq] at hq
  split_ifs at hq with hqp
  · cases hq
    exact hphase
  · exact h.pushers q phase' hq

theorem AllClosed.putPacks (h : AllClosed backend g packs w) {new : List P}
    (hnew : ∀ p ∈ new, p ∈ packs) : AllClosed backend g packs (w.putPacks backend new) := by
  have hkept : PacksKept w.store (w.putPacks backend new).store := PacksKept.putPacks w new
  have hkeyed := h.keyed.putPacks hnew
  rcases w.putPacks_frame backend new with ⟨objects, heq⟩
  rw [heq] at hkept hkeyed ⊢
  refine ⟨hkeyed, ?_, ?_, ?_⟩
  · intro key bytes hlookup
    rcases h.manifests key bytes hlookup with ⟨m, hcanonical, hbytes, hclosed⟩
    exact ⟨m, hcanonical, hbytes, hclosed.mono hkept⟩
  · intro m hm
    exact ⟨(h.installed m hm).1, (h.installed m hm).2.mono hkept⟩
  · intro p phase hp
    exact (h.pushers p phase hp).mono hkept

theorem AllClosed.putManifest (h : AllClosed backend g packs w) {m : Manifest}
    (hcanonical : m.Canonical) (hclosed : g.Closed w.store m) :
    AllClosed backend g packs (w.putManifest backend m) := by
  refine ⟨h.keyed, ?_, h.installed, h.pushers⟩
  intro key bytes hlookup
  change (putImmutable w.store.manifests _ m.canonicalBytes).lookup key = some bytes at hlookup
  rw [lookup_putImmutable] at hlookup
  split_ifs at hlookup with hnew
  · cases hlookup
    exact ⟨m, hcanonical, rfl, hclosed⟩
  · exact h.manifests key bytes hlookup

theorem AllClosed.install (h : AllClosed backend g packs w) {m : Manifest}
    (hpacks : m.packs.length ≤ maxManifestPacks) (hclosed : g.Closed w.store m) :
    AllClosed backend g packs (w.install backend m) := by
  refine ⟨h.keyed, h.manifests, ?_, h.pushers⟩
  intro n hn
  rcases List.mem_append.1 hn with hold | hnew
  · exact h.installed n hold
  · rw [List.mem_singleton.1 hnew]
    exact ⟨hpacks, hclosed⟩

theorem AllClosed.hydrate (h : AllClosed backend g packs w) {pointer : Option (E × Text)}
    {parent : ParentState E}
    (hread : hydrateForWrite backend { w.store with pointer := pointer } = .ok parent) :
    g.Closed w.store parent.parent := by
  rcases hydrateForWrite_ok hread with ⟨_, rfl⟩ | ⟨etag, digest, m, hload, rfl⟩
  · exact g.closed_of_no_ref _ rfl
  · rcases loadPointer_ok hload with ⟨body, bytes, _, _, hlookup, _, _, hbytes, _⟩
    rcases h.manifests digest bytes hlookup with ⟨n, hcanonical, rfl, hclosed⟩
    rw [Manifest.fromBytes_canonicalBytes hcanonical] at hbytes
    cases hbytes
    exact hclosed

variable [DecidableEq E]

theorem AllClosed.step (h : AllClosed backend g packs w)
    (hinj : ∀ p ∈ packs, ∀ q ∈ packs, backend.info.sha256 p = backend.info.sha256 q → p = q)
    {input : Input P} (hpacks : ∀ p ∈ input.packs, p ∈ packs) (hgit : g.GitAnswers w input) :
    AllClosed backend g packs (step backend w input) := by
  have hempty : AllClosed backend g packs (w.putManifest backend emptyManifest) :=
    h.putManifest ⟨rfl, List.Pairwise.nil⟩ (g.closed_of_no_ref _ rfl)
  have hstep := stepped backend w input
  generalize Git.step backend w input = w' at hstep ⊢
  cases hstep with
  | still => exact h
  | seeded => exact hempty
  | seedInstalled => exact hempty.install (by decide) (g.closed_of_no_ref _ rfl)
  | observed => exact h.setPhase _ trivial
  | hydrated _ hread => exact h.setPhase _ (h.hydrate hread)
  | uploaded p pack =>
      have hput : AllClosed backend g packs (w.putPacks backend [pack]) := h.putPacks hpacks
      exact hput
  | prepared hp hprepare =>
      rename_i p threshold limits answers parent m new
      rcases prepareManifest_ok hprepare with ⟨hcompose, hvalid⟩
      have hnew : ∀ pack ∈ new, pack ∈ packs := fun pack hpack =>
        hpacks pack (mem_packs_of_compose hcompose hpack)
      have hclosed : g.Closed (w.putPacks backend new).store m :=
        closed_composeManifest (fun refsAfter head => hgit parent refsAfter head hp)
          (h.pushers p _ hp)
          (fun pack hpack => h.keyed.lookup_putPacks hinj hnew hpack) hcompose
      refine (h.putPacks hnew).setPhase p ?_
      exact ⟨(composeManifest_canonical hcompose).1, Manifest.validate_packs hvalid, hclosed⟩
  | stored hp hphase =>
      rename_i p delivery parent m phase
      have hold : PhaseClosed g w.store (.prepared parent m) := h.pushers p _ hp
      refine (h.putManifest hold.1 hold.2.2).setPhase p ?_
      rcases hphase with rfl | hidle
      · exact hold
      · exact .of_idle hidle
  | installed hp =>
      rcases h.pushers _ _ hp with ⟨_, hpacks, hclosed⟩
      exact (h.install hpacks hclosed).setPhase _ trivial
  | ended _ _ hphase => exact h.setPhase _ (.of_idle hphase)

/-- Along every run in which git answers as it should, the stored packs of every installed
manifest hold every object that its refs reach, and there are never too many of them. -/
theorem object_closure (backend : Backend P E) (g : ObjectModel P Obj) (inputs : List (Input P))
    (hgit : Run.Along g.GitAnswers (step backend) World.start inputs)
    (hsha : PacksCollisionFree backend inputs) :
    ∀ m ∈ (runFrom backend inputs).installed,
      g.Closed (runFrom backend inputs).store m ∧ m.packs.length ≤ maxManifestPacks := by
  have hinj : ∀ p ∈ {p | ∃ i ∈ inputs, p ∈ i.packs}, ∀ q ∈ {p | ∃ i ∈ inputs, p ∈ i.packs},
      backend.info.sha256 p = backend.info.sha256 q → p = q := by
    rintro p ⟨i, hi, hp⟩ q ⟨j, hj, hq⟩
    exact hsha i hi p hp j hj q hq
  have hpacks : Run.Along (fun _ input => ∀ p ∈ input.packs, p ∈ {p | ∃ i ∈ inputs, p ∈ i.packs})
      (step backend) (World.start : World P E) inputs :=
    Run.along_of_forall_mem fun i hi _ p hp => ⟨i, hi, hp⟩
  have hall : AllClosed backend g {p | ∃ i ∈ inputs, p ∈ i.packs} (runFrom backend inputs) :=
    Run.invariant _ (fun w input hw hstep => hw.step hinj hstep.2 hstep.1) allClosed_start
      (hgit.and hpacks)
  intro m hm
  exact ⟨(hall.installed m hm).2, (hall.installed m hm).1⟩

end Runs

namespace Sample

/-- Object 8 refers to object 7; pack 9 holds both, and every other pack the object of its number. -/
def twoObjects : ObjectModel Nat Text where
  refers a b := a = hexDigits 40 8 ∧ b = hexDigits 40 7
  named oid := oid
  objects p := if p = 9 then {hexDigits 40 7, hexDigits 40 8} else {hexDigits 40 p}

/-- The workspace of the second push, without a new object and with a compaction that works. -/
def compacting : Answers Nat :=
  { answers "refs/heads/main" 8 with compaction := .ok [(9, 50)], delta := .ok none }

/-- The first push falls back to a delta from a compaction that fails, the second adds a delta to
the pack of the first, and the third replaces both packs by one. -/
def threePushes : List (Input Nat) :=
  [.observe 1, .hydrate 1 (.ok ()), .prepare 1 limits 0 (answers "refs/heads/main" 7),
    .putManifest 1 .answered, .cas 1 .answered,
    .observe 2, .hydrate 2 (.ok ()), .prepare 2 limits 2 (answers "refs/heads/main" 8),
    .putManifest 2 .answered, .cas 2 .answered,
    .observe 3, .hydrate 3 (.ok ()), .prepare 3 limits 2 compacting, .putManifest 3 .answered,
    .cas 3 .answered]

theorem mem_reach {refs : Refs} {name oid : Text} (h : refs.entries = [(name, oid)]) (o : Text) :
    o ∈ twoObjects.reach refs ↔ o = oid ∨ oid = hexDigits 40 8 ∧ o = hexDigits 40 7 := by
  have hend : ∀ o, Relation.ReflTransGen twoObjects.refers (hexDigits 40 7) o →
      o = hexDigits 40 7 := by
    intro o hpath
    rcases Relation.ReflTransGen.cases_head hpath with heq | ⟨_, hstep, _⟩
    · exact heq.symm
    · exact absurd hstep.1 (by decide)
  simp only [ObjectModel.reach, h, List.mem_singleton, Set.mem_ofPred_eq, exists_eq_left]
  constructor
  · intro hpath
    rcases Relation.ReflTransGen.cases_head hpath with heq | ⟨next, ⟨hoid, rfl⟩, hrest⟩
    · exact Or.inl heq.symm
    · exact Or.inr ⟨hoid, hend o hrest⟩
  · rintro (rfl | ⟨hoid, rfl⟩)
    · exact Relation.ReflTransGen.refl
    · exact Relation.ReflTransGen.single ⟨hoid, rfl⟩

theorem snapshot_answers {pack : Nat} (hpack : pack = 7 ∨ pack = 8) {refsAfter : Refs} {head : Text}
    (h : snapshot (answers "refs/heads/main" pack) = .ok (refsAfter, head)) :
    refsAfter.entries = [("refs/heads/main".toList, hexDigits 40 pack)] := by
  have hrefs : snapshot (answers "refs/heads/main" pack) =
      .ok (SortedMap.empty.insert "refs/heads/main".toList (hexDigits 40 pack),
        "refs/heads/main".toList) := by
    rcases hpack with rfl | rfl
    · decide
    · decide
  rw [hrefs] at h
  cases h
  rfl

/-- The refs of the parent that a pusher has hydrated. -/
def parentRefs (w : World Nat Text) (p : Nat) : Option (List (Text × Text)) :=
  match w.pushers.lookup p with
  | some (.hydrated parent) => some parent.parent.refs.entries
  | _ => none

theorem entries_of_parentRefs {w : World Nat Text} {p : Nat} {parent : ParentState Text}
    {entries : List (Text × Text)} (h : w.pushers.lookup p = some (.hydrated parent))
    (hrefs : parentRefs w p = some entries) : parent.parent.refs.entries = entries := by
  rw [parentRefs, h] at hrefs
  exact Option.some.inj hrefs

theorem gitAnswers_threePushes :
    Run.Along twoObjects.GitAnswers (step lengthBackend) World.start threePushes := by
  refine ⟨trivial, trivial, ?_, trivial, trivial, trivial, trivial, ?_, trivial, trivial, trivial,
    trivial, ?_, trivial, trivial, trivial⟩
  · intro parent refsAfter head hparent hsnapshot
    have hafter := mem_reach (snapshot_answers (Or.inl rfl) hsnapshot)
    have hbefore : parent.parent.refs.entries = [] :=
      entries_of_parentRefs hparent (by decide +kernel)
    refine ⟨fun out hout o => ?_, fun out hout => by cases hout⟩
    cases hout
    -- nothing is reached before
    have hnone : o ∉ twoObjects.reach parent.parent.refs := by
      rintro ⟨e, he, _⟩
      rw [hbefore] at he
      cases he
    have hseven : hexDigits 40 7 ≠ hexDigits 40 8 := by decide
    have hpack : o ∈ twoObjects.objects 7 ↔ o = hexDigits 40 7 := Iff.rfl
    simp [hafter, hnone, hseven, hpack]
  · intro parent refsAfter head hparent hsnapshot
    have hafter := mem_reach (snapshot_answers (Or.inr rfl) hsnapshot)
    have hbefore : parent.parent.refs.entries =
        [("refs/heads/main".toList, hexDigits 40 7)] :=
      entries_of_parentRefs hparent (by decide +kernel)
    refine ⟨fun out hout o => ?_, fun out hout => by cases hout⟩
    cases hout
    have hseven : hexDigits 40 7 ≠ hexDigits 40 8 := by decide
    simp only [Set.mem_sdiff, hafter, mem_reach hbefore]
    constructor
    · rintro ⟨rfl | ⟨_, rfl⟩, hnot⟩
      · exact ⟨8, List.mem_singleton.2 rfl, rfl⟩
      · exact absurd (Or.inl rfl) hnot
    · rintro ⟨p, hp, ho⟩
      rw [List.mem_singleton.1 hp] at ho
      obtain rfl : o = hexDigits 40 8 := ho
      refine ⟨Or.inl rfl, ?_⟩
      rintro (heq | ⟨heq, _⟩)
      · exact hseven heq.symm
      · exact hseven heq
  · intro parent refsAfter head hparent hsnapshot
    have hafter := mem_reach (snapshot_answers (Or.inr rfl) hsnapshot)
    have hbefore : parent.parent.refs.entries =
        [("refs/heads/main".toList, hexDigits 40 8)] :=
      entries_of_parentRefs hparent (by decide +kernel)
    refine ⟨fun out hout o => ?_, fun out hout o => ?_⟩
    · -- the refs reach what they reached before
      cases hout
      constructor
      · rintro ⟨hin, hnot⟩
        exact absurd ((mem_reach hbefore o).2 ((hafter o).1 hin)) hnot
      · rintro ⟨p, hp, _⟩
        cases hp
    · cases hout
      have hpack : o ∈ twoObjects.objects 9 ↔ o = hexDigits 40 7 ∨ o = hexDigits 40 8 := Iff.rfl
      simp [hafter, hpack, or_comm]

end Sample

/-- Three pushes are installed, each with its closure. -/
theorem object_closure_threePushes :
    ((runFrom Sample.lengthBackend Sample.threePushes).installed.map Manifest.packs =
        [[packKey Sample.lengthBackend.info 7],
          [packKey Sample.lengthBackend.info 7, packKey Sample.lengthBackend.info 8],
          [packKey Sample.lengthBackend.info 9]]) ∧
      ∀ m ∈ (runFrom Sample.lengthBackend Sample.threePushes).installed,
        Sample.twoObjects.Closed (runFrom Sample.lengthBackend Sample.threePushes).store m := by
  have hsha : PacksCollisionFree Sample.lengthBackend Sample.threePushes := by
    unfold PacksCollisionFree
    decide
  refine ⟨by decide +kernel, fun m hm => ?_⟩
  exact (object_closure Sample.lengthBackend Sample.twoObjects Sample.threePushes
    Sample.gitAnswers_threePushes hsha m hm).1

end Git
end Relay
end Maju
