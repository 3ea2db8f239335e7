import Maju.Lib.HashMap
import Maju.Relay.Git.Manifest

/-!
# Publish — from a receive-pack workspace to a validated manifest

What `cas_publish` does before the pointer CAS: it snapshots the refs and HEAD of the workspace,
captures the new objects as a delta pack or, when the manifest names many packs, the whole closure
as replacement packs, uploads the packs, composes the manifest and validates it.  The answers of the
git subprocesses are inputs; `P` is the type of packs.

`loadPointer` is the reader: pointer, digest-verified manifest bytes of bounded size, parse,
validate.
-/

namespace Maju
namespace Relay
namespace Git

open Lib

/-! ## Text helpers of the standard library -/

/-- `splitn(2, ' ')` into its two parts. -/
def splitSpace (line : Text) : Option (Text × Text) :=
  match line.dropWhile (· ≠ ' ') with
  | [] => none
  | _ :: rest => some (line.takeWhile (· ≠ ' '), rest)

/-! ## Errors, limits and the parent -/

inductive CasError where
  | conflict (winner : Manifest) (winnerManifestKey : Text)
  | manifestReadFailed
  | manifestInvalid (error : ManifestError)
  | backend
  | packCapture
  | resourceLimit
  deriving DecidableEq

structure PublishLimits where
  parentHydratedBytes : Nat
  maxPackBytes : Nat
  maxRepoBytes : Nat

/-- `ParentState`: the pointer observation that the workspace was hydrated from. -/
structure ParentState (E : Type) where
  ifMatch : Option E
  parentDigest : Option Text
  parent : Manifest

def ParentState.fresh (E : Type) : ParentState E where
  ifMatch := none
  parentDigest := none
  parent := ⟨manifestVersion, [], SortedMap.empty, [], none⟩

/-! ## Snapshot of the workspace -/

def maxRefSnapshotBytes : Nat := 4 * 1024 * 1024

/-- The output of `git for-each-ref`: its length, and its text if it is UTF-8. -/
structure RefListing where
  bytes : Nat
  text : Option Text
  length_eq : ∀ t, text = some t → bytes = byteLen t

/-- One line of the listing: a name and a 40-digit object id. -/
def readRefLine (line : Text) : Option (Text × Text) :=
  match splitSpace line with
  | some (name, oid) =>
      if byteLen oid = 40 ∧ oid.all isAsciiHexdigit then some (name, oid) else none
  | none => none

def collectRefs (refs : Refs) : List Text → Except CasError Refs
  | [] => .ok refs
  | line :: rest =>
      match readRefLine line with
      | none => collectRefs refs rest
      | some (name, oid) =>
          if maxManifestRefs ≤ refs.entries.length ∧ !refs.contains name then .error .resourceLimit
          else collectRefs (refs.insert name oid) rest

/-- `snapshot_workspace_state`, when both subprocesses run: `symbolicRef` is the output of
`git symbolic-ref`, if it succeeded. -/
def snapshotWorkspaceState (listing : RefListing) (symbolicRef : Option Text) :
    Except CasError (Refs × Text) :=
  if maxRefSnapshotBytes < listing.bytes then .error .resourceLimit
  else
    -- text that is not UTF-8 reads as no text
    match collectRefs SortedMap.empty (lines (listing.text.getD [])) with
    | .error e => .error e
    | .ok refs => .ok (refs, (symbolicRef.map trim).getD [])

/-- A ref under `refs/heads/` that is published. -/
def isPublishedBranch (refs : Refs) (name : Text) : Bool :=
  "refs/heads/".toList.isPrefixOf name && refs.contains name

def resolvePublishedHead (refs : Refs) (observedHead parentHead : Text) : Text :=
  if isPublishedBranch refs observedHead then observedHead
  else if isPublishedBranch refs parentHead then parentHead
  else if refs.contains "refs/heads/main".toList then "refs/heads/main".toList
  else if refs.contains "refs/heads/master".toList then "refs/heads/master".toList
  else
    match (refs.entries.map Prod.fst).find? fun name => "refs/heads/".toList.isPrefixOf name with
    | some branch => branch
    | none => if observedHead ≠ [] then observedHead else parentHead

/-! ## Packs -/

/-- What a pack is to the publisher: its size and its SHA-256. -/
structure PackInfo (P : Type) where
  size : P → Nat
  sha256 : P → BitVec 256

variable {P : Type} (info : PackInfo P)

/-- `content_key("packs", bytes)`. -/
def packKey (p : P) : Text := "packs/".toList ++ hexDigits 64 (info.sha256 p).toNat

def shouldCompact (parentPackCount threshold : Nat) : Bool := decide (threshold ≤ parentPackCount)

def compactedPackSetIsUsable (parentPackCount compactedPackCount : Nat) : Bool :=
  decide (compactedPackCount < parentPackCount ∨
    (maxManifestPacks ≤ parentPackCount ∧ compactedPackCount ≤ maxManifestPacks))

/-- The size checks of `capture_compacted_packs`; the second component is the size of the index. -/
def checkCompactedSizes (limits : PublishLimits) (total : Nat) :
    List (P × Nat) → Except CasError Unit
  | [] => .ok ()
  | (p, idxBytes) :: rest =>
      if limits.maxPackBytes < info.size p then .error .resourceLimit
      else if 2 ^ 64 ≤ total + info.size p then .error .resourceLimit
      else if limits.maxRepoBytes < total + info.size p then .error .resourceLimit
      else if limits.maxPackBytes < idxBytes then .error .resourceLimit
      else checkCompactedSizes limits (total + info.size p) rest

/-- `capture_compacted_packs`: `output` is what `git pack-objects` left, or the failure of the
object count or of the subprocess. -/
def captureCompactedPacks (limits : PublishLimits) (refsAfter : Refs)
    (output : Except CasError (List (P × Nat))) : Except CasError (List P) :=
  if refsAfter.entries = [] then .ok []
  else do
    let packs ← output
    if maxManifestPacks < packs.length then .error .resourceLimit
    else do
      checkCompactedSizes info limits 0 packs
      .ok (packs.map Prod.fst)

/-- `prepare_compaction`: the packs to upload.  An upload may fail, which is another failure of
`output`. -/
def prepareCompaction (limits : PublishLimits) (refsAfter : Refs) (packsBefore : Nat)
    (output : Except CasError (List (P × Nat))) : Except CasError (List P) := do
  let packs ← captureCompactedPacks info limits refsAfter output
  if !compactedPackSetIsUsable packsBefore packs.length then .error .resourceLimit
  else .ok packs

/-- `capture_pack`: nothing to pack without a ref, no more than the limit otherwise. -/
def capturePack (limits : PublishLimits) (refsAfter : Refs)
    (output : Except CasError (Option P)) : Except CasError (Option P) :=
  if refsAfter.entries = [] then .ok none
  else do
    match ← output with
    | none => .ok none
    | some p => if limits.maxPackBytes < info.size p then .error .resourceLimit else .ok (some p)

def composeAfter (parent : Manifest) (parentDigest : Option Text) (head : Text) (refs : Refs)
    (newPackKey : Option Text) : Manifest where
  version := manifestVersion
  head := head
  refs := refs
  packs := sortDedup (match newPackKey with
    | some k => if parent.packs.any (· = k) then parent.packs else parent.packs ++ [k]
    | none => parent.packs)
  parent := parentDigest

def composeCompactedAfter (parentDigest : Option Text) (head : Text) (refs : Refs)
    (compactedPackKeys : List Text) : Manifest where
  version := manifestVersion
  head := head
  refs := refs
  packs := sortDedup compactedPackKeys
  parent := parentDigest

/-! ## The manifest of a push -/

/-- The answers of git and of the store during one publication: what a compaction waits for before
it looks at the refs, the compaction with its uploads, `git pack-objects` for the delta, and whether
`put_pack` of it succeeds. -/
structure Answers (P : Type) where
  listing : Except CasError RefListing
  symbolicRef : Except CasError (Option Text)
  permit : Except CasError Unit
  compaction : Except CasError (List (P × Nat))
  delta : Except CasError (Option P)
  uploaded : Bool

variable {E : Type}

/-- The snapshot with its subprocesses. -/
def snapshot (answers : Answers P) : Except CasError (Refs × Text) := do
  let listing ← answers.listing
  let symbolicRef ← answers.symbolicRef
  snapshotWorkspaceState listing symbolicRef

/-- The compaction, if the parent names so many packs that one is due. -/
def compact (limits : PublishLimits) (threshold packsBefore : Nat) (answers : Answers P)
    (refsAfter : Refs) : Option (Except CasError (List P)) :=
  if shouldCompact packsBefore threshold then
    some do
      answers.permit
      prepareCompaction info limits refsAfter packsBefore answers.compaction
  else none

/-- The delta path, behind a compaction that may have failed: the new manifest, and the pack that
was uploaded for it. -/
def publishDelta (limits : PublishLimits) (parent : ParentState E) (answers : Answers P)
    (compactionFailure : Option CasError) (refsAfter : Refs) (head : Text) :
    Except CasError (Manifest × List P) := do
  match ← capturePack info limits refsAfter answers.delta with
  | none => .ok (composeAfter parent.parent parent.parentDigest head refsAfter none, [])
  | some p =>
      if maxManifestPacks ≤ parent.parent.packs.length then
        .error (compactionFailure.getD .resourceLimit)
      else if 2 ^ 64 ≤ limits.parentHydratedBytes + info.size p then .error .resourceLimit
      else if limits.maxRepoBytes < limits.parentHydratedBytes + info.size p then
        .error .resourceLimit
      else if !answers.uploaded then .error .backend
      else .ok (composeAfter parent.parent parent.parentDigest head refsAfter
        (some (packKey info p)), [p])

/-- The manifest that a push composes, with the packs it has uploaded for it. -/
def composeManifest (limits : PublishLimits) (threshold : Nat) (parent : ParentState E)
    (answers : Answers P) : Except CasError (Manifest × List P) := do
  let (refsAfter, headObserved) ← snapshot answers
  let head := resolvePublishedHead refsAfter headObserved parent.parent.head
  match compact info limits threshold parent.parent.packs.length answers refsAfter with
  | some (.ok packs) =>
      .ok (composeCompactedAfter parent.parentDigest head refsAfter (packs.map (packKey info)),
        packs)
  -- a failed compaction falls back to the delta
  | some (.error failure) => publishDelta info limits parent answers (some failure) refsAfter head
  | none => publishDelta info limits parent answers none refsAfter head

/-- The validated manifest, ready to be stored and installed. -/
def prepareManifest (limits : PublishLimits) (threshold : Nat) (parent : ParentState E)
    (answers : Answers P) : Except CasError (Manifest × List P) := do
  let (m, packs) ← composeManifest info limits threshold parent answers
  match m.validate with
  | .error e => .error (.manifestInvalid e)
  | .ok () => .ok (m, packs)

/-! ## What a prepared manifest is -/

section Prepared

variable {info} {limits : PublishLimits} {threshold : Nat} {parent : ParentState E}
  {answers : Answers P} {m : Manifest} {packs : List P}

theorem prepareManifest_ok (h : prepareManifest info limits threshold parent answers =
    .ok (m, packs)) :
    composeManifest info limits threshold parent answers = .ok (m, packs) ∧
      m.validate = .ok () := by
  unfold prepareManifest at h
  cases hcompose : composeManifest info limits threshold parent answers with
  | error e =>
      rw [hcompose] at h
      cases h
  | ok result =>
      rcases result with ⟨m', packs'⟩
      rw [hcompose] at h
      change (match m'.validate with
        | .error e => .error (.manifestInvalid e)
        | .ok () => .ok (m', packs')) = (.ok (m, packs) : Except CasError (Manifest × List P)) at h
      cases hvalid : m'.validate with
      | error e =>
          rw [hvalid] at h
          cases h
      | ok u =>
          rw [hvalid] at h
          cases h
          exact ⟨rfl, hvalid⟩

theorem compact_ok {packsBefore : Nat} {refsAfter : Refs}
    (h : compact info limits threshold packsBefore answers refsAfter = some (.ok packs)) :
    prepareCompaction info limits refsAfter packsBefore answers.compaction = .ok packs := by
  unfold compact at h
  split_ifs at h
  cases hpermit : answers.permit with
  | error e =>
      rw [hpermit] at h
      cases h
  | ok u =>
      rw [hpermit] at h
      exact Option.some.inj h

theorem composeManifest_ok (h : composeManifest info limits threshold parent answers =
    .ok (m, packs)) :
    ∃ refsAfter headObserved, snapshot answers = .ok (refsAfter, headObserved) ∧
      ((prepareCompaction info limits refsAfter parent.parent.packs.length answers.compaction =
          .ok packs ∧
        m = composeCompactedAfter parent.parentDigest
          (resolvePublishedHead refsAfter headObserved parent.parent.head) refsAfter
          (packs.map (packKey info))) ∨
      ∃ failure, publishDelta info limits parent answers failure refsAfter
        (resolvePublishedHead refsAfter headObserved parent.parent.head) = .ok (m, packs)) := by
  unfold composeManifest at h
  cases hsnapshot : snapshot answers with
  | error e =>
      rw [hsnapshot] at h
      cases h
  | ok result =>
      rcases result with ⟨refsAfter, headObserved⟩
      refine ⟨refsAfter, headObserved, rfl, ?_⟩
      simp only [hsnapshot, bind, Except.bind] at h
      cases hcompact : compact info limits threshold parent.parent.packs.length answers
          refsAfter with
      | none =>
          rw [hcompact] at h
          exact Or.inr ⟨none, h⟩
      | some result =>
          rw [hcompact] at h
          cases result with
          | error failure => exact Or.inr ⟨some failure, h⟩
          | ok compacted =>
              cases h
              exact Or.inl ⟨compact_ok hcompact, rfl⟩

theorem publishDelta_ok {failure : Option CasError} {refsAfter : Refs} {head : Text}
    (h : publishDelta info limits parent answers failure refsAfter head = .ok (m, packs)) :
    (capturePack info limits refsAfter answers.delta = .ok none ∧ packs = [] ∧
        m = composeAfter parent.parent parent.parentDigest head refsAfter none) ∨
      ∃ p, capturePack info limits refsAfter answers.delta = .ok (some p) ∧ packs = [p] ∧
        parent.parent.packs.length < maxManifestPacks ∧
        m = composeAfter parent.parent parent.parentDigest head refsAfter
          (some (packKey info p)) := by
  unfold publishDelta at h
  cases hcapture : capturePack info limits refsAfter answers.delta with
  | error e =>
      rw [hcapture] at h
      cases h
  | ok captured =>
      rw [hcapture] at h
      cases captured with
      | none =>
          cases h
          exact Or.inl ⟨rfl, rfl, rfl⟩
      | some p =>
          refine Or.inr ⟨p, rfl, ?_⟩
          simp only [bind, Except.bind] at h
          split_ifs at h with hfull hover hlarge hupload
          cases h
          exact ⟨rfl, not_le.1 hfull, rfl⟩

theorem composeManifest_canonical (h : composeManifest info limits threshold parent answers =
    .ok (m, packs)) : m.Canonical ∧ m.parent = parent.parentDigest := by
  rcases composeManifest_ok h with ⟨refsAfter, headObserved, _, ⟨_, rfl⟩ | ⟨_, hdelta⟩⟩
  · exact ⟨⟨rfl, pairwise_sortDedup _⟩, rfl⟩
  · rcases publishDelta_ok hdelta with ⟨_, _, rfl⟩ | ⟨p, _, _, _, rfl⟩
    · exact ⟨⟨rfl, pairwise_sortDedup _⟩, rfl⟩
    · exact ⟨⟨rfl, pairwise_sortDedup _⟩, rfl⟩

end Prepared

/-! ## The object store -/

/-- The repository's part of the object store: immutable manifests and packs under their digests,
and the pointer with its ETag.  `writes` counts the pointer writes. -/
structure RepoStore (P E : Type) where
  manifests : HashMap Text Text
  packs : HashMap Text P
  pointer : Option (E × Text)
  writes : Nat

/-- What the store is built on: SHA-256 of manifest bytes, and the ETag of a pointer write. -/
structure Backend (P E : Type) where
  info : PackInfo P
  sha256 : Text → BitVec 256
  etag : Nat → Text → E

namespace Backend

variable (backend : Backend P E)

/-- The hex digest of a manifest's canonical bytes. -/
def manifestDigest (m : Manifest) : Text := hexDigits 64 (backend.sha256 m.canonicalBytes).toNat

end Backend

/-- `put_immutable`: create-only; an object that is there stays. -/
def putImmutable {V : Type} (objects : HashMap Text V) (key : Text) (value : V) : HashMap Text V :=
  match objects.lookup key with
  | some _ => objects
  | none => objects.insert key value

inductive HydrateError where
  | invalidPointer
  | manifest (error : ManifestError)
  | store
  | resourceLimit
  deriving DecidableEq, Repr

def maxManifestBytes : Nat := 4 * 1024 * 1024

def loadPointer (backend : Backend P E) (store : RepoStore P E) :
    Except HydrateError (Option (E × Text × Manifest)) :=
  match store.pointer with
  | none => .ok none
  | some (etag, body) =>
      let digest := trim body
      if byteLen digest ≠ 64 ∨ !digest.all isAsciiHexdigit then .error .invalidPointer
      else
        match store.manifests.lookup digest with
        | none => .error .store
        | some bytes =>
            if maxManifestBytes < byteLen bytes then .error .resourceLimit
            else if hexDigits 64 (backend.sha256 bytes).toNat ≠ digest then .error .store
            else
              match Manifest.fromBytes bytes with
              | .error e => .error (.manifest e)
              | .ok m =>
                  match m.validate with
                  | .error e => .error (.manifest e)
                  | .ok () => .ok (some (etag, digest, m))

/-- The parent that `hydrate_for_write` hands to the push. -/
def hydrateForWrite (backend : Backend P E) (store : RepoStore P E) :
    Except HydrateError (ParentState E) :=
  match loadPointer backend store with
  | .error e => .error e
  | .ok none => .ok (ParentState.fresh E)
  | .ok (some (etag, digest, m)) => .ok ⟨some etag, some digest, m⟩

theorem not_isWhitespace_hexDigit : ∀ d < 16, isWhitespace (hexDigit d) = false := by
  decide

theorem trim_hexDigits (n x : Nat) : trim (hexDigits n x) = hexDigits n x := by
  refine trim_eq_self ?_
  intro c hc
  by_contra hspace
  refine not_mem_hexDigits (c := c) ?_ n x hc
  rintro d hd rfl
  exact hspace (not_isWhitespace_hexDigit d hd)

/-- What `load_pointer` accepts is stored under the digest in the pointer, small enough, and
valid. -/
theorem loadPointer_ok {backend : Backend P E} {store : RepoStore P E} {etag : E} {digest : Text}
    {m : Manifest} (h : loadPointer backend store = .ok (some (etag, digest, m))) :
    ∃ body bytes, store.pointer = some (etag, body) ∧ digest = trim body ∧
      store.manifests.lookup digest = some bytes ∧ byteLen bytes ≤ maxManifestBytes ∧
      hexDigits 64 (backend.sha256 bytes).toNat = digest ∧ Manifest.fromBytes bytes = .ok m ∧
      m.validate = .ok () := by
  unfold loadPointer at h
  cases hpointer : store.pointer with
  | none =>
      rw [hpointer] at h
      cases h
  | some current =>
      rcases current with ⟨etag', body⟩
      simp only [hpointer] at h
      split_ifs at h with hshape
      cases hlookup : store.manifests.lookup (trim body) with
      | none =>
          rw [hlookup] at h
          cases h
      | some bytes =>
          simp only [hlookup] at h
          split_ifs at h with hsize hdigest
          cases hread : Manifest.fromBytes bytes with
          | error e =>
              rw [hread] at h
              cases h
          | ok m' =>
              simp only [hread] at h
              cases hvalid : m'.validate with
              | error e =>
                  rw [hvalid] at h
                  cases h
              | ok u =>
                  rw [hvalid] at h
                  cases h
                  exact ⟨body, bytes, rfl, rfl, hlookup, not_lt.1 hsize, not_not.1 hdigest, hread,
                    hvalid⟩

theorem hydrateForWrite_ok {backend : Backend P E} {store : RepoStore P E}
    {parent : ParentState E} (h : hydrateForWrite backend store = .ok parent) :
    (store.pointer = none ∧ parent = ParentState.fresh E) ∨
      ∃ etag digest m, loadPointer backend store = .ok (some (etag, digest, m)) ∧
        parent = ⟨some etag, some digest, m⟩ := by
  unfold hydrateForWrite at h
  cases hload : loadPointer backend store with
  | error e =>
      rw [hload] at h
      cases h
  | ok loaded =>
      rw [hload] at h
      cases loaded with
      | none =>
          cases h
          refine Or.inl ⟨?_, rfl⟩
          -- a pointer that is there is read or refused
          cases hpointer : store.pointer with
          | none => rfl
          | some current =>
              unfold loadPointer at hload
              simp only [hpointer] at hload
              repeat' split at hload
              all_goals cases hload
      | some triple =>
          rcases triple with ⟨etag, digest, m⟩
          cases h
          exact Or.inr ⟨etag, digest, m, rfl, rfl⟩

/-- The precondition of `put_pointer` holds: `If-Match` or `If-None-Match: *`. -/
def preconditionHolds [DecidableEq E] (store : RepoStore P E) (ifMatch : Option E) : Bool :=
  match ifMatch, store.pointer with
  | some e, some (current, _) => decide (current = e)
  | some _, none => false
  | none, current => current.isNone

def writePointer (backend : Backend P E) (store : RepoStore P E) (body : Text) :
    RepoStore P E :=
  { store with
    pointer := some (backend.etag store.writes body, body)
    writes := store.writes + 1 }

end Git
end Relay
end Maju
