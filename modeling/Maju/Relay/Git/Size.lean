import Maju.Relay.Git.Closure
import Mathlib.Algebra.Order.BigOperators.Group.List
import Mathlib.Algebra.Order.Ring.Nat

/-!
# Size — how large a published manifest is, and when it can be read back

The writer bounds the text that `git for-each-ref` prints and the number of refs and packs; the
reader bounds the JSON.  A ref costs the length of its name and 42 bytes in the text, but 46 bytes
in the JSON, and both bounds are 4 MiB.  `byteLen_canonicalBytes` is the size of a valid manifest.
A published manifest is read back if and only if it fits, and with the ref names that the
pre-receive policy admits it always fits.
-/

namespace Maju
namespace Relay
namespace Git

open Lib

/-! ## The size of the JSON text -/

def PlainText (s : Text) : Prop := ∀ c ∈ s, Json.escapeChar c = [c]

theorem byteLen_quote {s : Text} (h : PlainText s) : byteLen (Json.quote s) = byteLen s + 2 := by
  have htail : byteLen (Json.quoteTail s) = byteLen s + 1 := by
    induction s with
    | nil => rfl
    | cons c s ih =>
        have hrest := ih fun d hd => h d (List.mem_cons_of_mem c hd)
        rw [Json.quoteTail, h c List.mem_cons_self, byteLen_append, hrest]
        simp only [byteLen_cons, byteLen_nil]
        omega
  rw [Json.quote, byteLen_cons, htail, show '"'.utf8Size = 1 from rfl]
  omega

theorem byteLen_printMembers {l : List (Text × Text)}
    (h : ∀ e ∈ l, PlainText e.1 ∧ PlainText e.2) :
    byteLen (Json.printMembers (l.map fun e => (e.1, Json.str e.2))) =
      (l.map fun e => byteLen e.1 + byteLen e.2 + 6).sum + 1 := by
  induction l with
  | nil => rfl
  | cons e l ih =>
      rcases h e List.mem_cons_self with ⟨hname, hvalue⟩
      have hrest := ih fun a ha => h a (List.mem_cons_of_mem e ha)
      simp only [List.map_cons, Json.printMembers, Json.print, byteLen_cons, byteLen_append,
        byteLen_quote hname, byteLen_quote hvalue, hrest, List.sum_cons,
        show ','.utf8Size = 1 from rfl, show ':'.utf8Size = 1 from rfl]
      omega

theorem byteLen_printItems {l : List Text} (h : ∀ s ∈ l, PlainText s) :
    byteLen (Json.printItems (l.map Json.str)) = (l.map fun s => byteLen s + 3).sum + 1 := by
  induction l with
  | nil => rfl
  | cons s l ih =>
      have hrest := ih fun a ha => h a (List.mem_cons_of_mem s ha)
      simp only [List.map_cons, Json.printItems, Json.print, byteLen_cons, byteLen_append,
        byteLen_quote (h s List.mem_cons_self), hrest, List.sum_cons,
        show ','.utf8Size = 1 from rfl]
      omega

/-- The brackets of an array or an object around parts of these sizes, with the commas. -/
def bracketed (parts : List Nat) : Nat := if parts = [] then 2 else (parts.map (· + 1)).sum + 1

theorem byteLen_print_obj {l : List (Text × Text)} (h : ∀ e ∈ l, PlainText e.1 ∧ PlainText e.2) :
    byteLen (Json.print (.obj (l.map fun e => (e.1, Json.str e.2)))) =
      bracketed (l.map fun e => byteLen e.1 + byteLen e.2 + 5) := by
  cases l with
  | nil => rfl
  | cons e l =>
      rcases h e List.mem_cons_self with ⟨hname, hvalue⟩
      have hrest := byteLen_printMembers fun a ha => h a (List.mem_cons_of_mem e ha)
      simp only [List.map_cons, Json.print, byteLen_cons, byteLen_append, byteLen_quote hname,
        byteLen_quote hvalue, hrest, bracketed, List.sum_cons, List.map_map, Function.comp_def,
        Nat.add_assoc, show '\x7b'.utf8Size = 1 from rfl, show ':'.utf8Size = 1 from rfl]
      simp
      omega

theorem byteLen_print_arr {l : List Text} (h : ∀ s ∈ l, PlainText s) :
    byteLen (Json.print (.arr (l.map Json.str))) = bracketed (l.map fun s => byteLen s + 2) := by
  cases l with
  | nil => rfl
  | cons s l =>
      have hrest := byteLen_printItems fun a ha => h a (List.mem_cons_of_mem s ha)
      simp only [List.map_cons, Json.print, byteLen_cons, byteLen_append,
        byteLen_quote (h s List.mem_cons_self), hrest, bracketed, List.sum_cons, List.map_map,
        Function.comp_def, Nat.add_assoc, show '['.utf8Size = 1 from rfl]
      simp
      omega

/-! ## The size of a valid manifest -/

/-- The size of a manifest's JSON, from the lengths of its names. -/
def encodedSize (m : Manifest) : Nat :=
  48 + (byteLen m.head + 2) +
    bracketed (m.refs.entries.map fun e => byteLen e.1 + byteLen e.2 + 5) +
    bracketed (m.packs.map fun s => byteLen s + 2) +
    match m.parent with
    | some p => byteLen p + 2
    | none => 4

theorem alphanum_range {c : Char} (h : c.isAlphanum = true) : 48 ≤ c.toNat ∧ c.toNat ≠ 92 := by
  have hranges := isAlphanum_iff.1 h
  omega

theorem escapeChar_of_range {c : Char} (h : 48 ≤ c.toNat ∧ c.toNat ≠ 92) :
    Json.escapeChar c = [c] := by
  refine Json.escapeChar_eq_self ?_ ?_ (by omega)
  · rintro rfl
    exact absurd h.1 (by decide)
  · rintro rfl
    exact h.2 rfl

theorem plainText_of_isSafeRefname {s : Text} (h : isSafeRefname s = true) : PlainText s := by
  simp only [isSafeRefname, Bool.and_eq_true, List.all_eq_true, Bool.or_eq_true,
    decide_eq_true_eq] at h
  intro c hc
  rcases h.2 c hc with (((halpha | rfl) | rfl) | rfl) | rfl
  · exact escapeChar_of_range (alphanum_range halpha)
  all_goals rfl

theorem hexdigit_range {c : Char} (h : isAsciiHexdigit c = true) :
    48 ≤ c.toNat ∧ c.toNat ≠ 92 := by
  unfold isAsciiHexdigit hexValue at h
  have hle : ∀ a b : Char, a ≤ b ↔ a.toNat ≤ b.toNat := fun a b => UInt32.le_iff_toNat_le
  split_ifs at h with hdigit hlower hupper
  · rw [hle, hle] at hdigit
    exact ⟨hdigit.1, fun heq => absurd hdigit.2 (by rw [heq]; decide)⟩
  · rw [hle, hle] at hlower
    exact ⟨le_trans (by decide) hlower.1, fun heq => absurd hlower.1 (by rw [heq]; decide)⟩
  · rw [hle, hle] at hupper
    exact ⟨le_trans (by decide) hupper.1, fun heq => absurd hupper.2 (by rw [heq]; decide)⟩
  · cases h

theorem isAsciiHexdigit_of_digest {c : Char}
    (h : (('0' ≤ c && c ≤ '9') || ('a' ≤ c && c ≤ 'f')) = true) : isAsciiHexdigit c = true := by
  simp only [Bool.or_eq_true, Bool.and_eq_true, decide_eq_true_eq] at h
  unfold isAsciiHexdigit hexValue
  rcases h with hdigit | hlower
  · rw [if_pos hdigit]
    rfl
  · split_ifs
    · rfl
    · rfl

theorem plainText_of_isHexOid {s : Text} (h : isHexOid s = true) : PlainText s := by
  simp only [isHexOid, Bool.and_eq_true, List.all_eq_true] at h
  exact fun c hc => escapeChar_of_range (hexdigit_range (h.2 c hc))

theorem plainText_of_isManifestDigest {s : Text} (h : isManifestDigest s = true) :
    PlainText s := by
  simp only [isManifestDigest, Bool.and_eq_true, List.all_eq_true] at h
  exact fun c hc => escapeChar_of_range (hexdigit_range (isAsciiHexdigit_of_digest (h.2 c hc)))

theorem eq_append_of_isPackKey {s : Text} (h : isPackKey s = true) :
    ∃ digest, s = "packs/".toList ++ digest ∧ isManifestDigest digest = true := by
  simp only [isPackKey, Bool.and_eq_true] at h
  rcases List.isPrefixOf_iff_prefix.1 h.1 with ⟨digest, rfl⟩
  exact ⟨digest, rfl, h.2⟩

theorem plainText_of_isPackKey {s : Text} (h : isPackKey s = true) : PlainText s := by
  rcases eq_append_of_isPackKey h with ⟨digest, rfl, hdigest⟩
  intro c hc
  rcases List.mem_append.1 hc with hfix | hmem
  · have hplain : "packs/".toList.all (fun c => Json.escapeChar c = [c]) = true := by decide
    exact of_decide_eq_true (List.all_eq_true.1 hplain c hfix)
  · exact plainText_of_isManifestDigest hdigest c hmem

namespace Manifest

/-- What `validate` has checked. -/
structure IsValid (m : Manifest) : Prop where
  packCount : m.packs.length ≤ maxManifestPacks
  refCount : m.refs.entries.length ≤ maxManifestRefs
  head : isSafeRefname m.head = true
  refs : ∀ e ∈ m.refs.entries, isSafeRefname e.1 = true ∧ isHexOid e.2 = true
  packs : ∀ key ∈ m.packs, isPackKey key = true
  parent : ∀ p, m.parent = some p → isManifestDigest p = true

theorem checkRefs_ok_iff {l : List (Text × Text)} :
    checkRefs l = .ok () ↔ ∀ e ∈ l, isSafeRefname e.1 = true ∧ isHexOid e.2 = true := by
  induction l with
  | nil => simp [checkRefs]
  | cons e l ih =>
      rcases e with ⟨refname, oid⟩
      rw [checkRefs]
      by_cases hname : isSafeRefname refname = true
      · by_cases hoid : isHexOid oid = true
        · simp [hname, hoid, ih]
        · simp [hname, hoid]
      · simp [hname]

theorem checkPacks_ok_iff {l : List Text} :
    checkPacks l = .ok () ↔ ∀ key ∈ l, isPackKey key = true := by
  induction l with
  | nil => simp [checkPacks]
  | cons key l ih =>
      rw [checkPacks]
      by_cases hkey : isPackKey key = true
      · simp [hkey, ih]
      · simp [hkey]

theorem checkParent_ok_iff {parent : Option Text} :
    checkParent parent = .ok () ↔ ∀ p, parent = some p → isManifestDigest p = true := by
  cases parent with
  | none => simp [checkParent]
  | some p => by_cases hp : isManifestDigest p = true <;> simp [checkParent, hp]

theorem validate_ok_iff {m : Manifest} : m.validate = .ok () ↔ m.IsValid := by
  have hseq : ∀ a b : Except ManifestError Unit, (a >>= fun _ => b) = .ok () ↔
      a = .ok () ∧ b = .ok () := by
    intro a b
    cases a with
    | error e => simp [bind, Except.bind]
    | ok u => simp [bind, Except.bind]
  have hhead : isSafeRefname [] = false := by decide
  unfold validate
  split_ifs with hpacks hrefs hempty hsafe
  · exact iff_of_false (by simp) fun h => absurd h.packCount (not_le.2 hpacks)
  · exact iff_of_false (by simp) fun h => absurd h.refCount (not_le.2 hrefs)
  · refine iff_of_false (by simp) fun h => ?_
    have hnil := h.head
    rw [hempty, hhead] at hnil
    cases hnil
  · refine iff_of_false (by simp) fun h => ?_
    rw [h.head] at hsafe
    cases hsafe
  · rw [hseq, hseq, checkRefs_ok_iff, checkPacks_ok_iff, checkParent_ok_iff]
    constructor
    · rintro ⟨hr, hp, hparent⟩
      exact ⟨not_lt.1 hpacks, not_lt.1 hrefs, by simpa using hsafe, hr, hp, hparent⟩
    · intro h
      exact ⟨h.refs, h.packs, h.parent⟩

theorem byteLen_print_five {a b c d e : Text} (va vb vc vd ve : Json) :
    byteLen (Json.print (.obj [(a, va), (b, vb), (c, vc), (d, vd), (e, ve)])) =
      ([a, b, c, d, e].map fun k => byteLen (Json.quote k)).sum + byteLen va.print +
        byteLen vb.print + byteLen vc.print + byteLen vd.print + byteLen ve.print + 11 := by
  simp only [Json.print, Json.printMembers, byteLen_cons, byteLen_append, byteLen_nil,
    show '\x7b'.utf8Size = 1 from rfl, show '\x7d'.utf8Size = 1 from rfl,
    show ','.utf8Size = 1 from rfl, show ':'.utf8Size = 1 from rfl, List.map_cons, List.map_nil,
    List.sum_cons, List.sum_nil]
  omega

theorem byteLen_memberNames :
    (["version".toList, "head".toList, "refs".toList, "packs".toList, "parent".toList].map
      fun k => byteLen (Json.quote k)).sum = 36 := rfl

/-- The size of the canonical bytes. -/
theorem byteLen_canonicalBytes {m : Manifest} (hcanonical : m.Canonical) (h : m.IsValid) :
    byteLen m.canonicalBytes = encodedSize m := by
  have hsame : ({ m with packs := sortDedup m.packs } : Manifest) = m := by
    rw [sortDedup_eq_self hcanonical.2]
  have hrefs := byteLen_print_obj (l := m.refs.entries) fun e he =>
    ⟨plainText_of_isSafeRefname (h.refs e he).1, plainText_of_isHexOid (h.refs e he).2⟩
  have hpacks := byteLen_print_arr (l := m.packs) fun key hkey =>
    plainText_of_isPackKey (h.packs key hkey)
  have hhead := byteLen_quote (plainText_of_isSafeRefname h.head)
  have hparent : byteLen (Json.print (parentJson m.parent)) = match m.parent with
      | some p => byteLen p + 2
      | none => 4 := by
    cases hp : m.parent with
    | none => rfl
    | some p => exact byteLen_quote (plainText_of_isManifestDigest (h.parent p hp))
  have hversion : byteLen (decimal m.version) = 1 := by
    rw [hcanonical.1]
    decide
  rw [canonicalBytes, hsame, toJson_eq, jsonMembers, byteLen_print_five, hrefs, hpacks, hparent,
    Json.print, Json.print, hhead, hversion, byteLen_memberNames, encodedSize]
  omega

end Manifest

/-! ## Reading back what was published -/

variable {P E : Type}

/-- `cas_publish` on a store that nobody else writes to. -/
def casPublish [DecidableEq E] (backend : Backend P E) (store : RepoStore P E)
    (limits : PublishLimits) (parent : ParentState E) (answers : Answers P) :
    Except CasError (Manifest × RepoStore P E) :=
  match prepareManifest backend.info limits packCompactionThreshold parent answers with
  | .error e => .error e
  | .ok (m, packs) =>
      let stored : RepoStore P E := { store with
        packs := packs.foldl (fun objects p => putImmutable objects (packKey backend.info p) p)
          store.packs
        manifests := putImmutable store.manifests (backend.manifestDigest m) m.canonicalBytes }
      if preconditionHolds stored parent.ifMatch then
        .ok (m, writePointer backend stored (backend.manifestDigest m))
      else
        match readWinnerAfterConflict backend stored with
        | .error e => .error e
        | .ok (winner, key) => .error (.conflict winner key)

section Publish

variable [DecidableEq E] {backend : Backend P E} {store after : RepoStore P E}
  {limits : PublishLimits} {parent : ParentState E} {answers : Answers P} {m : Manifest}

theorem casPublish_ok (h : casPublish backend store limits parent answers = .ok (m, after)) :
    m.Canonical ∧ m.validate = .ok () ∧
      after.manifests =
        putImmutable store.manifests (backend.manifestDigest m) m.canonicalBytes ∧
      after.pointer =
        some (backend.etag store.writes (backend.manifestDigest m), backend.manifestDigest m) := by
  unfold casPublish at h
  cases hprepare : prepareManifest backend.info limits packCompactionThreshold parent answers with
  | error e =>
      rw [hprepare] at h
      cases h
  | ok result =>
      rcases result with ⟨m', packs⟩
      rcases prepareManifest_ok hprepare with ⟨hcompose, hvalid⟩
      simp only [hprepare] at h
      split_ifs at h
      · cases h
        exact ⟨(composeManifest_canonical hcompose).1, hvalid, rfl, rfl⟩
      · split at h
        · cases h
        · cases h

theorem byteLen_hexDigits (n x : Nat) : byteLen (hexDigits n x) = n := by
  induction n generalizing x with
  | zero => rfl
  | succ n ih =>
      have hsize : ∀ d < 16, (hexDigit d).utf8Size = 1 := by decide
      rw [hexDigits, byteLen_append, ih, byteLen_cons, hsize _ (Nat.mod_lt _ (by decide))]
      rfl

theorem all_isAsciiHexdigit_hexDigits (n x : Nat) :
    (hexDigits n x).all isAsciiHexdigit = true := by
  rw [List.all_eq_true]
  intro c hc
  by_contra hnot
  refine not_mem_hexDigits (c := c) ?_ n x hc
  rintro d hd rfl
  exact hnot (by rw [isAsciiHexdigit, hexValue_hexDigit d hd]; rfl)

omit [DecidableEq E] in
theorem loadPointer_stored (hcanonical : m.Canonical) (hvalid : m.validate = .ok ()) {etag : E}
    (hpointer : store.pointer = some (etag, backend.manifestDigest m))
    (hstored : store.manifests.lookup (backend.manifestDigest m) = some m.canonicalBytes) :
    loadPointer backend store =
      if maxManifestBytes < encodedSize m then .error .resourceLimit
      else .ok (some (etag, backend.manifestDigest m, m)) := by
  have htrim : trim (backend.manifestDigest m) = backend.manifestDigest m := trim_hexDigits _ _
  have hshape : ¬(byteLen (backend.manifestDigest m) ≠ 64 ∨
      (!(backend.manifestDigest m).all isAsciiHexdigit) = true) := by
    rw [Backend.manifestDigest, byteLen_hexDigits, all_isAsciiHexdigit_hexDigits]
    decide
  have hsize := Manifest.byteLen_canonicalBytes hcanonical (Manifest.validate_ok_iff.1 hvalid)
  have hdigest : ¬hexDigits 64 (backend.sha256 m.canonicalBytes).toNat ≠
      backend.manifestDigest m := not_not.2 rfl
  have hlookup : store.manifests.lookup (trim (backend.manifestDigest m)) =
      some m.canonicalBytes := by rw [htrim, hstored]
  unfold loadPointer
  simp only [hpointer, hlookup, htrim, if_neg hshape, hsize, if_neg hdigest,
    Manifest.fromBytes_canonicalBytes hcanonical, hvalid]

/-- The longest ref name that the pre-receive policy admits. -/
def maxRefNameBytes : Nat := 256

theorem bracketed_le {l : List Nat} {n k : Nat} (hlength : l.length ≤ n) (hk : ∀ x ∈ l, x ≤ k) :
    bracketed l ≤ n * (k + 1) + 2 := by
  unfold bracketed
  split_ifs
  · omega
  · have hsum : (l.map (· + 1)).sum ≤ (l.map (· + 1)).length * (k + 1) := by
      have hle := List.sum_le_card_nsmul (l.map (· + 1)) (k + 1) (by
        intro x hx
        rcases List.mem_map.1 hx with ⟨y, hy, rfl⟩
        exact Nat.succ_le_succ (hk y hy))
      simpa using hle
    rw [List.length_map] at hsum
    have hmono := Nat.mul_le_mul_right (k + 1) hlength
    omega

theorem encodedSize_le (h : m.IsValid) (hhead : byteLen m.head ≤ maxRefNameBytes)
    (hnames : ∀ e ∈ m.refs.entries, byteLen e.1 ≤ maxRefNameBytes) :
    encodedSize m ≤ maxManifestBytes := by
  have hoid : ∀ e ∈ m.refs.entries, byteLen e.2 ≤ 64 := by
    intro e he
    have hhex := (h.refs e he).2
    simp only [isHexOid, Bool.and_eq_true, Bool.or_eq_true, decide_eq_true_eq] at hhex
    omega
  have hrefs : bracketed (m.refs.entries.map fun e => byteLen e.1 + byteLen e.2 + 5) ≤
      maxManifestRefs * 326 + 2 := by
    refine bracketed_le (by simpa using h.refCount) ?_
    intro x hx
    rcases List.mem_map.1 hx with ⟨e, he, rfl⟩
    have := hnames e he
    have := hoid e he
    simp only [maxRefNameBytes] at *
    omega
  have hpacks : bracketed (m.packs.map fun s => byteLen s + 2) ≤ maxManifestPacks * 73 + 2 := by
    refine bracketed_le (by simpa using h.packCount) ?_
    intro x hx
    rcases List.mem_map.1 hx with ⟨key, hkey, rfl⟩
    rcases eq_append_of_isPackKey (h.packs key hkey) with ⟨digest, rfl, hdigest⟩
    simp only [isManifestDigest, Bool.and_eq_true, decide_eq_true_eq] at hdigest
    rw [byteLen_append, hdigest.1]
    decide
  have hparent : (match m.parent with
      | some p => byteLen p + 2
      | none => 4) ≤ 66 := by
    cases hp : m.parent with
    | none => decide
    | some p =>
        have hdigest := h.parent p hp
        simp only [isManifestDigest, Bool.and_eq_true, decide_eq_true_eq] at hdigest
        dsimp only
        omega
  unfold encodedSize
  simp only [maxManifestRefs, maxManifestPacks, maxRefNameBytes, maxManifestBytes] at *
  omega

/-- A manifest that `cas_publish` has installed decodes to itself and is valid.  `load_pointer`
accepts it if and only if its JSON fits, and it fits with all names that the pre-receive policy
admits. -/
theorem published_manifest_loads (backend : Backend P E) (store after : RepoStore P E)
    (limits : PublishLimits) (parent : ParentState E) (answers : Answers P) (m : Manifest)
    (h : casPublish backend store limits parent answers = .ok (m, after))
    (hsha : ∀ bytes, store.manifests.lookup (backend.manifestDigest m) = some bytes →
      bytes = m.canonicalBytes) :
    Manifest.fromBytes m.canonicalBytes = .ok m ∧ m.validate = .ok () ∧
      (loadPointer backend after =
          .ok (some (backend.etag store.writes (backend.manifestDigest m),
            backend.manifestDigest m, m)) ↔ encodedSize m ≤ maxManifestBytes) ∧
      (byteLen m.head ≤ maxRefNameBytes →
        (∀ e ∈ m.refs.entries, byteLen e.1 ≤ maxRefNameBytes) →
          loadPointer backend after =
            .ok (some (backend.etag store.writes (backend.manifestDigest m),
              backend.manifestDigest m, m))) := by
  rcases casPublish_ok h with ⟨hcanonical, hvalid, hmanifests, hpointer⟩
  have hstored : after.manifests.lookup (backend.manifestDigest m) = some m.canonicalBytes := by
    rw [hmanifests, lookup_putImmutable]
    cases hold : store.manifests.lookup (backend.manifestDigest m) with
    | none => simp
    | some bytes => simp [hsha bytes hold]
  have hload := loadPointer_stored hcanonical hvalid hpointer hstored
  have hiff : loadPointer backend after =
      .ok (some (backend.etag store.writes (backend.manifestDigest m),
        backend.manifestDigest m, m)) ↔ encodedSize m ≤ maxManifestBytes := by
    rw [hload]
    split_ifs with hlarge
    · exact iff_of_false (by simp) (not_le.2 hlarge)
    · exact iff_of_true rfl (not_lt.1 hlarge)
  refine ⟨Manifest.fromBytes_canonicalBytes hcanonical, hvalid, hiff, fun hhead hnames => ?_⟩
  exact hiff.2 (encodedSize_le (Manifest.validate_ok_iff.1 hvalid) hhead hnames)

end Publish

namespace Sample

def emptyStore : RepoStore Nat Text := ⟨∅, ∅, none, 0⟩

/-- The manifest of a first push of one branch. -/
def firstManifest : Manifest :=
  composeAfter (ParentState.fresh Text).parent none "refs/heads/main".toList
    (SortedMap.empty.insert "refs/heads/main".toList (hexDigits 40 7))
    (some (packKey lengthBackend.info 7))

end Sample

open Sample in
/-- A first push of one branch is read back. -/
theorem first_manifest_loads : ∃ after,
    casPublish lengthBackend emptyStore limits (ParentState.fresh Text)
        (answers "refs/heads/main" 7) = .ok (firstManifest, after) ∧
      loadPointer lengthBackend after =
        .ok (some (lengthBackend.manifestDigest firstManifest,
          lengthBackend.manifestDigest firstManifest, firstManifest)) := by
  have hprepare : prepareManifest lengthBackend.info limits packCompactionThreshold
      (ParentState.fresh Text) (answers "refs/heads/main" 7) = .ok (firstManifest, [7]) := by
    decide
  have hpublish : ∃ after, casPublish lengthBackend emptyStore limits (ParentState.fresh Text)
      (answers "refs/heads/main" 7) = .ok (firstManifest, after) := by
    rw [casPublish, hprepare]
    exact ⟨_, rfl⟩
  rcases hpublish with ⟨after, hafter⟩
  refine ⟨after, hafter, ?_⟩
  exact (published_manifest_loads lengthBackend emptyStore after limits (ParentState.fresh Text)
    (answers "refs/heads/main" 7) firstManifest hafter (fun _ h => by cases h)).2.2.2
      (by decide) (by decide)

end Git
end Relay
end Maju
