import Maju.Lib.Utf8
import Maju.Relay.Git.Manifest

/-!
# Codec — canonical bytes and the states they stand for

A manifest is stored under the digest of its canonical bytes, so these have to be read back and have
to be the same for every writer of one state.  The writer keeps the packs in any order and may name
one twice; all else is in the value itself.

* `Manifest.SameState` — the same fields, with the packs as a set;
* `Manifest.sameState_iff_sorted` — that is equality once the packs are sorted;
* `Manifest.canonical_codec` — the round trip, and equal bytes exactly for the same state.
-/

namespace Maju
namespace Relay
namespace Git

open Lib

namespace Manifest

/-- The manifest with its packs in order and named once each. -/
def sorted (m : Manifest) : Manifest := { m with packs := sortDedup m.packs }

/-- Two manifests describe the same state of a repository. -/
structure SameState (m n : Manifest) : Prop where
  version : m.version = n.version
  head : m.head = n.head
  refs : m.refs = n.refs
  parent : m.parent = n.parent
  packs : ∀ pack, pack ∈ m.packs ↔ pack ∈ n.packs

theorem canonicalBytes_eq_sorted (m : Manifest) : m.canonicalBytes = m.sorted.toJson.print := rfl

theorem sameState_iff_sorted {m n : Manifest} : m.SameState n ↔ m.sorted = n.sorted := by
  constructor
  · intro h
    have hpacks := sortDedup_eq_iff.2 h.packs
    simp only [sorted, h.version, h.head, h.refs, h.parent, hpacks]
  · intro h
    obtain ⟨hversion, hhead, hrefs, hpacks, hparent⟩ := Manifest.mk.inj h
    exact ⟨hversion, hhead, hrefs, hparent, sortDedup_eq_iff.1 hpacks⟩

theorem sorted_sorted (m : Manifest) : m.sorted.sorted = m.sorted :=
  sameState_iff_sorted.1 ⟨rfl, rfl, rfl, rfl, fun _ => mem_sortDedup⟩

/-! ## Fields and their JSON -/

theorem json_str_injective : Function.Injective Json.str := fun _ _ => Json.str.inj

theorem refsJson_injective {m n : Refs}
    (h : m.entries.map (fun e => (e.1, Json.str e.2)) =
      n.entries.map (fun e => (e.1, Json.str e.2))) : m = n := by
  have hmember : Function.Injective fun e : Text × Text => (e.1, Json.str e.2) := by
    rintro ⟨k, v⟩ ⟨l, w⟩ heq
    obtain ⟨hk, hv⟩ := Prod.mk.inj heq
    exact congrArg₂ Prod.mk hk (json_str_injective hv)
  exact SortedMap.ext (List.map_injective_iff.2 hmember h)

theorem parentJson_injective : Function.Injective parentJson := by
  intro p q h
  have hread := congrArg readOptional h
  rw [readOptional_parentJson, readOptional_parentJson] at hread
  exact Option.some.inj hread

theorem toJson_injective : Function.Injective toJson := by
  intro m n h
  rw [toJson_eq, toJson_eq] at h
  simp only [jsonMembers, Json.obj.injEq, List.cons.injEq, Prod.mk.injEq, true_and, Json.num.injEq,
    Json.str.injEq, Json.arr.injEq, and_true] at h
  obtain ⟨hversion, hhead, hrefs, hpacks, hparent⟩ := h
  cases m
  cases n
  simp only [Manifest.mk.injEq]
  exact ⟨decimal_injective hversion, hhead, refsJson_injective hrefs,
    List.map_injective_iff.2 json_str_injective hpacks, parentJson_injective hparent⟩

theorem canonicalBytes_eq_iff {m n : Manifest} :
    encode m.canonicalBytes = encode n.canonicalBytes ↔ m.SameState n := by
  rw [sameState_iff_sorted]
  constructor
  · intro h
    have hprint := encode_injective h
    rw [canonicalBytes_eq_sorted, canonicalBytes_eq_sorted] at hprint
    exact toJson_injective (Json.print_injOn (valid_toJson _) (valid_toJson _) hprint)
  · intro h
    rw [canonicalBytes_eq_sorted, canonicalBytes_eq_sorted, h]

/-! ## The codec -/

/-- A manifest of the supported version is read back with its packs in order and named once each,
and two manifests of any version have equal bytes exactly when they describe the same state. -/
theorem canonical_codec (m n : Manifest) :
    (m.version = manifestVersion → fromBytes m.canonicalBytes = .ok m.sorted) ∧
      m.sorted.packs.Pairwise (· < ·) ∧ (∀ pack, pack ∈ m.sorted.packs ↔ pack ∈ m.packs) ∧
      (encode m.canonicalBytes = encode n.canonicalBytes ↔ m.SameState n) := by
  have hpairwise : m.sorted.packs.Pairwise (· < ·) := pairwise_sortDedup m.packs
  refine ⟨fun hversion => ?_, hpairwise, fun pack => mem_sortDedup, canonicalBytes_eq_iff⟩
  have hread := fromBytes_canonicalBytes (m := m.sorted) ⟨hversion, hpairwise⟩
  rwa [canonicalBytes_eq_sorted, sorted_sorted] at hread

/-- A manifest with two packs, as one writer lists them. -/
def twoPacks (packs : List Text) : Manifest where
  version := manifestVersion
  head := "refs/heads/main".toList
  refs := SortedMap.empty.insert "refs/heads/main".toList "1f".toList
  packs := packs
  parent := none

/-- Two writers that list the packs in another order, one of them with a repetition, write the same
bytes, and the manifest that is read has the packs in order. -/
theorem canonical_codec_two_packs :
    fromBytes (twoPacks [['d'], ['c'], ['d']]).canonicalBytes = .ok (twoPacks [['c'], ['d']]) ∧
      encode (twoPacks [['d'], ['c'], ['d']]).canonicalBytes =
        encode (twoPacks [['c'], ['d']]).canonicalBytes := by
  have hcodec := canonical_codec (twoPacks [['d'], ['c'], ['d']]) (twoPacks [['c'], ['d']])
  refine ⟨?_, hcodec.2.2.2.2 ⟨rfl, rfl, rfl, rfl, ?_⟩⟩
  · exact hcodec.1 rfl
  · intro pack
    have hlist : pack ∈ [['d'], ['c'], ['d']] ↔ pack ∈ [['c'], ['d']] := by
      simp only [List.mem_cons, List.not_mem_nil, or_false]
      tauto
    exact hlist

end Manifest

end Git
end Relay
end Maju
