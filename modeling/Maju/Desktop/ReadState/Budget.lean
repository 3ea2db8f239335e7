import Maju.Desktop.ReadState.Format
import Maju.Lib.Counting
import Maju.Lib.Slice
import Mathlib.Algebra.Order.BigOperators.Group.List
import Mathlib.Algebra.Order.Group.Nat

/-!
# Budget — how the markers of a client are made to fit

The trimmer subtracts an estimate in UTF-16 units from a size in UTF-8 bytes, and the splitter
checks the sizes of its slots before it adds the message and thread markers to the first:

* `blobBytes_add` — the size of a blob as a sum over its entries;
* `estimate_le` — no entry is estimated above what it takes, so eviction stops late enough;
* `Trims`, `Splits` — what the two functions promise;
* `read_state_budget` — when they keep it.
-/

namespace Maju
namespace Desktop
namespace ReadState

open Lib

/-! ## The size of a blob -/

/-- What an entry takes in the blob, with the comma that separates it from another. -/
def entryBytes (key : Text) (ts : Nat) : Nat :=
  byteLen (Json.quote key) + byteLen (decimal ts) + 2

/-- What the trimmer subtracts for an entry. -/
def estimate (key : Text) (ts : Nat) : Nat := utf16Length key + 3 + (decimal ts).length + 1

theorem byteLen_printMembers (ms : List (Text × Nat)) :
    byteLen (Json.printMembers (ms.map fun e => (e.1, .num (decimal e.2)))) =
      (ms.map fun e => entryBytes e.1 e.2).sum + 1 := by
  have hcolon : Char.utf8Size ':' = 1 := rfl
  have hcomma : Char.utf8Size ',' = 1 := rfl
  induction ms with
  | nil => rfl
  | cons e ms ih =>
      simp only [List.map_cons, List.sum_cons, Json.printMembers, Json.print, byteLen_cons,
        byteLen_append, ih, entryBytes, hcolon, hcomma]
      omega

theorem byteLen_print_contexts (ms : List (Text × Nat)) :
    byteLen (Json.print (.obj (ms.map fun e => (e.1, .num (decimal e.2))))) +
        (if ms = [] then 0 else 1) =
      (ms.map fun e => entryBytes e.1 e.2).sum + 2 := by
  have hbrace : Char.utf8Size '\x7b' = 1 := rfl
  have hcolon : Char.utf8Size ':' = 1 := rfl
  cases ms with
  | nil => rfl
  | cons e ms =>
      have hrest := byteLen_printMembers ms
      simp only [List.map_cons, List.sum_cons, Json.print, byteLen_cons, byteLen_append, hrest,
        entryBytes, hbrace, hcolon, reduceCtorEq, if_false]
      omega

/-- The text of a blob before its contexts. -/
def blobHead (clientId : Text) : Text :=
  '\x7b' :: (Json.quote "v".toList ++ ':' :: '1' :: ',' ::
    (Json.quote "client_id".toList ++ ':' :: (Json.quote clientId ++ ',' ::
      (Json.quote "contexts".toList ++ [':']))))

theorem blobFor_eq (clientId : Text) (contexts : Record) :
    blobFor clientId contexts = blobHead clientId ++
      (Json.print (.obj (contexts.pairs.map fun e => (e.1, .num (decimal e.2)))) ++ ['\x7d']) := by
  simp [blobFor, blobHead, Json.print, Json.printMembers]

/-- The size of a blob is that of an empty one and of its entries. -/
theorem blobBytes_add (clientId : Text) (contexts : Record) :
    blobBytes clientId contexts + (if contexts.pairs = [] then 0 else 1) =
      blobBytes clientId ∅ + (contexts.pairs.map fun e => entryBytes e.1 e.2).sum := by
  have hempty := byteLen_print_contexts (HashMap.pairs (∅ : Record))
  have hall := byteLen_print_contexts contexts.pairs
  have hnone : HashMap.pairs (∅ : Record) = [] := rfl
  simp only [blobBytes, blobFor_eq, byteLen_append]
  simp only [hnone, if_true, List.map_nil, List.sum_nil] at hempty ⊢
  omega

/-! ## The estimate -/

theorem units_le_escapeChar (c : Char) :
    (if c.toNat < 0x10000 then 1 else 2) ≤ byteLen (Json.escapeChar c) := by
  have hlength := (Json.length_escapeChar_pos c).trans (length_le_byteLen _)
  split
  next => exact hlength
  next hastral =>
    -- Such a character is not escaped, and it is not ASCII.
    have hsize : 2 ≤ c.utf8Size := by
      have hpos := c.utf8Size_pos
      have hne : c.utf8Size ≠ 1 := by
        rw [ne_eq, Char.utf8Size_eq_one_iff]
        intro hle
        have hnat : c.toNat ≤ 127 := hle
        omega
      omega
    unfold Json.escapeChar
    split_ifs
    all_goals first
      | decide
      | (simp only [byteLen_cons, byteLen_nil]; omega)

theorem utf16Length_le_quote (key : Text) : utf16Length key + 2 ≤ byteLen (Json.quote key) := by
  have hquote : Char.utf8Size '"' = 1 := rfl
  have htail : utf16Length key + 1 ≤ byteLen (Json.quoteTail key) := by
    induction key with
    | nil => decide
    | cons c key ih =>
        have hc := units_le_escapeChar c
        simp only [Json.quoteTail, byteLen_append, utf16Length, List.map_cons,
          List.sum_cons] at ih ⊢
        omega
  simp only [Json.quote, byteLen_cons, hquote]
  omega

/-- No entry is estimated above what it takes. -/
theorem estimate_le (key : Text) (ts : Nat) : estimate key ts ≤ entryBytes key ts := by
  have hkey := utf16Length_le_quote key
  have hts := length_le_byteLen (decimal ts)
  unfold estimate entryBytes
  omega

/-! ## Eviction -/

/-- The first of two entries is evicted before the second: messages before threads, and the oldest
first. -/
def Earlier (a b : Text × Nat) : Prop :=
  (msgPrefix.isPrefixOf a.1 = true ∧ msgPrefix.isPrefixOf b.1 = false) ∨
    (msgPrefix.isPrefixOf a.1 = msgPrefix.isPrefixOf b.1 ∧ a.2 ≤ b.2)

/-- The entries of messages and threads in the order in which the trimmer visits them. -/
def evictionOrder (contexts : Record) : List (Text × Nat) :=
  oldestFirst (contexts.pairs.filter fun e => msgPrefix.isPrefixOf e.1) ++
    oldestFirst (contexts.pairs.filter fun e =>
      !msgPrefix.isPrefixOf e.1 && threadPrefix.isPrefixOf e.1)

/-- The part of a record that is never evicted. -/
def channelPart (contexts : Record) : Record :=
  contexts.retain fun key _ => !isPrunableContextKey key

section Eviction

variable {contexts : Record} {clientId : Text} {maxBytes : Nat}

theorem evictionOrder_perm (contexts : Record) :
    (evictionOrder contexts).Perm (contexts.pairs.filter fun e => isPrunableContextKey e.1) := by
  have hsplit := List.filter_append_perm (fun e : Text × Nat => msgPrefix.isPrefixOf e.1)
    (contexts.pairs.filter fun e => isPrunableContextKey e.1)
  rw [List.filter_filter, List.filter_filter] at hsplit
  refine List.Perm.trans ?_ hsplit
  refine ((List.mergeSort_perm _ _).trans ?_).append ((List.mergeSort_perm _ _).trans ?_)
  · refine List.Perm.of_eq (List.filter_congr fun e _ => ?_)
    cases hmsg : msgPrefix.isPrefixOf e.1 <;> simp [isPrunableContextKey, hmsg]
  · refine List.Perm.of_eq (List.filter_congr fun e _ => ?_)
    cases hmsg : msgPrefix.isPrefixOf e.1 <;> simp [isPrunableContextKey, hmsg]

theorem oldestFirst_pairwise (entries : List (Text × Nat)) :
    (oldestFirst entries).Pairwise fun a b => a.2 ≤ b.2 := by
  have hsorted : (oldestFirst entries).Pairwise fun a b => decide (a.2 ≤ b.2) = true :=
    List.pairwise_mergeSort (fun a b c => by simpa using fun h h' => Nat.le_trans h h')
      (fun a b => by simpa using Nat.le_total a.2 b.2) entries
  exact hsorted.imp fun h => by simpa using h

theorem evictionOrder_pairwise (contexts : Record) :
    (evictionOrder contexts).Pairwise Earlier := by
  have hmsg : ∀ e ∈ oldestFirst (contexts.pairs.filter fun e => msgPrefix.isPrefixOf e.1),
      msgPrefix.isPrefixOf e.1 = true := by
    intro e he
    exact (List.mem_filter.1 ((List.mergeSort_perm _ _).mem_iff.1 he)).2
  have hthread : ∀ e ∈ oldestFirst (contexts.pairs.filter fun e =>
      !msgPrefix.isPrefixOf e.1 && threadPrefix.isPrefixOf e.1),
      msgPrefix.isPrefixOf e.1 = false := by
    intro e he
    have hkind := (List.mem_filter.1 ((List.mergeSort_perm _ _).mem_iff.1 he)).2
    simp only [Bool.and_eq_true, Bool.not_eq_true'] at hkind
    exact hkind.1
  refine List.pairwise_append.2 ⟨?_, ?_, fun a ha b hb => Or.inl ⟨hmsg a ha, hthread b hb⟩⟩
  · refine (oldestFirst_pairwise _).imp_of_mem fun ha hb hle => Or.inr ⟨?_, hle⟩
    rw [hmsg _ ha, hmsg _ hb]
  · refine (oldestFirst_pairwise _).imp_of_mem fun ha hb hle => Or.inr ⟨?_, hle⟩
    rw [hthread _ ha, hthread _ hb]

theorem exists_toEvict (maxBytes : Nat) (currentBytes : Int) (entries : List (Text × Nat)) :
    ∃ evicted rest, entries = evicted ++ rest ∧
      toEvict maxBytes currentBytes entries = evicted.map Prod.fst ∧
      (rest = [] ∨ currentBytes ≤
        maxBytes + ((evicted.map fun e => estimate e.1 e.2).sum : Nat)) := by
  induction entries generalizing currentBytes with
  | nil => exact ⟨[], [], rfl, rfl, Or.inl rfl⟩
  | cons e entries ih =>
      rcases e with ⟨key, ts⟩
      by_cases hfits : currentBytes ≤ maxBytes
      · refine ⟨[], (key, ts) :: entries, rfl, ?_, Or.inr (by simpa using hfits)⟩
        rw [toEvict, if_pos hfits]
        rfl
      · obtain ⟨evicted, rest, hsplit, hevict, hstop⟩ :=
          ih (currentBytes - (utf16Length key + 3 + (decimal ts).length + 1 : Nat))
        refine ⟨(key, ts) :: evicted, rest, by rw [hsplit]; rfl, ?_, hstop.imp_right fun hle => ?_⟩
        · rw [toEvict, if_neg hfits, hevict]
          rfl
        · simp only [List.map_cons, List.sum_cons, estimate] at hle ⊢
          omega

theorem evicted_part {evicted rest : List (Text × Nat)}
    (h : evictionOrder contexts = evicted ++ rest) :
    (evicted ++ rest).Nodup ∧ ∀ e ∈ evicted ++ rest,
      e ∈ contexts.pairs ∧ isPrunableContextKey e.1 = true := by
  have hperm := evictionOrder_perm contexts
  rw [h] at hperm
  have hnodup : contexts.pairs.Nodup := List.Nodup.of_map _ (HashMap.nodup_pairs contexts)
  refine ⟨hperm.nodup_iff.2 (hnodup.filter _), fun e he => ?_⟩
  exact List.mem_filter.1 (hperm.mem_iff.1 he)

theorem sum_entryBytes {evicted rest : List (Text × Nat)}
    (h : evictionOrder contexts = evicted ++ rest) :
    (contexts.pairs.map fun e => entryBytes e.1 e.2).sum =
      ((contexts.pairs.filter fun e => e ∉ evicted).map fun e => entryBytes e.1 e.2).sum +
        (evicted.map fun e => entryBytes e.1 e.2).sum := by
  obtain ⟨hnodup, hmem⟩ := evicted_part h
  have hpairs : contexts.pairs.Nodup := List.Nodup.of_map _ (HashMap.nodup_pairs contexts)
  have hevicted : (contexts.pairs.filter fun e => e ∈ evicted).Perm evicted := by
    refine (List.perm_ext_iff_of_nodup (hpairs.filter _) (List.nodup_append.1 hnodup).1).2 ?_
    intro e
    rw [List.mem_filter, decide_eq_true_eq]
    exact and_iff_right_of_imp fun he => (hmem e (List.mem_append_left _ he)).1
  have hsplit := List.filter_append_perm (fun e => decide (e ∈ evicted)) contexts.pairs
  calc
    (contexts.pairs.map fun e => entryBytes e.1 e.2).sum
        = (((contexts.pairs.filter fun e => e ∈ evicted) ++
            contexts.pairs.filter fun e => !decide (e ∈ evicted)).map
              fun e => entryBytes e.1 e.2).sum := ((hsplit.map _).sum_eq).symm
    _ = ((contexts.pairs.filter fun e => e ∉ evicted).map fun e => entryBytes e.1 e.2).sum +
          (evicted.map fun e => entryBytes e.1 e.2).sum := by
          rw [List.map_append, List.sum_append, (hevicted.map _).sum_eq, Nat.add_comm]
          simp only [decide_not]

theorem blobBytes_le_of_stop {evicted rest : List (Text × Nat)} {kept : Record}
    (h : evictionOrder contexts = evicted ++ rest) (hrest : rest ≠ [])
    (hkept : kept.pairs = contexts.pairs.filter fun e => e ∉ evicted)
    (hstop : blobBytes clientId contexts ≤
      maxBytes + (evicted.map fun e => estimate e.1 e.2).sum) :
    blobBytes clientId kept ≤ maxBytes := by
  obtain ⟨e, rest', rfl⟩ := List.exists_cons_of_ne_nil hrest
  obtain ⟨hnodup, hmem⟩ := evicted_part h
  have he := (hmem e (by simp)).1
  have hkeptmem : e ∈ kept.pairs := by
    rw [hkept, List.mem_filter, decide_eq_true_eq]
    refine ⟨he, fun hevicted => ?_⟩
    exact (List.nodup_append.1 hnodup).2.2 e hevicted e List.mem_cons_self rfl
  -- With an entry kept, every evicted entry took its comma along.
  have hall := blobBytes_add clientId contexts
  have hpart := blobBytes_add clientId kept
  rw [if_neg (List.ne_nil_of_mem he)] at hall
  rw [if_neg (List.ne_nil_of_mem hkeptmem), hkept] at hpart
  have hsum := sum_entryBytes h
  have hestimate : (evicted.map fun e => estimate e.1 e.2).sum ≤
      (evicted.map fun e => entryBytes e.1 e.2).sum :=
    List.sum_le_sum fun e _ => estimate_le e.1 e.2
  omega

theorem trim_of_exceeds {evict : List Text} (hexceeds : ¬ blobBytes clientId contexts ≤ maxBytes)
    (hevict : toEvict maxBytes (blobBytes clientId contexts) (evictionOrder contexts) = evict) :
    trimContextsToBudget contexts clientId maxBytes =
      ⟨contexts.retain fun key _ => key ∉ evict, evict.length,
        blobBytes clientId (contexts.retain fun key _ => key ∉ evict) ≤ maxBytes⟩ := by
  subst hevict
  exact if_neg hexceeds

theorem trim_spec (contexts : Record) (clientId : Text) (maxBytes : Nat) :
    ∃ evicted rest, evictionOrder contexts = evicted ++ rest ∧
      (trimContextsToBudget contexts clientId maxBytes).contexts.pairs =
        contexts.pairs.filter (fun e => e ∉ evicted) ∧
      (trimContextsToBudget contexts clientId maxBytes).evicted = evicted.length ∧
      (rest = [] ∨ blobBytes clientId
        (trimContextsToBudget contexts clientId maxBytes).contexts ≤ maxBytes) := by
  by_cases hfits : blobBytes clientId contexts ≤ maxBytes
  · have hsame : trimContextsToBudget contexts clientId maxBytes = ⟨contexts, 0, true⟩ :=
      if_pos hfits
    rw [hsame]
    exact ⟨[], evictionOrder contexts, rfl, by simp, rfl, Or.inr hfits⟩
  · obtain ⟨evicted, rest, hsplit, hevict, hstop⟩ :=
      exists_toEvict maxBytes (blobBytes clientId contexts) (evictionOrder contexts)
    have hkept : (contexts.retain fun key _ => key ∉ evicted.map Prod.fst).pairs =
        contexts.pairs.filter fun e => e ∉ evicted := by
      rw [HashMap.pairs_retain]
      refine List.filter_congr fun e he => decide_eq_decide.2 (not_congr ?_)
      refine ⟨fun hkey => ?_, List.mem_map_of_mem⟩
      obtain ⟨e', he', heq⟩ := List.mem_map.1 hkey
      have hmem := ((evicted_part hsplit).2 e' (List.mem_append_left _ he')).1
      have hsame : e'.2 = e.2 := by
        have hlookup : contexts.lookup e'.1 = some e'.2 := HashMap.mem_pairs_iff.1 hmem
        rw [heq] at hlookup
        exact Option.some.inj (hlookup.symm.trans (HashMap.mem_pairs_iff.1 he))
      rwa [← Prod.ext heq hsame]
    rw [trim_of_exceeds hfits hevict]
    refine ⟨evicted, rest, hsplit, hkept, List.length_map _, ?_⟩
    by_cases hrest : rest = []
    · exact Or.inl hrest
    · exact Or.inr (blobBytes_le_of_stop hsplit hrest hkept
        (by exact_mod_cast hstop.resolve_left hrest))

theorem fitsAfterTrim_iff (contexts : Record) (clientId : Text) (maxBytes : Nat) :
    (trimContextsToBudget contexts clientId maxBytes).fitsAfterTrim = true ↔
      blobBytes clientId (trimContextsToBudget contexts clientId maxBytes).contexts ≤ maxBytes := by
  by_cases hfits : blobBytes clientId contexts ≤ maxBytes
  · have hsame : trimContextsToBudget contexts clientId maxBytes = ⟨contexts, 0, true⟩ :=
      if_pos hfits
    rw [hsame]
    exact iff_of_true rfl hfits
  · obtain ⟨evict, hevict⟩ : ∃ evict,
        toEvict maxBytes (blobBytes clientId contexts) (evictionOrder contexts) = evict := ⟨_, rfl⟩
    rw [trim_of_exceeds hfits hevict]
    simp only [decide_eq_true_eq]

theorem trim_fits (hchannel : blobBytes clientId (channelPart contexts) ≤ maxBytes) :
    blobBytes clientId (trimContextsToBudget contexts clientId maxBytes).contexts ≤ maxBytes := by
  obtain ⟨evicted, rest, hsplit, hkept, -, hstop⟩ := trim_spec contexts clientId maxBytes
  rcases hstop with hrest | hfits
  · have hleft : (trimContextsToBudget contexts clientId maxBytes).contexts =
        channelPart contexts := by
      apply HashMap.pairs_injective
      rw [hkept, channelPart, HashMap.pairs_retain]
      refine List.filter_congr fun e he => ?_
      rw [hrest, List.append_nil] at hsplit
      have hperm := evictionOrder_perm contexts
      rw [hsplit] at hperm
      simp [hperm.mem_iff, he]
    rw [hleft]
    exact hchannel
  · exact hfits

theorem channel_trim (contexts : Record) (clientId : Text) (maxBytes : Nat) :
    ((trimContextsToBudget contexts clientId maxBytes).contexts.pairs.filter
        fun e => !isPrunableContextKey e.1) =
      contexts.pairs.filter fun e => !isPrunableContextKey e.1 := by
  obtain ⟨evicted, rest, hsplit, hkept, -, -⟩ := trim_spec contexts clientId maxBytes
  rw [hkept, List.filter_filter]
  refine List.filter_congr fun e _ => ?_
  by_cases he : e ∈ evicted
  · have hprunable := ((evicted_part hsplit).2 e (List.mem_append_left _ he)).2
    simp [hprunable]
  · simp [he]

end Eviction

/-! ## Slots -/

/-- The result of the splitter. -/
structure SlotSplitResult where
  slots : List Record
  extraSlotIds : List Text

/-- The loop of the splitter with the ids of the new slots; `slotIdGenerator n` is the answer of the
generator to its `n`-th call. -/
def growSlotIds (clientId : Text) (maxBytes : Nat) (channelEntries : List (Text × Nat))
    (slotIdGenerator : Nat → Text) : Nat → Nat → List Text → Nat × List Text
  | 0, count, ids => (count, ids)
  | room + 1, count, ids =>
      if exceeds clientId maxBytes (distribute channelEntries count) then
        growSlotIds clientId maxBytes channelEntries slotIdGenerator room (count + 1)
          (ids ++ [slotIdGenerator ids.length])
      else (count, ids)

/-- `splitContextsIntoBudgetedSlots` with the ids it returns. -/
def splitWithSlotIds (channelEntries threadMsgEntries : List (Text × Nat)) (clientId : Text)
    (initialSlotCount maxSlots maxBytes : Nat) (slotIdGenerator : Nat → Text) :
    Option SlotSplitResult :=
  let (count, extraSlotIds) := growSlotIds clientId maxBytes channelEntries slotIdGenerator
    (maxSlots - initialSlotCount) initialSlotCount []
  let slots := distribute channelEntries count
  if exceeds clientId maxBytes slots then none
  else some ⟨fillPrimary clientId maxBytes threadMsgEntries slots, extraSlotIds⟩

/-- The entries of the channels and those of messages and threads. -/
def channelEntries (contexts : Record) : List (Text × Nat) :=
  contexts.pairs.filter fun e => !isPrunableContextKey e.1

def threadMsgEntries (contexts : Record) : List (Text × Nat) :=
  contexts.pairs.filter fun e => isPrunableContextKey e.1

section Slots

variable (clientId : Text) (maxBytes : Nat) (entries : List (Text × Nat))

theorem growSlotIds_spec (slotIdGenerator : Nat → Text) (room count : Nat) (ids : List Text) :
    (growSlotIds clientId maxBytes entries slotIdGenerator room count ids).1 =
        growSlots clientId maxBytes entries room count ∧
      (growSlotIds clientId maxBytes entries slotIdGenerator room count ids).2.length + count =
        ids.length + growSlots clientId maxBytes entries room count := by
  induction room generalizing count ids with
  | zero => exact ⟨rfl, rfl⟩
  | succ room ih =>
      unfold growSlotIds growSlots
      split
      next =>
        obtain ⟨hcount, hids⟩ := ih (count + 1) (ids ++ [slotIdGenerator ids.length])
        refine ⟨hcount, ?_⟩
        rw [List.length_append, List.length_singleton] at hids
        omega
      next => exact ⟨rfl, rfl⟩

theorem growSlots_spec (room count : Nat) :
    count ≤ growSlots clientId maxBytes entries room count ∧
      growSlots clientId maxBytes entries room count ≤ count + room ∧
      (exceeds clientId maxBytes
          (distribute entries (growSlots clientId maxBytes entries room count)) = true →
        growSlots clientId maxBytes entries room count = count + room ∧
          ∀ k, count ≤ k → k ≤ count + room →
            exceeds clientId maxBytes (distribute entries k) = true) := by
  induction room generalizing count with
  | zero =>
      refine ⟨Nat.le_refl _, Nat.le_refl _, fun h => ⟨rfl, fun k hlow hhigh => ?_⟩⟩
      obtain rfl : k = count := by omega
      exact h
  | succ room ih =>
      unfold growSlots
      split
      next hexceeds =>
        obtain ⟨hlow, hhigh, hlast⟩ := ih (count + 1)
        refine ⟨by omega, by omega, fun h => ?_⟩
        obtain ⟨hcount, hall⟩ := hlast h
        refine ⟨by omega, fun k hk hk' => ?_⟩
        rcases Nat.eq_or_lt_of_le hk with rfl | hlt
        · exact hexceeds
        · exact hall k hlt (by omega)
      next hfits => exact ⟨Nat.le_refl _, by omega, fun h => absurd h hfits⟩

end Slots

/-! ## The distribution -/

section Distribution

variable {clientId : Text} {maxBytes : Nat} {entries : List (Text × Nat)}

theorem pairs_assignAll {record : Record} (hkeys : ((record.pairs ++ entries).map Prod.fst).Nodup) :
    (assignAll record entries).pairs = record.pairs ++ entries.filter fun e => e.1 ≠ protoKey := by
  refine HashMap.pairs_setAll_of_new (hkeys.sublist ?_)
  exact (List.filter_sublist.append_left record.pairs).map Prod.fst

/-- The entries that the round robin gives to a slot. -/
def share (entries : List (Text × Nat)) (count slot : Nat) : List (Text × Nat) :=
  (entries.zipIdx.filter fun e => e.2 % count = slot).map Prod.fst

theorem pairs_slot (hkeys : (entries.map Prod.fst).Nodup) (count slot : Nat) :
    (assignAll ∅ (share entries count slot)).pairs =
      (share entries count slot).filter fun e => e.1 ≠ protoKey := by
  have hsublist : (share entries count slot).Sublist entries := by
    have hfilter := (List.filter_sublist (p := fun e : (Text × Nat) × Nat => e.2 % count = slot)
      (l := entries.zipIdx)).map Prod.fst
    rwa [List.zipIdx_map_fst] at hfilter
  exact pairs_assignAll (hkeys.sublist (hsublist.map Prod.fst))

theorem distribute_perm (hkeys : (entries.map Prod.fst).Nodup) {count : Nat} (hcount : 0 < count) :
    ((distribute entries count).flatMap HashMap.pairs).Perm
      (entries.filter fun e => e.1 ≠ protoKey) := by
  have hslots : (distribute entries count).flatMap HashMap.pairs =
      ((List.range count).flatMap fun slot =>
        (entries.zipIdx.filter fun e => e.1.1 ≠ protoKey).filter
          fun e => e.2 % count = slot).map Prod.fst := by
    rw [distribute, List.flatMap_map, List.map_flatMap]
    refine List.flatMap_congr fun slot _ => ?_
    calc
      HashMap.pairs (assignAll ∅ (share entries count slot))
          = (share entries count slot).filter fun e => e.1 ≠ protoKey := pairs_slot hkeys count slot
      _ = _ := by
            rw [share, List.filter_map, List.filter_comm]
            rfl
  have hclasses := Counting.perm_flatMap_classes (fun e : (Text × Nat) × Nat => e.2 % count) count
    (l := entries.zipIdx.filter fun e => e.1.1 ≠ protoKey) fun e _ => Nat.mod_lt _ hcount
  rw [hslots]
  refine (hclasses.map Prod.fst).trans (List.Perm.of_eq ?_)
  have hmap := List.filter_map (f := Prod.fst) (p := fun e : Text × Nat => e.1 ≠ protoKey)
    (l := entries.zipIdx)
  rw [List.zipIdx_map_fst] at hmap
  exact hmap.symm

theorem channel_of_mem_distribute (hchannel : ∀ e ∈ entries, isPrunableContextKey e.1 = false)
    {count : Nat} {slot : Record} (hslot : slot ∈ distribute entries count) :
    ∀ e ∈ slot.pairs, e ∈ entries ∧ isPrunableContextKey e.1 = false := by
  intro e he
  have hmem : e ∈ entries := mem_of_lookup_distribute hslot (HashMap.mem_pairs_iff.1 he)
  exact ⟨hmem, hchannel e hmem⟩

theorem channelPart_assignAll {primary : Record} {threads : List (Text × Nat)}
    (hprimary : ∀ e ∈ primary.pairs, isPrunableContextKey e.1 = false)
    (hthreads : ∀ e ∈ threads, isPrunableContextKey e.1 = true)
    (hkeys : (threads.map Prod.fst).Nodup) :
    (assignAll primary threads).pairs.filter (fun e => !isPrunableContextKey e.1) =
      primary.pairs := by
  have hnodup : ((primary.pairs ++ threads).map Prod.fst).Nodup := by
    rw [List.map_append, List.nodup_append]
    refine ⟨HashMap.nodup_pairs primary, hkeys, fun a ha b hb heq => ?_⟩
    obtain ⟨e, he, rfl⟩ := List.mem_map.1 ha
    obtain ⟨e', he', rfl⟩ := List.mem_map.1 hb
    have hfalse := hprimary e he
    rw [heq, hthreads e' he'] at hfalse
    cases hfalse
  have hnone : (threads.filter fun e => e.1 ≠ protoKey).filter
      (fun e => !isPrunableContextKey e.1) = [] := by
    refine List.filter_eq_nil_iff.2 fun e he => ?_
    simp [hthreads e (List.mem_of_mem_filter he)]
  rw [pairs_assignAll hnodup, List.filter_append, hnone, List.append_nil]
  exact List.filter_eq_self.2 fun e he => by simp [hprimary e he]

variable {threads : List (Text × Nat)}

theorem fillPrimary_spec (hchannel : ∀ e ∈ entries, isPrunableContextKey e.1 = false)
    (hthreads : ∀ e ∈ threads, isPrunableContextKey e.1 = true)
    (hkeys : (threads.map Prod.fst).Nodup) {count : Nat}
    (hfits : ∀ slot ∈ distribute entries count, blobBytes clientId slot ≤ maxBytes) :
    (∀ slot ∈ fillPrimary clientId maxBytes threads (distribute entries count),
        blobBytes clientId slot ≤ maxBytes) ∧
      ((fillPrimary clientId maxBytes threads (distribute entries count)).flatMap fun slot =>
          slot.pairs.filter fun e => !isPrunableContextKey e.1) =
        (distribute entries count).flatMap HashMap.pairs := by
  have hslot : ∀ slot ∈ distribute entries count, ∀ e ∈ slot.pairs,
      isPrunableContextKey e.1 = false :=
    fun slot hslot e he => (channel_of_mem_distribute hchannel hslot e he).2
  revert hfits hslot
  cases distribute entries count with
  | nil => exact fun _ _ => ⟨fun slot h => absurd h List.not_mem_nil, rfl⟩
  | cons primary extra =>
      intro hfits hslot
      have hprimary := channelPart_assignAll (hslot primary List.mem_cons_self) hthreads hkeys
      have hpart : channelPart (assignAll primary threads) = primary := by
        apply HashMap.pairs_injective
        rw [channelPart, HashMap.pairs_retain]
        exact hprimary
      have htrimmed : blobBytes clientId
          (trimContextsToBudget (assignAll primary threads) clientId maxBytes).contexts ≤
            maxBytes := by
        apply trim_fits
        rw [hpart]
        exact hfits primary List.mem_cons_self
      have hleft := channel_trim (assignAll primary threads) clientId maxBytes
      rw [fillPrimary]
      generalize (trimContextsToBudget (assignAll primary threads) clientId maxBytes).contexts =
        filled at htrimmed hleft
      constructor
      · intro slot hmem
        rcases List.mem_cons.1 hmem with rfl | hextra
        · exact htrimmed
        · exact hfits slot (List.mem_cons_of_mem primary hextra)
      · rw [List.flatMap_cons, List.flatMap_cons, hleft, hprimary]
        congr 1
        refine List.flatMap_congr fun slot hextra => ?_
        refine List.filter_eq_self.2 fun e he => ?_
        simp [hslot slot (List.mem_cons_of_mem primary hextra) e he]

theorem length_fillPrimary (slots : List Record) :
    (fillPrimary clientId maxBytes threads slots).length = slots.length := by
  cases slots with
  | nil => rfl
  | cons primary extra => simp only [fillPrimary, List.length_cons]

end Distribution

/-! ## The result -/

/-- What the trimmer promises: a front of the order of eviction is removed, and nothing else. -/
structure Trims (contexts : Record) (clientId : Text) (maxBytes : Nat) (r : TrimResult) :
    Prop where
  evicts : ∃ order evicted,
    order.Perm (contexts.pairs.filter fun e => isPrunableContextKey e.1) ∧
      order.Pairwise Earlier ∧ evicted <+: order ∧
      r.contexts.pairs = contexts.pairs.filter (fun e => e ∉ evicted) ∧
      r.evicted = evicted.length
  fits_iff : r.fitsAfterTrim = true ↔ blobBytes clientId r.contexts ≤ maxBytes
  fits_of_channel : blobBytes clientId (channelPart contexts) ≤ maxBytes → r.fitsAfterTrim = true

/-- What the splitter promises; without a result one of the slots exceeds the limit at their last
count. -/
structure Splits (contexts : Record) (clientId : Text) (initialSlotCount maxSlots maxBytes : Nat)
    (r : Option SlotSplitResult) : Prop where
  null : r = none → exceeds clientId maxBytes
    (distribute (channelEntries contexts) (max initialSlotCount maxSlots)) = true
  fits : ∀ s ∈ r, ∀ slot ∈ s.slots, blobBytes clientId slot ≤ maxBytes
  channels : ∀ s ∈ r, (s.slots.flatMap fun slot =>
    slot.pairs.filter fun e => !isPrunableContextKey e.1).Perm (channelEntries contexts)
  ids : ∀ s ∈ r, initialSlotCount + s.extraSlotIds.length = s.slots.length

/-- The channel keys fit in no number of slots that may be tried. -/
def NoRoom (contexts : Record) (clientId : Text) (initialSlotCount maxSlots maxBytes : Nat) :
    Prop :=
  ∀ count, initialSlotCount ≤ count → count ≤ max initialSlotCount maxSlots →
    exceeds clientId maxBytes (distribute (channelEntries contexts) count) = true

theorem trims_trimContextsToBudget (contexts : Record) (clientId : Text) (maxBytes : Nat) :
    Trims contexts clientId maxBytes (trimContextsToBudget contexts clientId maxBytes) where
  evicts := by
    obtain ⟨evicted, rest, hsplit, hkept, hcount, -⟩ := trim_spec contexts clientId maxBytes
    exact ⟨evictionOrder contexts, evicted, evictionOrder_perm contexts,
      evictionOrder_pairwise contexts, ⟨rest, hsplit.symm⟩, hkept, hcount⟩
  fits_iff := fitsAfterTrim_iff contexts clientId maxBytes
  fits_of_channel h := (fitsAfterTrim_iff contexts clientId maxBytes).2 (trim_fits h)

theorem proto_channel : (!isPrunableContextKey protoKey) = true := by decide

section Result

variable (contexts : Record) (clientId : Text) {initialSlotCount : Nat} (maxSlots maxBytes : Nat)
  (slotIdGenerator : Nat → Text)

theorem keys_channelEntries : ((channelEntries contexts).map Prod.fst).Nodup :=
  (HashMap.nodup_pairs contexts).sublist (List.filter_sublist.map Prod.fst)

theorem keys_threadMsgEntries : ((threadMsgEntries contexts).map Prod.fst).Nodup :=
  (HashMap.nodup_pairs contexts).sublist (List.filter_sublist.map Prod.fst)

/-- What the splitter does: it fails if there is no room, and otherwise its slots hold the channel
entries that an object takes. -/
theorem split_spec (hinitial : 1 ≤ initialSlotCount) :
    (splitWithSlotIds (channelEntries contexts) (threadMsgEntries contexts) clientId
        initialSlotCount maxSlots maxBytes slotIdGenerator = none ∧
      NoRoom contexts clientId initialSlotCount maxSlots maxBytes) ∨
    ∃ s, splitWithSlotIds (channelEntries contexts) (threadMsgEntries contexts) clientId
        initialSlotCount maxSlots maxBytes slotIdGenerator = some s ∧
      ¬ NoRoom contexts clientId initialSlotCount maxSlots maxBytes ∧
      (∀ slot ∈ s.slots, blobBytes clientId slot ≤ maxBytes) ∧
      (s.slots.flatMap fun slot => slot.pairs.filter fun e => !isPrunableContextKey e.1).Perm
        ((channelEntries contexts).filter fun e => e.1 ≠ protoKey) ∧
      initialSlotCount + s.extraSlotIds.length = s.slots.length := by
  obtain ⟨hcount, hids⟩ := growSlotIds_spec clientId maxBytes (channelEntries contexts)
    slotIdGenerator (maxSlots - initialSlotCount) initialSlotCount []
  obtain ⟨hlow, hhigh, hlast⟩ := growSlots_spec clientId maxBytes (channelEntries contexts)
    (maxSlots - initialSlotCount) initialSlotCount
  have hmax : initialSlotCount + (maxSlots - initialSlotCount) = max initialSlotCount maxSlots := by
    omega
  rw [hmax] at hhigh hlast
  unfold splitWithSlotIds
  dsimp only
  rw [hcount]
  revert hids hlow hhigh hlast
  generalize growSlots clientId maxBytes (channelEntries contexts) _ _ = count
  intro hids hlow hhigh hlast
  split
  next hexceeds => exact Or.inl ⟨rfl, (hlast hexceeds).2⟩
  next hfits =>
    refine Or.inr ⟨_, rfl, fun hroom => hfits (hroom count hlow hhigh), ?_⟩
    have hslots : ∀ slot ∈ distribute (channelEntries contexts) count,
        blobBytes clientId slot ≤ maxBytes := by
      intro slot hslot
      by_contra hlarge
      exact hfits (List.any_eq_true.2 ⟨slot, hslot, by simpa using hlarge⟩)
    have hchannel : ∀ e ∈ channelEntries contexts, isPrunableContextKey e.1 = false :=
      fun e he => by simpa using (List.mem_filter.1 he).2
    have hthreads : ∀ e ∈ threadMsgEntries contexts, isPrunableContextKey e.1 = true :=
      fun e he => (List.mem_filter.1 he).2
    obtain ⟨hfit, hleft⟩ := fillPrimary_spec hchannel hthreads (keys_threadMsgEntries contexts)
      hslots
    refine ⟨hfit, ?_, ?_⟩
    · dsimp only
      rw [hleft]
      exact distribute_perm (keys_channelEntries contexts) (by omega)
    · rw [List.length_nil] at hids
      dsimp only
      rw [length_fillPrimary, distribute, List.length_map, List.length_range]
      omega

/-- Both promises are kept exactly when no channel has the key that an object does not take, or the
splitter has no room at all. -/
theorem read_state_budget (hinitial : 1 ≤ initialSlotCount) :
    (Trims contexts clientId maxBytes (trimContextsToBudget contexts clientId maxBytes) ∧
      Splits contexts clientId initialSlotCount maxSlots maxBytes
        (splitWithSlotIds (channelEntries contexts) (threadMsgEntries contexts) clientId
          initialSlotCount maxSlots maxBytes slotIdGenerator)) ↔
      (contexts.lookup protoKey = none ∨
        NoRoom contexts clientId initialSlotCount maxSlots maxBytes) := by
  rcases split_spec contexts clientId maxSlots maxBytes slotIdGenerator hinitial with
    ⟨hnone, hroom⟩ | ⟨s, hsome, hroom, hfits, hslots, hids⟩
  · refine iff_of_true ⟨trims_trimContextsToBudget contexts clientId maxBytes, ?_⟩ (Or.inr hroom)
    rw [hnone]
    exact
      { null := fun _ => hroom _ (Nat.le_max_left _ _) (Nat.le_refl _)
        fits := fun s h => by cases h
        channels := fun s h => by cases h
        ids := fun s h => by cases h }
  · rw [hsome, or_iff_left hroom]
    constructor
    · rintro ⟨-, hsplits⟩
      -- Nothing of a slot has the key, so nothing of the record has.
      cases hproto : contexts.lookup protoKey with
      | none => rfl
      | some ts =>
          have hchannel : (protoKey, ts) ∈ channelEntries contexts :=
            List.mem_filter.2 ⟨HashMap.mem_pairs_iff.2 hproto, proto_channel⟩
          have hmem := (hsplits.channels s rfl).mem_iff.2 hchannel
          have htaken := (List.mem_filter.1 (hslots.mem_iff.1 hmem)).2
          simp at htaken
    · intro hproto
      have hall : ((channelEntries contexts).filter fun e => e.1 ≠ protoKey) =
          channelEntries contexts := by
        refine List.filter_eq_self.2 fun e he => decide_eq_true fun heq => ?_
        have hlookup : contexts.lookup e.1 = some e.2 :=
          HashMap.mem_pairs_iff.1 (List.mem_of_mem_filter he)
        rw [heq, hproto] at hlookup
        cases hlookup
      rw [hall] at hslots
      refine ⟨trims_trimContextsToBudget contexts clientId maxBytes, ?_⟩
      exact
        { null := fun h => by cases h
          fits := fun s' h => by cases h; exact hfits
          channels := fun s' h => by cases h; exact hslots
          ids := fun s' h => by cases h; exact hids }

end Result

namespace Sample

/-- A channel and two messages: 69 bytes. -/
def threeContexts : Record :=
  HashMap.setAll ∅ [("general".toList, 12), ("msg:a".toList, 7), ("msg:b".toList, 9)]

theorem evictionOrder_three :
    evictionOrder threeContexts = [("msg:a".toList, 7), ("msg:b".toList, 9)] := by
  have hmessages : (threeContexts.pairs.filter fun e => msgPrefix.isPrefixOf e.1) =
      [("msg:a".toList, 7), ("msg:b".toList, 9)] := by decide
  have hthreads : (threeContexts.pairs.filter fun e =>
      !msgPrefix.isPrefixOf e.1 && threadPrefix.isPrefixOf e.1) = [] := by decide
  rw [evictionOrder, hmessages, hthreads, oldestFirst, oldestFirst,
    List.mergeSort_of_pairwise (by simp), List.mergeSort_of_pairwise (by simp)]
  rfl

/-- A channel whose id is the name of the setter. -/
def protoContexts : Record := HashMap.set ∅ protoKey 1

end Sample

/-- Under 60 bytes the older message is evicted. -/
theorem read_state_budget_evicts :
    Trims Sample.threeContexts "c".toList 60
        (trimContextsToBudget Sample.threeContexts "c".toList 60) ∧
      Splits Sample.threeContexts "c".toList 1 8 60
        (splitWithSlotIds (channelEntries Sample.threeContexts)
          (threadMsgEntries Sample.threeContexts) "c".toList 1 8 60 fun n => decimal n) ∧
      (trimContextsToBudget Sample.threeContexts "c".toList 60).contexts.pairs =
        [("general".toList, 12), ("msg:b".toList, 9)] := by
  have hkept := (read_state_budget Sample.threeContexts "c".toList 8 60 (fun n => decimal n)
    (Nat.le_refl 1)).2 (Or.inl (by decide))
  have hevict : toEvict 60 (blobBytes "c".toList Sample.threeContexts)
      (evictionOrder Sample.threeContexts) = ["msg:a".toList] := by
    rw [Sample.evictionOrder_three]
    decide
  refine ⟨hkept.1, hkept.2, ?_⟩
  rw [trim_of_exceeds (by decide) hevict]
  decide

/-- The channel is lost: the one slot of the result is empty. -/
theorem read_state_budget_proto :
    ¬ (Trims Sample.protoContexts "c".toList 32768
          (trimContextsToBudget Sample.protoContexts "c".toList 32768) ∧
        Splits Sample.protoContexts "c".toList 1 8 32768
          (splitWithSlotIds (channelEntries Sample.protoContexts)
            (threadMsgEntries Sample.protoContexts) "c".toList 1 8 32768 fun n => decimal n)) := by
  rintro ⟨-, hsplits⟩
  have hsome : (splitWithSlotIds (channelEntries Sample.protoContexts)
      (threadMsgEntries Sample.protoContexts) "c".toList 1 8 32768 fun n => decimal n).map
        (fun s => s.slots.map HashMap.pairs) = some [[]] := by decide
  obtain ⟨s, hs, hslots⟩ := Option.map_eq_some_iff.1 hsome
  have hchannel : (protoKey, 1) ∈ channelEntries Sample.protoContexts := by decide
  obtain ⟨slot, hslot, hmem⟩ := List.mem_flatMap.1 ((hsplits.channels s hs).mem_iff.2 hchannel)
  have hempty : slot.pairs ∈ ([[]] : List (List (Text × Nat))) := by
    rw [← hslots]
    exact List.mem_map_of_mem hslot
  rw [List.mem_singleton.1 hempty] at hmem
  cases hmem

end ReadState
end Desktop
end Maju
