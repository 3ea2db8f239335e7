import Maju.Lib.Decimal
import Maju.Lib.JsMap
import Maju.Lib.Json
import Maju.Lib.MaxRegister
import Maju.Lib.Text
import Mathlib.Order.Nat

/-!
# Format — read-state blobs and their division into slots

A read-state event carries, encrypted to the user, the markers of one client: a record from contexts
to timestamps.  Here is how the client reads such an event, and how it makes its own markers fit
into events of a bounded size:

* `parseReadStateEvent` — the validation of an event and of its decrypted content;
* `trimContextsToBudget` — eviction of message and thread markers;
* `splitContextsIntoBudgetedSlots` — the channel markers over several slots.
-/

namespace Maju
namespace Desktop
namespace ReadState

open Lib MaxRegister

/-- A `Map` or a record from contexts to numbers. -/
abbrev Record := HashMap Text Nat

/-- The one key under which an object takes no number: the assignment goes to a setter that ignores
it. -/
def protoKey : Text := "__proto__".toList

/-- `record[key] = ts` for each entry. -/
def assignAll (record : Record) (entries : List (Text × Nat)) : Record :=
  record.setAll (entries.filter fun e => e.1 ≠ protoKey)

theorem mem_of_lookup_assignAll {record : Record} {entries : List (Text × Nat)} {key : Text}
    {ts : Nat} (h : (assignAll record entries).lookup key = some ts) :
    record.lookup key = some ts ∨ (key, ts) ∈ entries :=
  (HashMap.mem_of_lookup_setAll h).imp_right List.mem_of_mem_filter

def readStateDTagPrefix : Text := "read-state:".toList

def maxContexts : Nat := 10000

def readStateMaxPlaintextBytes : Nat := 32768

def readStateMaxSlots : Nat := 8

def msgPrefix : Text := "msg:".toList

def threadPrefix : Text := "thread:".toList

/-- The contexts that may be evicted; every other key is a channel key. -/
def isPrunableContextKey (context : Text) : Bool :=
  msgPrefix.isPrefixOf context || threadPrefix.isPrefixOf context

/-- The `length` of a string: its UTF-16 units. -/
def utf16Length (s : Text) : Nat := (s.map fun c => if c.toNat < 0x10000 then 1 else 2).sum

/-! ## Events -/

/-! A value of `JSON.parse` is kept as far as the validation tells values apart: a member of the
contexts is an integral number or not, and so on. -/

/-- The value of a context. -/
inductive JsEntry where
  | integer (n : Int)
  | other
  deriving DecidableEq, Repr

/-- The value of a field of the blob. -/
inductive JsField where
  | integer (n : Int)
  | string (s : Text)
  | object (members : List (Text × JsEntry))
  | other
  deriving DecidableEq, Repr

/-- The decrypted value. -/
inductive Js where
  | object (members : List (Text × JsField))
  | other
  deriving DecidableEq, Repr

structure ReadStateBlob where
  clientId : Text
  contexts : Record

/-- An event of the read-state kind, with what decryption and `JSON.parse` give, if they succeed,
and the nonce of the encryption.  Its id is a hash of the event, so the event stands for it. -/
structure Event where
  pubkey : Text
  createdAt : Nat
  tags : List (List Text)
  plaintext : Option Js
  nonce : Nat
  deriving DecidableEq, Repr

/-- The members of an object as `JSON.parse` leaves them: of two with one name the last counts. -/
def members {V : Type} (l : List (Text × V)) : HashMap Text V := HashMap.setAll ∅ l

/-- `isValidBlob`: the client id and the members of the contexts of a valid blob. -/
def validBlob (value : Js) : Option (Text × HashMap Text JsEntry) :=
  match value with
  | .object l =>
      match (members l).lookup "v".toList, (members l).lookup "client_id".toList,
          (members l).lookup "contexts".toList with
      | some (.integer 1), some (.string clientId), some (.object contexts) =>
          if clientId = [] ∨ 64 < utf16Length clientId then none
          else if maxContexts < (members contexts).entries.length then none
          else some (clientId, members contexts)
      | _, _, _ => none
  | .other => none

/-- The timestamp of one member of the contexts. -/
def sanitizeContext (e : Text × JsEntry) : Option (Text × Nat) :=
  match e.2 with
  | .integer n =>
      if 256 < byteLen e.1 then none
      else if n < 0 ∨ 4294967295 < n then none
      else some (e.1, n.toNat)
  | .other => none

def sanitizeContexts (contexts : HashMap Text JsEntry) : Record :=
  assignAll ∅ (contexts.pairs.filterMap sanitizeContext)

def isValidReadStateDTag (value : Text) : Bool :=
  readStateDTagPrefix.isPrefixOf value &&
    let slotId := value.drop readStateDTagPrefix.length
    0 < utf16Length slotId && utf16Length slotId ≤ 64 && slotId.all fun c => c.toNat ≤ 0x7f

structure ParsedReadStateEvent where
  dTag : Text
  blob : ReadStateBlob
  createdAt : Nat

def parseReadStateEvent (event : Event) (pubkey : Text) : Option ParsedReadStateEvent :=
  if event.pubkey ≠ pubkey then none
  else
    match event.tags.filter fun tag => tag.head? = some "d".toList with
    | [_ :: dTag :: _] =>
        if !isValidReadStateDTag dTag then none
        else if (event.tags.filter fun tag =>
            tag.head? = some "t".toList && tag[1]? = some "read-state".toList).length ≠ 1 then none
        else
          match event.plaintext.bind validBlob with
          | some (clientId, contexts) =>
              some ⟨dTag, ⟨clientId, sanitizeContexts contexts⟩, event.createdAt⟩
          | none => none
    | _ => none

theorem validBlob_blob (clientId : Text) (contexts : List (Text × JsEntry)) :
    validBlob (.object
      [("v".toList, .integer 1), ("client_id".toList, .string clientId),
        ("contexts".toList, .object contexts)]) =
      if clientId = [] ∨ 64 < utf16Length clientId then none
      else if maxContexts < (members contexts).entries.length then none
      else some (clientId, members contexts) := by
  have hkeys : ["v".toList, "client_id".toList, "contexts".toList].Nodup := by decide
  have hfound : ∀ e ∈ [("v".toList, JsField.integer 1), ("client_id".toList, .string clientId),
      ("contexts".toList, .object contexts)],
      (members [("v".toList, JsField.integer 1), ("client_id".toList, .string clientId),
        ("contexts".toList, .object contexts)]).lookup e.1 = some e.2 :=
    fun e he => HashMap.lookup_setAll_of_mem he hkeys ∅
  have hv := hfound ("v".toList, .integer 1) (by simp)
  have hid := hfound ("client_id".toList, .string clientId) (by simp)
  have hcontexts := hfound ("contexts".toList, .object contexts) (by simp)
  simp only [validBlob, hv, hid, hcontexts]

theorem mem_of_lookup_sanitizeContexts {contexts : HashMap Text JsEntry} {context : Text} {ts : Nat}
    (h : (sanitizeContexts contexts).lookup context = some ts) :
    contexts.lookup context = some (.integer ts) := by
  rcases mem_of_lookup_assignAll h with hnone | hmem
  · simp at hnone
  · obtain ⟨⟨key, value⟩, hpair, hsome⟩ := List.mem_filterMap.1 hmem
    rw [HashMap.mem_pairs_iff] at hpair
    cases value with
    | other => cases hsome
    | integer n =>
        simp only [sanitizeContext] at hsome
        split at hsome
        · cases hsome
        · split at hsome
          · cases hsome
          next hrange =>
            obtain ⟨rfl, rfl⟩ := Prod.mk.inj (Option.some.inj hsome)
            rw [Int.toNat_of_nonneg (by omega)]
            exact hpair

/-! ## The size of a blob -/

/-- `JSON.stringify` of a blob. -/
def blobFor (clientId : Text) (contexts : Record) : Text :=
  (Json.obj
    [("v".toList, .num "1".toList), ("client_id".toList, .str clientId),
      ("contexts".toList,
        .obj (contexts.pairs.map fun e => (e.1, .num (decimal e.2))))]).print

def blobBytes (clientId : Text) (contexts : Record) : Nat := byteLen (blobFor clientId contexts)

/-! ## Eviction -/

structure TrimResult where
  contexts : Record
  evicted : Nat
  fitsAfterTrim : Bool

/-- The entries to evict, in order, until the estimate of the size is within the budget. -/
def toEvict (maxBytes : Nat) : Int → List (Text × Nat) → List Text
  | _, [] => []
  | currentBytes, (key, ts) :: rest =>
      if currentBytes ≤ maxBytes then []
      else
        key :: toEvict maxBytes
          (currentBytes - (utf16Length key + 3 + (decimal ts).length + 1 : Nat)) rest

/-- The entries of a tier, oldest first. -/
def oldestFirst (entries : List (Text × Nat)) : List (Text × Nat) :=
  entries.mergeSort fun a b => decide (a.2 ≤ b.2)

def trimContextsToBudget (contexts : Record) (clientId : Text) (maxBytes : Nat) : TrimResult :=
  if blobBytes clientId contexts ≤ maxBytes then ⟨contexts, 0, true⟩
  else
    let msgEntries := contexts.pairs.filter fun e => msgPrefix.isPrefixOf e.1
    let threadEntries := contexts.pairs.filter fun e =>
      !msgPrefix.isPrefixOf e.1 && threadPrefix.isPrefixOf e.1
    let evict := toEvict maxBytes (blobBytes clientId contexts)
      (oldestFirst msgEntries ++ oldestFirst threadEntries)
    let kept := contexts.retain fun key _ => key ∉ evict
    ⟨kept, evict.length, blobBytes clientId kept ≤ maxBytes⟩

/-! ## Slots -/

/-- The channel keys, one after the other over the slots. -/
def distribute (channelEntries : List (Text × Nat)) (count : Nat) : List Record :=
  (List.range count).map fun slot =>
    assignAll ∅ ((channelEntries.zipIdx.filter fun e => e.2 % count = slot).map Prod.fst)

def exceeds (clientId : Text) (maxBytes : Nat) (slots : List Record) : Bool :=
  slots.any fun contexts => maxBytes < blobBytes clientId contexts

/-- The number of slots is raised until all fit; `room` more slots are allowed. -/
def growSlots (clientId : Text) (maxBytes : Nat) (channelEntries : List (Text × Nat)) :
    Nat → Nat → Nat
  | 0, count => count
  | room + 1, count =>
      if exceeds clientId maxBytes (distribute channelEntries count) then
        growSlots clientId maxBytes channelEntries room (count + 1)
      else count

/-- Thread and message entries go to the primary slot, which is trimmed. -/
def fillPrimary (clientId : Text) (maxBytes : Nat) (threadMsgEntries : List (Text × Nat)) :
    List Record → List Record
  | [] => []
  | primary :: extra =>
      (trimContextsToBudget (assignAll primary threadMsgEntries) clientId maxBytes).contexts :: extra

/-- The contexts of each slot; there are `initialSlotCount` slots and the new ones behind them. -/
def splitContextsIntoBudgetedSlots (channelEntries threadMsgEntries : List (Text × Nat))
    (clientId : Text) (initialSlotCount maxSlots maxBytes : Nat) : Option (List Record) :=
  let count := growSlots clientId maxBytes channelEntries (maxSlots - initialSlotCount)
    initialSlotCount
  let slots := distribute channelEntries count
  if exceeds clientId maxBytes slots then none
  else some (fillPrimary clientId maxBytes threadMsgEntries slots)

/-! ## What is kept -/

section Kept

variable {clientId : Text} {maxBytes : Nat} {contexts : Record} {context : Text} {ts : Nat}

theorem lookup_of_lookup_trim
    (h : (trimContextsToBudget contexts clientId maxBytes).contexts.lookup context = some ts) :
    contexts.lookup context = some ts := by
  unfold trimContextsToBudget at h
  split at h
  · exact h
  · rw [HashMap.lookup_retain] at h
    exact (Option.filter_eq_some_iff.1 h).1

theorem mem_of_lookup_distribute {entries : List (Text × Nat)} {count : Nat} {slot : Record}
    (hslot : slot ∈ distribute entries count) (h : slot.lookup context = some ts) :
    (context, ts) ∈ entries := by
  obtain ⟨i, -, rfl⟩ := List.mem_map.1 hslot
  rcases mem_of_lookup_assignAll h with hnone | hmem
  · simp at hnone
  · obtain ⟨⟨e, n⟩, hfilter, rfl⟩ := List.mem_map.1 hmem
    have hindex := (List.mem_filter.1 hfilter).1
    exact List.fst_mem_of_mem_zipIdx hindex

theorem mem_of_lookup_split {channelEntries threadMsgEntries : List (Text × Nat)}
    {initialSlotCount maxSlots : Nat} {slots : List Record}
    (hsplit : splitContextsIntoBudgetedSlots channelEntries threadMsgEntries clientId
      initialSlotCount maxSlots maxBytes = some slots) {slot : Record} (hslot : slot ∈ slots)
    (h : slot.lookup context = some ts) :
    (context, ts) ∈ channelEntries ∨ (context, ts) ∈ threadMsgEntries := by
  simp only [splitContextsIntoBudgetedSlots] at hsplit
  split at hsplit
  · cases hsplit
  · cases hsplit
    revert hslot
    generalize hcount : distribute channelEntries _ = distributed
    intro hslot
    cases distributed with
    | nil => exact absurd hslot List.not_mem_nil
    | cons primary extra =>
        have hmem : ∀ slot ∈ primary :: extra, ∀ ts, slot.lookup context = some ts →
            (context, ts) ∈ channelEntries := by
          rw [← hcount]
          exact fun slot hslot ts => mem_of_lookup_distribute hslot
        simp only [fillPrimary, List.mem_cons] at hslot
        rcases hslot with hfilled | hextra
        · rw [hfilled] at h
          rcases mem_of_lookup_assignAll (lookup_of_lookup_trim h) with hprimary | hthread
          · exact Or.inl (hmem primary List.mem_cons_self ts hprimary)
          · exact Or.inr hthread
        · exact Or.inl (hmem slot (List.mem_cons_of_mem _ hextra) ts h)

end Kept

end ReadState
end Desktop
end Maju
