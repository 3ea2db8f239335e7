import Maju.Lib.HashMap
import Maju.Lib.JsonValue
import Maju.Lib.Text

/-!
# Frame — the text of an event message, live and stored

A live event goes out in a frame whose subscription id is spliced into a template; a stored event
goes out in one that is serialised.

* `parseReq` — which texts a client can choose as an id;
* `eventFrameForSub`, `fanoutFrameCache`, `relayMessageEvent` — the two kinds of frames;
* `FramesAgree` — both denote one value, a message with three members and the chosen id;
* `framesAgree_iff` — they do so exactly for ids that have nothing to escape.
-/

namespace Maju
namespace Relay

open Lib

/-! ## Opening a subscription -/

def maxSubIdLength : Nat := 256

def maxFiltersPerReq : Nat := 10

/-- `ClientMessage::Req`. -/
structure ReqMessage (Filter : Type) where
  subId : Text
  filters : List Filter
  beforeIds : List (Option Nat)

def parseEventId (hex : Text) : Option Nat := if hex.length = 64 then parseHex hex else none

def parseBeforeId (value : Json) : Except Text (Option Nat) :=
  match value.get "before_id" with
  | none => .ok none
  | some raw =>
      if (value.get "until").isNone then .error "before_id requires until to be set".toList
      else
        match raw.asStr.bind parseEventId with
        | some id => .ok (some id)
        | none => .error "before_id must be a 64-char hex event id".toList

/-- The `REQ` branch of `ClientMessage::parse`, for the elements behind the type; `parseFilter` is
`serde_json::from_value` with the text of its error. -/
def parseReq {Filter : Type} (parseFilter : Json → Except Text Filter) (items : List Json) :
    Except Text (ReqMessage Filter) :=
  match items with
  | [] => .error "REQ requires sub_id".toList
  | id :: filterValues =>
      match id.asStr with
      | none => .error "REQ sub_id must be a string".toList
      | some subId =>
          if subId.isEmpty then .error "REQ sub_id must not be empty".toList
          else if maxSubIdLength < byteLen subId then
            .error "REQ sub_id exceeds maximum length of 256 bytes".toList
          else if maxFiltersPerReq < filterValues.length then
            .error ("REQ contains ".toList ++ decimal filterValues.length ++
              " filters, maximum is 10".toList)
          else do
            let filters ← filterValues.mapM fun value =>
              (parseFilter value).mapError fun e => "invalid filter: ".toList ++ e
            let beforeIds ← filterValues.mapM parseBeforeId
            .ok ⟨subId, filters, beforeIds⟩

/-! ## Frames -/

/-- An event as `serde` sees it: an object whose members come in the order of the struct. -/
structure SerializeEvent (Event : Type) where
  members : Event → List (Text × Json)
  valid : ∀ event, Json.ValidMembers (members event)

namespace SerializeEvent

variable {Event : Type} (ser : SerializeEvent Event)

/-- `serde_json::to_string`. -/
def toText (event : Event) : Text := Json.print (.obj (ser.members event))

/-- `serde_json::to_value`: objects are maps. -/
def toValue (event : Event) : Json := (Json.obj (ser.members event)).normal

end SerializeEvent

def eventFrameForSub (subId eventJson : Text) : Text :=
  "[\"EVENT\",\"".toList ++ subId ++ "\",".toList ++ eventJson ++ "]".toList

def fanoutFrameCache (subIds : List Text) (eventJson : Text) : HashMap Text Text :=
  subIds.foldl (fun frames subId =>
    if subId ∈ frames then frames else frames.insert subId (eventFrameForSub subId eventJson)) ∅

/-- `RelayMessage::event`. -/
def relayMessageEvent {Event : Type} (ser : SerializeEvent Event) (subId : Text) (event : Event) :
    Text :=
  Json.print (.arr [.str "EVENT".toList, .str subId, ser.toValue event])

theorem lookup_fanoutFrameCache (subIds : List Text) (subId eventJson : Text) :
    (fanoutFrameCache subIds eventJson).lookup subId =
      if subId ∈ subIds then some (eventFrameForSub subId eventJson) else none := by
  induction subIds using List.reverseRecOn generalizing subId with
  | nil => rfl
  | append_singleton subIds last ih =>
      have hmem : last ∈ fanoutFrameCache subIds eventJson ↔ last ∈ subIds := by
        rw [← AList.lookup_isSome, ih]
        split <;> simp_all
      rw [fanoutFrameCache, List.foldl_append, ← fanoutFrameCache, List.foldl_cons, List.foldl_nil]
      simp only [hmem]
      by_cases heq : subId = last
      · subst heq
        by_cases hold : subId ∈ subIds
        · simp [hold, ih]
        · simp [hold]
      · by_cases hold : last ∈ subIds
        · simp [hold, heq, ih]
        · simp [hold, heq, ih]

/-- The live frame and the stored one denote the same value: an event message for the id, with three
members. -/
def FramesAgree {Event : Type} (ser : SerializeEvent Event) (subId : Text) (event : Event) : Prop :=
  ∃ live stored, Json.decode (eventFrameForSub subId (ser.toText event)) = some live ∧
    Json.decode (relayMessageEvent ser subId event) = some stored ∧
    live.normal = stored.normal ∧
    ∃ value, live = .arr [.str "EVENT".toList, .str subId, value]

/-- A text without quotation marks, backslashes and control characters. -/
def Unescaped (subId : Text) : Prop := ∀ c ∈ subId, c ≠ '"' ∧ c ≠ '\\' ∧ 32 ≤ c.toNat

section

variable {Event : Type} {ser : SerializeEvent Event} {subId : Text} {event : Event}

theorem eventFrameForSub_eq (subId eventJson : Text) :
    eventFrameForSub subId eventJson =
      '[' :: '"' :: 'E' :: 'V' :: 'E' :: 'N' :: 'T' :: '"' :: ',' :: '"' ::
        (subId ++ '"' :: ',' :: (eventJson ++ [']'])) := by
  unfold eventFrameForSub
  simp

theorem eventFrameForSub_eq_print (h : Unescaped subId) :
    eventFrameForSub subId (ser.toText event) =
      Json.print (.arr [.str "EVENT".toList, .str subId, .obj (ser.members event)]) := by
  have hquote : Json.quote subId = '"' :: (subId ++ ['"']) :=
    Json.quote_eq fun c hc => Json.escapeChar_eq_self (h c hc).1 (h c hc).2.1 (h c hc).2.2
  have hname : Json.quote "EVENT".toList = '"' :: 'E' :: 'V' :: 'E' :: 'N' :: 'T' :: ['"'] := by
    decide
  rw [eventFrameForSub_eq, Json.print, Json.print, Json.printItems, Json.print, Json.printItems,
    Json.printItems, hquote, hname]
  simp only [SerializeEvent.toText, List.cons_append, List.nil_append, List.append_assoc]

theorem parse_eventFrame (n : Nat) (tail : Text) :
    Json.parse (n + 8)
        ('[' :: '"' :: 'E' :: 'V' :: 'E' :: 'N' :: 'T' :: '"' :: ',' :: '"' :: tail) =
      (Json.parseChars (n + 5) tail).bind fun (s, rest) =>
        (Json.parseItems (n + 6) rest).map fun (vs, rest) =>
          (.arr (.str "EVENT".toList :: .str s :: vs), rest) := by
  have hname : Json.parse (n + 7)
      ('"' :: 'E' :: 'V' :: 'E' :: 'N' :: 'T' :: '"' :: ',' :: '"' :: tail) =
      some (.str "EVENT".toList, ',' :: '"' :: tail) := by
    simp [Json.parse, Json.parseChars, Json.skipSpace, Json.isSpace]
  have hid : Json.parse (n + 6) ('"' :: tail) =
      (Json.parseChars (n + 5) tail).map fun p => (.str p.1, p.2) := by
    simp [Json.parse, Json.skipSpace, Json.isSpace]
  have hitems : Json.parseItems (n + 7) (',' :: '"' :: tail) =
      (Json.parse (n + 6) ('"' :: tail)).bind fun p =>
        (Json.parseItems (n + 6) p.2).map fun q => (p.1 :: q.1, q.2) := by
    simp [Json.parseItems, Json.skipSpace, Json.isSpace]
  have hframe : Json.parse (n + 8)
      ('[' :: '"' :: 'E' :: 'V' :: 'E' :: 'N' :: 'T' :: '"' :: ',' :: '"' :: tail) =
      (Json.parse (n + 7)
        ('"' :: 'E' :: 'V' :: 'E' :: 'N' :: 'T' :: '"' :: ',' :: '"' :: tail)).bind
        fun p =>
          (Json.parseItems (n + 7) p.2).map fun q => (.arr (p.1 :: q.1), q.2) := by
    rw [Json.parse]
    simp [Json.skipSpace, Json.isSpace]
  simp only [hframe, hname, Option.bind_some, hitems, hid]
  cases Json.parseChars (n + 5) tail with
  | none => rfl
  | some pair =>
      obtain ⟨s, rest⟩ := pair
      simp only [Option.map_some, Option.bind_some, Option.map_map]
      rfl

theorem unescaped_of_framesAgree (h : FramesAgree ser subId event) : Unescaped subId := by
  obtain ⟨live, stored, hlive, -, -, value, rfl⟩ := h
  rw [eventFrameForSub_eq] at hlive
  generalize htail : '"' :: ',' :: (ser.toText event ++ [']']) = tail at hlive
  obtain ⟨n, hn⟩ : ∃ n, ('[' :: '"' :: 'E' :: 'V' :: 'E' :: 'N' :: 'T' :: '"' :: ',' :: '"' ::
      (subId ++ tail)).length + 1 = n + 8 := ⟨(subId ++ tail).length + 3, rfl⟩
  rw [Json.decode, hn, parse_eventFrame] at hlive
  cases hchars : Json.parseChars (n + 5) (subId ++ tail) with
  | none =>
      rw [hchars] at hlive
      cases hlive
  | some pair =>
      obtain ⟨s, rest⟩ := pair
      rw [hchars, Option.bind_some] at hlive
      cases hitems : Json.parseItems (n + 6) rest with
      | none => simp [hitems] at hlive
      | some pair =>
          obtain ⟨vs, behind⟩ := pair
          simp only [hitems, Option.map_some] at hlive
          split_ifs at hlive
          cases hlive
          rw [← htail] at hchars
          have hplain := Json.parseChars_self hchars
          intro c hc
          exact Json.plain_of_escapeChar (hplain c hc)

/-- The live frame agrees with the stored one if and only if the id has nothing to escape. -/
theorem framesAgree_iff (ser : SerializeEvent Event) (subId : Text) (event : Event) :
    FramesAgree ser subId event ↔ Unescaped subId := by
  constructor
  · exact unescaped_of_framesAgree
  · intro h
    have hlive : Json.Valid (.arr [.str "EVENT".toList, .str subId, .obj (ser.members event)]) :=
      ⟨trivial, trivial, ser.valid event, trivial⟩
    have hvalue : Json.Valid (ser.toValue event) := Json.valid_normal _ (ser.valid event)
    have hstored : Json.Valid (.arr [.str "EVENT".toList, .str subId, ser.toValue event]) :=
      ⟨trivial, trivial, hvalue, trivial⟩
    refine ⟨_, _, ?_, Json.decode_print hstored, ?_, .obj (ser.members event), rfl⟩
    · rw [eventFrameForSub_eq_print h]
      exact Json.decode_print hlive
    · have hsame : (ser.toValue event).normal = (Json.obj (ser.members event)).normal :=
        Json.normal_normal _
      simp only [Json.normal, Json.normalItems, hsame]

end

/-! ## An event -/

/-- The members of an event on the wire. -/
structure WireEvent where
  id : Text
  pubkey : Text
  createdAt : Nat
  kind : Nat
  tags : List (List Text)
  content : Text
  sig : Text

/-- The struct of an event, in the order of its fields. -/
def serializeWireEvent : SerializeEvent WireEvent where
  members event :=
    [("id".toList, .str event.id), ("pubkey".toList, .str event.pubkey),
      ("created_at".toList, .num (decimal event.createdAt)),
      ("kind".toList, .num (decimal event.kind)),
      ("tags".toList, .arr (event.tags.map fun tag => .arr (tag.map .str))),
      ("content".toList, .str event.content), ("sig".toList, .str event.sig)]
  valid event := by
    have htexts : ∀ tag : List Text, Json.ValidItems (tag.map .str) := by
      intro tag
      induction tag with
      | nil => trivial
      | cons s tag ih => exact ⟨trivial, ih⟩
    have htags : ∀ tags : List (List Text),
        Json.ValidItems (tags.map fun tag => .arr (tag.map .str)) := by
      intro tags
      induction tags with
      | nil => trivial
      | cons tag tags ih => exact ⟨htexts tag, ih⟩
    have hnum : ∀ n, Json.Valid (.num (decimal n)) := fun n =>
      ⟨Json.isNumber_decimal n, fun c hc => Json.isNumChar_of_mem_decimal hc⟩
    exact ⟨trivial, trivial, hnum _, hnum _, htags _, trivial, trivial, trivial⟩

/-- An id that closes its own quotation marks is accepted, and its frame has another member. -/
theorem spliced_id_adds_member :
    (parseReq (fun _ => (.error [] : Except Text Unit)) [.str "a\",\"b".toList]).map
        ReqMessage.subId = .ok "a\",\"b".toList ∧
      ¬ FramesAgree serializeWireEvent "a\",\"b".toList
        ⟨"00".toList, "00".toList, 0, 1, [], "hi".toList, "00".toList⟩ := by
  refine ⟨rfl, fun h => ?_⟩
  have hmark : '"' ∈ "a\",\"b".toList := by decide
  exact (((framesAgree_iff _ _ _).1 h) '"' hmark).1 rfl

end Relay
end Maju
