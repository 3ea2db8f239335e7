import Maju.Lib.Run
import Maju.Relay.Tunnel.Directory

/-!
# Fencing — what the session directory promises over every run

The abstract purpose of the directory is a fence per session: a counter that only grows and at most
one holder, whose generation is the counter.  `Represents` relates the two Redis keys of a session
to a fence.  Every call keeps the relation and moves the fence by `Fence.Step`, and the promises
follow from what these steps can do.
-/

namespace Maju
namespace Relay
namespace Tunnel

open Lib Core

/-! ## Fences -/

/-- A counter and the current holder, if any. -/
structure Fence where
  counter : Nat
  holder : Option (RuntimeId × Profile)

namespace Fence

/-- The fence of a session nobody has asked for. -/
def initial : Fence := ⟨0, none⟩

/-- What can happen to a fence: nothing, a grant of the next generation while vacant, or the loss
of its holder. -/
inductive Step : Fence → Fence → Prop where
  | stay (f : Fence) : Step f f
  | grant (n : Nat) (holder : RuntimeId × Profile) : Step ⟨n, none⟩ ⟨n + 1, some holder⟩
  | vacate (n : Nat) (holder : Option (RuntimeId × Profile)) : Step ⟨n, holder⟩ ⟨n, none⟩

variable {f g : Fence}

theorem Step.counter_le (h : Step f g) : f.counter ≤ g.counter := by
  cases h with
  | stay => exact Nat.le_refl _
  | grant n holder => exact Nat.le_succ n
  | vacate n holder => exact Nat.le_refl _

theorem Step.counter_lt (h : Step f g) (hvacant : f.holder = none) (hheld : g.holder ≠ none) :
    f.counter < g.counter := by
  cases h with
  | stay => exact absurd hvacant hheld
  | grant n holder => exact Nat.lt_succ_self n
  | vacate n holder => exact absurd rfl hheld

end Fence

/-! ## Texts -/

theorem bar_not_mem_toHex (owner : RuntimeId) : '|' ∉ toHex owner :=
  not_mem_hexDigits (by decide) 64 owner.toNat

theorem bar_not_mem_asWireStr (profile : Profile) : '|' ∉ profile.asWireStr := by
  cases profile <;> decide

theorem luaToString_natCast (n : Nat) : luaToString n = formatG14 (toDouble n) := by
  unfold luaToString
  rw [if_neg (by omega), Int.natAbs_natCast]

theorem bar_not_mem_luaToString (n : Nat) : '|' ∉ luaToString n := by
  rw [luaToString_natCast]
  intro hmem
  have hchars := formatG14_chars hmem
  revert hchars
  decide

theorem luaToString_of_lt {n : Nat} (hn : n < 10 ^ 14) : luaToString n = decimal n := by
  rw [luaToString_natCast, toDouble_of_lt hn, formatG14_of_lt hn]

theorem mem_luaToString {n : Nat} (hn : 10 ^ 14 ≤ n) : 'e' ∈ luaToString n := by
  rw [luaToString_natCast]
  exact mem_formatG14 (le_toDouble hn)

theorem luaToString_ne_nil (n : Nat) : luaToString n ≠ [] := by
  rcases Nat.lt_or_ge n (10 ^ 14) with hlt | hge
  · rw [luaToString_of_lt hlt]
    exact decimal_ne_nil n
  · exact List.ne_nil_of_mem (mem_luaToString hge)

theorem luaToString_eq_decimal_iff (n g : Nat) :
    luaToString n = decimal g ↔ n = g ∧ n < 10 ^ 14 := by
  constructor
  · intro h
    rcases Nat.lt_or_ge n (10 ^ 14) with hlt | hge
    · rw [luaToString_of_lt hlt] at h
      exact ⟨decimal_injective h, hlt⟩
    · have hmem := mem_luaToString hge
      rw [h] at hmem
      exact absurd hmem (not_mem_decimal (by decide) g)
  · rintro ⟨rfl, hlt⟩
    exact luaToString_of_lt hlt

theorem toHex_injective : Function.Injective toHex := by
  intro a b h
  exact hexDigits_bitVec_injective (by decide) h

theorem runtimeFromHex_toHex (owner : RuntimeId) : runtimeFromHex (toHex owner) = some owner := by
  have hlt : owner.toNat < 16 ^ 64 := owner.isLt
  unfold runtimeFromHex toHex
  rw [if_pos (length_hexDigits 64 _), parseHex_hexDigits hlt]
  simp

theorem fromWire_asWireStr (profile : Profile) :
    Profile.fromWire profile.asWireStr = some profile := by
  cases profile <;> decide

theorem string2ll_decimal {n : Nat} (hpos : 0 < n) (hn : n < 2 ^ 63) :
    string2ll (decimal n) = some (n : Int) := by
  have hhead := head?_decimal_ne hpos
  have hminus : '-' ∉ decimal n := not_mem_decimal (by decide) n
  have hparse := parseDigits_decimal n
  unfold string2ll
  dsimp only
  split
  · next digits heq =>
      rw [heq] at hminus
      exact absurd List.mem_cons_self hminus
  · rw [if_pos (Or.inr hhead), hparse]
    simpa using hn

/-! ## Keys -/

theorem take_drop_append_drop (l : Text) (i j : Nat) :
    (l.drop i).take j ++ l.drop (i + j) = l.drop i := by
  rw [← List.drop_drop]
  exact List.take_append_drop j (l.drop i)

theorem filter_uuidText (id : Uuid) :
    (uuidText id).filter (fun c => c ≠ '-') = hexDigits 32 id.toNat := by
  have hyphen : '-' ∉ hexDigits 32 id.toNat := not_mem_hexDigits (by decide) 32 id.toNat
  unfold uuidText
  generalize hexDigits 32 id.toNat = digits at hyphen
  have hkeep : ∀ piece : Text, piece ⊆ digits → piece.filter (fun c => c ≠ '-') = piece := by
    intro piece hsub
    refine List.filter_eq_self.2 ?_
    intro c hc
    have hne : c ≠ '-' := fun he => hyphen (he ▸ hsub hc)
    simpa using hne
  have hmiddle : ∀ i j : Nat, (digits.drop i).take j ⊆ digits :=
    fun i j c hc => List.mem_of_mem_drop (List.mem_of_mem_take hc)
  have hlast : digits.drop 20 ⊆ digits := fun c hc => List.mem_of_mem_drop hc
  have hfirst : digits.take 8 ⊆ digits := fun c hc => List.mem_of_mem_take hc
  have hcut : ∀ rest : Text, ('-' :: rest).filter (fun c => c ≠ '-') =
      rest.filter (fun c => c ≠ '-') := fun rest => by simp
  dsimp only
  simp only [List.filter_append, hcut]
  rw [hkeep _ hfirst, hkeep _ (hmiddle 8 4), hkeep _ (hmiddle 12 4), hkeep _ (hmiddle 16 4),
    hkeep _ hlast, take_drop_append_drop digits 16 4, take_drop_append_drop digits 12 4,
    take_drop_append_drop digits 8 4]
  exact List.take_append_drop 8 digits

theorem uuidText_injective : Function.Injective uuidText := by
  intro a b h
  have hdigits := congrArg (List.filter fun c => c ≠ '-') h
  rw [filter_uuidText, filter_uuidText] at hdigits
  exact hexDigits_bitVec_injective (by decide) hdigits

@[simp] theorem length_uuidText (id : Uuid) : (uuidText id).length = 36 := by
  simp [uuidText]

namespace SessionKeys

theorem base_injective {c c' : CommunityId} {s s' : Uuid} (h : base c s = base c' s') :
    c = c' ∧ s = s' := by
  unfold base at h
  have hcommunity := List.append_inj (List.append_cancel_left h) (by simp)
  have hsession := List.append_cancel_left hcommunity.2
  cases c with
  | mk id =>
      cases c' with
      | mk id' =>
          have hid : id = id' := uuidText_injective hcommunity.1
          exact ⟨by rw [hid], uuidText_injective hsession⟩

@[simp] theorem length_base (c : CommunityId) (s : Uuid) : (base c s).length = 85 := by
  simp [base]

theorem new_lease_ne_generation (c c' : CommunityId) (s s' : Uuid) :
    (new c s).lease ≠ (new c' s').generation := by
  intro h
  have hlength := congrArg List.length h
  simp [new] at hlength

theorem new_lease_injective {c c' : CommunityId} {s s' : Uuid}
    (h : (new c s).lease = (new c' s').lease) : c = c' ∧ s = s' :=
  base_injective (List.append_cancel_right h)

theorem new_generation_injective {c c' : CommunityId} {s s' : Uuid}
    (h : (new c s).generation = (new c' s').generation) : c = c' ∧ s = s' :=
  base_injective (List.append_cancel_right h)

end SessionKeys

theorem lookup_put (redis : Redis) (key key' : Text) (entry : Option Entry) :
    (redis.put key entry).lookup key' = if key' = key then entry else redis.lookup key' := by
  cases entry with
  | none => exact HashMap.lookup_erase_eq key key' redis
  | some e => exact HashMap.lookup_insert_eq key key' e redis

namespace Directory

/-- The keys of a session, as their own scripts see them. -/
def slotOf (redis : Redis) (session : CommunityId × Uuid) : Slot := (keysOf session).slot redis

theorem lease_ne_generation (k k' : CommunityId × Uuid) :
    (keysOf k).lease ≠ (keysOf k').generation :=
  SessionKeys.new_lease_ne_generation _ _ _ _

theorem lease_eq_iff {k k' : CommunityId × Uuid} : (keysOf k).lease = (keysOf k').lease ↔ k = k' := by
  constructor
  · intro h
    have hparts := SessionKeys.new_lease_injective h
    exact Prod.ext hparts.1 hparts.2
  · rintro rfl
    rfl

theorem generation_eq_iff {k k' : CommunityId × Uuid} :
    (keysOf k).generation = (keysOf k').generation ↔ k = k' := by
  constructor
  · intro h
    have hparts := SessionKeys.new_generation_injective h
    exact Prod.ext hparts.1 hparts.2
  · rintro rfl
    rfl

theorem slotOf_store (redis : Redis) (k k' : CommunityId × Uuid) (slot : Slot) :
    slotOf ((keysOf k).store redis slot) k' = if k' = k then slot else slotOf redis k' := by
  have hlease := lease_ne_generation k' k
  have hgeneration := (lease_ne_generation k k').symm
  unfold slotOf SessionKeys.store SessionKeys.slot
  simp only [lookup_put, lease_eq_iff, generation_eq_iff, if_neg hlease, if_neg hgeneration]
  split <;> rfl

theorem lookup_store_slotOf (redis : Redis) (k : CommunityId × Uuid) (key : Text) :
    ((keysOf k).store redis (slotOf redis k)).lookup key = redis.lookup key := by
  unfold slotOf SessionKeys.store SessionKeys.slot
  simp only [lookup_put]
  split
  · next h => rw [h]
  · split
    · next h => rw [h]
    · rfl

theorem lookup_expire (redis : Redis) (key key' : Text) :
    (redis.expire key).lookup key' =
      if key' = key ∧ ((redis.lookup key).bind Entry.pttl).isSome then none
      else redis.lookup key' := by
  unfold Redis.expire
  cases hl : redis.lookup key with
  | none => simp
  | some entry =>
      dsimp only
      cases hp : entry.pttl with
      | none => simp [hp]
      | some ttl => simp [hp, lookup_put]

/-! ## The two keys as a fence -/

def holderValue (counter : Nat) (holder : RuntimeId × Profile) : Text :=
  leaseValue (toHex holder.1) (luaToString counter) holder.2.asWireStr

/-- The two keys of a session hold the fence: the counter, without a time to live, and the tuple of
the holder under the current counter. -/
structure Represents (slot : Slot) (f : Fence) : Prop where
  generation : slot.generation = if f.counter = 0 then none else some ⟨decimal f.counter, none⟩
  bound : f.counter < 2 ^ 63
  lease : slot.lease.map Entry.value = f.holder.map (holderValue f.counter)
  positive : f.holder ≠ none → 0 < f.counter

variable {slot : Slot} {f : Fence}

theorem represents_initial : Represents ⟨none, none⟩ Fence.initial where
  generation := rfl
  bound := by decide
  lease := rfl
  positive := fun h => absurd rfl h

theorem fields_holderValue (counter : Nat) (holder : RuntimeId × Profile) :
    fields '|' (holderValue counter holder) =
      [toHex holder.1, luaToString counter, holder.2.asWireStr] := by
  unfold holderValue leaseValue
  rw [fields_append (bar_not_mem_toHex _), fields_append (bar_not_mem_luaToString _),
    fields_of_not_mem (bar_not_mem_asWireStr _)]

theorem holderValue_ne_nil (counter : Nat) (holder : RuntimeId × Profile) :
    holderValue counter holder ≠ [] := by
  simp [holderValue, leaseValue]

theorem matchLease_holderValue (counter : Nat) (holder : RuntimeId × Profile) :
    matchLease (holderValue counter holder) =
      some (toHex holder.1, luaToString counter, holder.2.asWireStr) := by
  have howner : toHex holder.1 ≠ [] := by
    intro h
    have hlength := congrArg List.length h
    simp [toHex] at hlength
  have hprofile : holder.2.asWireStr ≠ [] := by
    cases holder.2 <;> decide
  simp [matchLease, fields_holderValue, howner, luaToString_ne_nil, hprofile]

theorem parseLease_holderValue (c : CommunityId) (s : Uuid) {counter : Nat}
    (hpos : 0 < counter) (holder : RuntimeId × Profile) :
    parseLease c s (holderValue counter holder) =
      if counter < 10 ^ 14 then .ok ⟨c, s, holder.1, counter, holder.2⟩
      else .error (.malformedLease c s (holderValue counter holder)) := by
  unfold parseLease
  dsimp only
  rw [fields_holderValue]
  dsimp only
  rw [fromWire_asWireStr, runtimeFromHex_toHex]
  by_cases hsmall : counter < 10 ^ 14
  · have hparse : parseU64 (luaToString counter) = some counter := by
      rw [luaToString_of_lt hsmall]
      exact parseU64_decimal (by omega)
    rw [hparse, if_pos hsmall]
    exact if_neg (by omega)
  · -- the exponent form is no number for the relay
    have hparse : parseU64 (luaToString counter) = none :=
      parseU64_eq_none (mem_luaToString (by omega)) (by decide) (by decide)
    rw [hparse, if_neg hsmall]

theorem Represents.lease_of_held (h : Represents slot f) {holder : RuntimeId × Profile}
    (hf : f.holder = some holder) :
    ∃ entry, slot.lease = some entry ∧ entry.value = holderValue f.counter holder := by
  have hmap := h.lease
  rw [hf, Option.map_some, Option.map_eq_some_iff] at hmap
  exact hmap

theorem Represents.lease_of_vacant (h : Represents slot f) (hf : f.holder = none) :
    slot.lease = none := by
  have hmap := h.lease
  rw [hf, Option.map_none, Option.map_eq_none_iff] at hmap
  exact hmap

theorem Represents.lookup_eq (h : Represents slot f) (c : CommunityId) (s : Uuid) :
    Directory.lookup c s slot =
      match f.holder with
      | none => .ok none
      | some holder =>
          if f.counter < 10 ^ 14 then .ok (some ⟨c, s, holder.1, f.counter, holder.2⟩)
          else .error (.malformedLease c s (holderValue f.counter holder)) := by
  unfold Directory.lookup
  cases hf : f.holder with
  | none => rw [h.lease_of_vacant hf]
  | some holder =>
      rcases h.lease_of_held hf with ⟨entry, hentry, hvalue⟩
      have hpos := h.positive (by simp [hf])
      rw [hentry]
      dsimp only
      rw [hvalue, parseLease_holderValue c s hpos]
      split <;> rfl

theorem Represents.known_eq (h : Represents slot f) (c : CommunityId) (s : Uuid) :
    parseOptionalGeneration c s (getOrEmpty slot.generation) =
      .ok (if f.counter = 0 then none else some f.counter) := by
  rw [h.generation]
  by_cases hzero : f.counter = 0
  · simp [hzero, getOrEmpty, parseOptionalGeneration]
  · have hlt : f.counter < 2 ^ 64 := Nat.lt_trans h.bound (by decide)
    simp [hzero, getOrEmpty, parseOptionalGeneration, decimal_ne_nil, parseU64_decimal hlt]

theorem Represents.parseOptionalLease_eq (h : Represents slot f) (c : CommunityId) (s : Uuid) :
    parseOptionalLease c s (getOrEmpty slot.lease) = Directory.lookup c s slot := by
  unfold parseOptionalLease Directory.lookup
  cases hf : f.holder with
  | none =>
      rw [h.lease_of_vacant hf]
      rfl
  | some holder =>
      rcases h.lease_of_held hf with ⟨entry, hentry, hvalue⟩
      have hne : getOrEmpty slot.lease ≠ [] := by
        rw [hentry]
        simpa [getOrEmpty, hvalue] using holderValue_ne_nil f.counter holder
      rw [if_neg hne, hentry]
      rfl

theorem Represents.validate_iff (h : Represents slot f) (c : CommunityId) (fenced : FencedHeader) :
    validateFencedHeader c fenced slot = .ok () ↔
      ∃ profile, f.holder = some (fenced.ownerRuntimeId, profile) ∧
        fenced.generation = f.counter ∧ f.counter < 10 ^ 14 := by
  have hlookup := h.lookup_eq c fenced.sessionId
  unfold validateFencedHeader validateScript
  dsimp only
  rw [h.known_eq, h.parseOptionalLease_eq, hlookup]
  cases hf : f.holder with
  | none =>
      dsimp only
      constructor
      · intro hok
        generalize (if f.counter = 0 then none else some f.counter) = fromCounter at hok
        split at hok <;> cases hok
      · rintro ⟨profile, hholder, _⟩
        cases hholder
  | some holder =>
      have hpos := h.positive (by simp [hf])
      dsimp only
      by_cases hsmall : f.counter < 10 ^ 14
      · have hne : f.counter ≠ 0 := by omega
        simp only [if_pos hsmall, if_neg hne, Option.map_some, Option.getD_some, Nat.max_self]
        constructor
        · intro hok
          split at hok
          · cases hok
          · split at hok
            · cases hok
            · next hgeneration =>
                split at hok
                · cases hok
                · next howner =>
                    refine ⟨holder.2, ?_, not_not.1 hgeneration, hsmall⟩
                    rw [not_not.1 howner]
        · rintro ⟨profile, hholder, hgeneration, _⟩
          cases hholder
          simp [hgeneration]
      · simp only [if_neg hsmall]
        constructor
        · intro hok
          cases hok
        · rintro ⟨_, _, _, hlt⟩
          exact absurd hlt hsmall

/-! ## Scripts -/

theorem Represents.incr_eq (h : Represents slot f) :
    incr slot.generation =
      if f.counter = 2 ^ 63 - 1 then .error .wouldOverflow
      else .ok ((f.counter + 1 : Nat), ⟨decimal (f.counter + 1), none⟩) := by
  have hbound := h.bound
  rw [h.generation]
  by_cases hzero : f.counter = 0
  · simp [hzero, incr, intText]
  · have hread := string2ll_decimal (by omega) hbound
    have hnonneg : ¬((f.counter : Int) + 1 < 0) := by omega
    have habs : ((f.counter : Int) + 1).natAbs = f.counter + 1 := by omega
    rw [if_neg hzero]
    unfold incr
    dsimp only
    rw [hread]
    dsimp only
    by_cases hmax : f.counter = 2 ^ 63 - 1
    · rw [if_pos (by omega), if_pos hmax]
    · rw [if_neg (by omega), if_neg hmax]
      simp [intText, hnonneg, habs]

theorem Represents.acquireScript_vacant (h : Represents slot f) (hf : f.holder = none)
    (hroom : f.counter ≠ 2 ^ 63 - 1) (owner : RuntimeId) (profile : Profile) (ttl : Nat) :
    ∃ slot' known, acquireScript (toHex owner) profile.asWireStr ttl slot =
        .ok (slot', ⟨.acquired, holderValue (f.counter + 1) (owner, profile), known⟩) ∧
      Represents slot' ⟨f.counter + 1, some (owner, profile)⟩ := by
  have hbound := h.bound
  unfold acquireScript
  rw [h.lease_of_vacant hf, h.incr_eq, if_neg hroom]
  refine ⟨_, _, rfl, ?_⟩
  exact {
    generation := rfl
    bound := by
      show f.counter + 1 < 2 ^ 63
      omega
    lease := rfl
    positive := fun _ => Nat.succ_pos _ }

theorem Represents.acquireScript_cases (h : Represents slot f) (owner : RuntimeId) (profile : Profile)
    (ttl : Nat) :
    (∃ result, acquireScript (toHex owner) profile.asWireStr ttl slot = result ∧
      afterScript slot result = slot ∧ ∀ slot' reply, result = .ok (slot', reply) →
        reply.status ≠ .acquired) ∨
    (f.holder = none ∧ ∃ slot' known,
      acquireScript (toHex owner) profile.asWireStr ttl slot =
        .ok (slot', ⟨.acquired, holderValue (f.counter + 1) (owner, profile), known⟩) ∧
      Represents slot' ⟨f.counter + 1, some (owner, profile)⟩) := by
  cases hf : f.holder with
  | some holder =>
      -- a live lease: the counter is not touched
      rcases h.lease_of_held hf with ⟨entry, hentry, _⟩
      refine Or.inl ⟨_, rfl, ?_, ?_⟩
      · unfold acquireScript
        rw [hentry]
        rfl
      · intro slot' reply hok
        unfold acquireScript at hok
        rw [hentry] at hok
        cases hok
        simp
  | none =>
      by_cases hmax : f.counter = 2 ^ 63 - 1
      · -- `INCR` fails before anything is written
        have herror : acquireScript (toHex owner) profile.asWireStr ttl slot =
            .error .wouldOverflow := by
          unfold acquireScript
          rw [h.lease_of_vacant hf, h.incr_eq, if_pos hmax]
        refine Or.inl ⟨_, herror, rfl, ?_⟩
        intro slot' reply hok
        cases hok
      · exact Or.inr ⟨rfl, h.acquireScript_vacant hf hmax owner profile ttl⟩

/-- The holder of the fence under a generation that its lease value still prints. -/
def Holds (f : Fence) (owner : RuntimeId) (generation : Nat) : Prop :=
  ∃ profile, f.holder = some (owner, profile) ∧ generation = f.counter ∧ f.counter < 10 ^ 14

theorem Represents.ownerScript_cases (h : Represents slot f) (done : ScriptStatus)
    (change : Entry → Option Entry) (owner : RuntimeId) (generation : Nat) :
    (¬Holds f owner generation ∧
      (ownerScript done change (toHex owner) (decimal generation) slot).1 = slot) ∨
    (Holds f owner generation ∧ ∃ current, slot.lease = some current ∧
      (ownerScript done change (toHex owner) (decimal generation) slot).1 =
        ⟨change current, slot.generation⟩) := by
  unfold ownerScript
  cases hf : f.holder with
  | none =>
      refine Or.inl ⟨?_, ?_⟩
      · rintro ⟨profile, hholder, _⟩
        rw [hf] at hholder
        cases hholder
      · rw [h.lease_of_vacant hf]
  | some holder =>
      rcases h.lease_of_held hf with ⟨entry, hentry, hvalue⟩
      rw [hentry]
      dsimp only
      rw [hvalue, matchLease_holderValue]
      dsimp only
      by_cases hmatch : toHex holder.1 = toHex owner ∧ luaToString f.counter = decimal generation
      · rcases (luaToString_eq_decimal_iff _ _).1 hmatch.2 with ⟨hgeneration, hsmall⟩
        refine Or.inr ⟨⟨holder.2, ?_, hgeneration.symm, hsmall⟩, entry, rfl, ?_⟩
        · rw [hf, ← toHex_injective hmatch.1]
        · rw [if_pos hmatch]
      · refine Or.inl ⟨?_, ?_⟩
        · rintro ⟨profile, hholder, hgeneration, hsmall⟩
          rw [hf] at hholder
          cases hholder
          exact hmatch ⟨rfl, (luaToString_eq_decimal_iff _ _).2 ⟨hgeneration.symm, hsmall⟩⟩
        · rw [if_neg hmatch]

theorem Represents.renewScript_spec (h : Represents slot f) (owner : RuntimeId) (generation ttl : Nat) :
    Represents (renewScript (toHex owner) (decimal generation) ttl slot).1 f := by
  unfold renewScript
  rcases h.ownerScript_cases .renewed (fun current => some ⟨current.value, some ttl⟩) owner generation with
    ⟨_, hsame⟩ | ⟨_, current, hcurrent, hrenewed⟩
  · rw [hsame]
    exact h
  · rw [hrenewed]
    refine ⟨h.generation, h.bound, ?_, h.positive⟩
    have hlease := h.lease
    rw [hcurrent] at hlease
    exact hlease

theorem Represents.releaseScript_spec (h : Represents slot f) (owner : RuntimeId) (generation : Nat) :
    ∃ g, Fence.Step f g ∧
      Represents (releaseScript (toHex owner) (decimal generation) slot).1 g := by
  unfold releaseScript
  rcases h.ownerScript_cases .released (fun _ => none) owner generation with
    ⟨_, hsame⟩ | ⟨_, current, hcurrent, hreleased⟩
  · rw [hsame]
    exact ⟨f, .stay f, h⟩
  · rw [hreleased]
    exact ⟨⟨f.counter, none⟩, .vacate f.counter f.holder,
      ⟨h.generation, h.bound, rfl, fun hne => absurd rfl hne⟩⟩

end Directory

end Tunnel
end Relay
end Maju
