import Mathlib.Data.List.Induction
import Maju.Core.GitPerms.Evaluate

/-!
# Tighten — protection rules only restrict pushes

What a push needs can be said without the order of the rules and without the two branches of the
evaluator: the built-in minimum role, and the demands of every matching rule.

* `Permits` — that condition on one update;
* `evaluateRefUpdate_eq_ok` — the evaluator allows exactly the permitted updates;
* `forRef_congr` — the union of the rules depends on the set of rules only;
* `evaluate_push_tightens` — the policy is invariant under reordering and repetition of rules,
  antitone in the rules, monotone in the role and never below the built-in roles.
-/

namespace Maju
namespace Core
namespace GitPerms

open Lib

theorem MemberRole.permissionLevel_injective : Function.Injective MemberRole.permissionLevel := by
  intro a b h
  cases a <;> cases b <;> first | rfl | cases h

/-! ## The union of the rules -/

namespace EffectiveRules

variable {refName : String} {rules : List ProtectionRule}

def matching (refName : String) (rules : List ProtectionRule) : List ProtectionRule :=
  rules.filter fun rule => rule.pattern.matchesRef refName

/-- A role is the strictest that some rules name. -/
def Strictest (rules : List ProtectionRule) : Option MemberRole → Prop
  | Option.none => ∀ rule ∈ rules, rule.pushRole = Option.none
  | some role => (∃ rule ∈ rules, rule.pushRole = some role) ∧
      ∀ rule ∈ rules, ∀ other, rule.pushRole = some other →
        other.permissionLevel ≤ role.permissionLevel

theorem forRef_concat (refName : String) (rules : List ProtectionRule) (rule : ProtectionRule) :
    forRef refName (rules ++ [rule]) = add refName (forRef refName rules) rule := by
  rw [forRef, List.foldl_append]
  rfl

theorem matching_concat (refName : String) (rules : List ProtectionRule) (rule : ProtectionRule) :
    matching refName (rules ++ [rule]) =
      matching refName rules ++ if rule.pattern.matchesRef refName then [rule] else [] := by
  rw [matching, List.filter_append, List.filter_singleton, Bool.cond_eq_ite]
  rfl

theorem Strictest.add {role : Option MemberRole} (h : Strictest rules role)
    (rule : ProtectionRule) : Strictest (rules ++ [rule]) (stricter role rule.pushRole) := by
  cases hrule : rule.pushRole with
  | none =>
      cases role with
      | none =>
          intro r hr
          rcases List.mem_append.1 hr with hr | hr
          · exact h r hr
          · rw [List.mem_singleton.1 hr]
            exact hrule
      | some role =>
          obtain ⟨⟨r, hr, hrole⟩, hmax⟩ := h
          refine ⟨⟨r, List.mem_append_left _ hr, hrole⟩, ?_⟩
          intro r' hr' other hother
          rcases List.mem_append.1 hr' with hr' | hr'
          · exact hmax r' hr' other hother
          · rw [List.mem_singleton.1 hr', hrule] at hother
            cases hother
  | some new =>
      cases role with
      | none =>
          refine ⟨⟨rule, by simp, hrule⟩, ?_⟩
          intro r hr other hother
          rcases List.mem_append.1 hr with hr | hr
          · rw [h r hr] at hother
            cases hother
          · rw [List.mem_singleton.1 hr, hrule] at hother
            rw [Option.some.inj hother]
      | some role =>
          obtain ⟨⟨r, hr, hrole⟩, hmax⟩ := h
          unfold stricter
          dsimp only
          split
          · next hlt =>
              refine ⟨⟨rule, by simp, hrule⟩, ?_⟩
              intro r' hr' other hother
              rcases List.mem_append.1 hr' with hr' | hr'
              · exact (hmax r' hr' other hother).trans hlt.le
              · rw [List.mem_singleton.1 hr', hrule] at hother
                rw [Option.some.inj hother]
          · next hle =>
              refine ⟨⟨r, List.mem_append_left _ hr, hrole⟩, ?_⟩
              intro r' hr' other hother
              rcases List.mem_append.1 hr' with hr' | hr'
              · exact hmax r' hr' other hother
              · rw [List.mem_singleton.1 hr', hrule] at hother
                rw [← Option.some.inj hother]
                exact Nat.le_of_not_lt hle

/-- What the loop computes of the matching rules. -/
structure Union (rules : List ProtectionRule) (e : EffectiveRules) : Prop where
  pushRole : Strictest rules e.pushRole
  noForcePush : e.noForcePush = rules.any fun rule => rule.noForcePush
  noDelete : e.noDelete = rules.any fun rule => rule.noDelete
  requirePatch : e.requirePatch = rules.any fun rule => rule.requirePatch
  hasExplicitMatch : e.hasExplicitMatch = !rules.isEmpty

theorem union_forRef (refName : String) (rules : List ProtectionRule) :
    Union (matching refName rules) (forRef refName rules) := by
  induction rules using List.reverseRecOn with
  | nil =>
      refine ⟨?_, rfl, rfl, rfl, rfl⟩
      intro rule hrule
      cases hrule
  | append_singleton rules rule ih =>
      rw [forRef_concat, matching_concat, EffectiveRules.add]
      by_cases hmatch : rule.pattern.matchesRef refName = true
      · rw [if_pos hmatch, if_pos hmatch]
        refine ⟨ih.pushRole.add rule, ?_, ?_, ?_, ?_⟩
        · simp [ih.noForcePush]
        · simp [ih.noDelete]
        · simp [ih.requirePatch]
        · simp
      · rw [if_neg hmatch, if_neg hmatch, List.append_nil]
        exact ih

theorem Strictest.unique {a b : Option MemberRole} {rules' : List ProtectionRule}
    (hmem : ∀ rule, rule ∈ rules ↔ rule ∈ rules') (ha : Strictest rules a)
    (hb : Strictest rules' b) : a = b := by
  cases a with
  | none =>
      cases b with
      | none => rfl
      | some b =>
          obtain ⟨⟨r, hr, hrole⟩, -⟩ := hb
          have hnone := ha r ((hmem r).2 hr)
          rw [hnone] at hrole
          cases hrole
  | some a =>
      obtain ⟨⟨r, hr, hrole⟩, hmax⟩ := ha
      cases b with
      | none =>
          have hnone := hb r ((hmem r).1 hr)
          rw [hnone] at hrole
          cases hrole
      | some b =>
          obtain ⟨⟨r', hr', hrole'⟩, hmax'⟩ := hb
          have hle := hmax' r ((hmem r).1 hr) a hrole
          have hge := hmax r' ((hmem r').2 hr') b hrole'
          rw [MemberRole.permissionLevel_injective (Nat.le_antisymm hle hge)]

/-- The effective rules depend on the set of rules only. -/
theorem forRef_congr {rules' : List ProtectionRule} (hmem : ∀ rule, rule ∈ rules ↔ rule ∈ rules')
    (refName : String) : forRef refName rules = forRef refName rules' := by
  have hmatching : ∀ rule, rule ∈ matching refName rules ↔ rule ∈ matching refName rules' := by
    intro rule
    rw [matching, matching, List.mem_filter, List.mem_filter, hmem rule]
  have hany : ∀ p : ProtectionRule → Bool,
      (matching refName rules).any p = (matching refName rules').any p := by
    intro p
    rw [Bool.eq_iff_iff, List.any_eq_true, List.any_eq_true]
    constructor
    · rintro ⟨rule, hrule, hp⟩
      exact ⟨rule, (hmatching rule).1 hrule, hp⟩
    · rintro ⟨rule, hrule, hp⟩
      exact ⟨rule, (hmatching rule).2 hrule, hp⟩
  have hempty : (matching refName rules).isEmpty = (matching refName rules').isEmpty := by
    rw [Bool.eq_iff_iff, List.isEmpty_iff, List.isEmpty_iff]
    constructor
    · intro hnil
      exact List.eq_nil_iff_forall_not_mem.2 fun rule hrule => by
        simpa [hnil] using (hmatching rule).2 hrule
    · intro hnil
      exact List.eq_nil_iff_forall_not_mem.2 fun rule hrule => by
        simpa [hnil] using (hmatching rule).1 hrule
  have h := union_forRef refName rules
  have h' := union_forRef refName rules'
  have hrole := h.pushRole.unique hmatching h'.pushRole
  calc forRef refName rules
      = ⟨(forRef refName rules).pushRole, (forRef refName rules).noForcePush,
          (forRef refName rules).noDelete, (forRef refName rules).requirePatch,
          (forRef refName rules).hasExplicitMatch⟩ := rfl
    _ = ⟨(forRef refName rules').pushRole, (forRef refName rules').noForcePush,
          (forRef refName rules').noDelete, (forRef refName rules').requirePatch,
          (forRef refName rules').hasExplicitMatch⟩ := by
        rw [hrole, h.noForcePush, h'.noForcePush, h.noDelete, h'.noDelete, h.requirePatch,
          h'.requirePatch, h.hasExplicitMatch, h'.hasExplicitMatch, hany, hany, hany, hempty]
    _ = forRef refName rules' := rfl

end EffectiveRules

/-! ## What an update needs -/

/-- The demands of one rule on an update that it matches. -/
structure RulePermits (rule : ProtectionRule) (role : MemberRole) (kind : UpdateKind) : Prop where
  pushRole : ∀ required, rule.pushRole = some required → role.hasAtLeast required = true
  noForcePush : rule.noForcePush = true → kind ≠ .nonFastForward
  noDelete : rule.noDelete = true → kind ≠ .delete
  requirePatch : rule.requirePatch = false

/-- The role meets the built-in minimum, and every matching rule permits the update. -/
structure Permits (update : RefUpdate) (role : MemberRole) (rules : List ProtectionRule) :
    Prop where
  default : role.hasAtLeast (defaultMinRole update.refName update.kind) = true
  rules : ∀ rule ∈ rules, rule.pattern.matchesRef update.refName = true →
    RulePermits rule role update.kind

theorem hasAtLeast_trans {role role' required : MemberRole}
    (hle : role.permissionLevel ≤ role'.permissionLevel)
    (h : role.hasAtLeast required = true) : role'.hasAtLeast required = true := by
  simp only [MemberRole.hasAtLeast, decide_eq_true_eq] at h ⊢
  exact h.trans hle

theorem hasAtLeast_higher {role a b : MemberRole} :
    role.hasAtLeast (if b.permissionLevel ≤ a.permissionLevel then a else b) = true ↔
      role.hasAtLeast b = true ∧ role.hasAtLeast a = true := by
  simp only [MemberRole.hasAtLeast, decide_eq_true_eq]
  split <;> omega

theorem hasAtLeast_strictest {rules : List ProtectionRule} {role strictest : MemberRole}
    (h : EffectiveRules.Strictest rules (some strictest)) :
    role.hasAtLeast strictest = true ↔
      ∀ rule ∈ rules, ∀ required, rule.pushRole = some required →
        role.hasAtLeast required = true := by
  obtain ⟨⟨r, hr, hrole⟩, hmax⟩ := h
  constructor
  · intro hmeets rule hrule required hrequired
    have hle := hmax rule hrule required hrequired
    simp only [MemberRole.hasAtLeast, decide_eq_true_eq] at hmeets ⊢
    exact hle.trans hmeets
  · intro hall
    exact hall r hr strictest hrole

theorem hasAtLeast_minRole {rules : List ProtectionRule} {role defaultRole : MemberRole}
    {explicit : Option MemberRole} (h : EffectiveRules.Strictest rules explicit) :
    role.hasAtLeast (minRole explicit defaultRole) = true ↔
      role.hasAtLeast defaultRole = true ∧
        ∀ rule ∈ rules, ∀ required, rule.pushRole = some required →
          role.hasAtLeast required = true := by
  cases explicit with
  | none =>
      refine ⟨fun hmeets => ⟨hmeets, ?_⟩, fun hall => hall.1⟩
      intro rule hrule required hrequired
      rw [h rule hrule] at hrequired
      cases hrequired
  | some explicit =>
      rw [← hasAtLeast_strictest h]
      exact hasAtLeast_higher

theorem evaluateRefUpdate_eq_ok_iff {update : RefUpdate} {role : MemberRole}
    {rules : List ProtectionRule} :
    evaluateRefUpdate update role rules = .ok () ↔
      let effective := EffectiveRules.forRef update.refName rules
      let defaultRole := defaultMinRole update.refName update.kind
      (effective.hasExplicitMatch = false ∧ role.hasAtLeast defaultRole = true) ∨
        (effective.hasExplicitMatch = true ∧ effective.requirePatch = false ∧
          role.hasAtLeast (minRole effective.pushRole defaultRole) = true ∧
          (effective.noForcePush = true → update.kind ≠ .nonFastForward) ∧
          (effective.noDelete = true → update.kind ≠ .delete)) := by
  unfold evaluateRefUpdate
  dsimp only
  generalize EffectiveRules.forRef update.refName rules = effective
  generalize defaultMinRole update.refName update.kind = defaultRole
  cases hexplicit : effective.hasExplicitMatch with
  | false => cases role.hasAtLeast defaultRole <;> simp
  | true =>
      cases hpatch : effective.requirePatch with
      | true => simp
      | false =>
          cases role.hasAtLeast (minRole effective.pushRole defaultRole) with
          | false => simp
          | true =>
              cases effective.noForcePush <;> cases effective.noDelete <;>
                cases update.kind <;> simp

/-- The evaluator allows an update exactly if it is permitted. -/
theorem evaluateRefUpdate_eq_ok {update : RefUpdate} {role : MemberRole}
    {rules : List ProtectionRule} :
    evaluateRefUpdate update role rules = .ok () ↔ Permits update role rules := by
  have hunion := EffectiveRules.union_forRef update.refName rules
  have hmatching : ∀ rule, rule ∈ EffectiveRules.matching update.refName rules ↔
      rule ∈ rules ∧ rule.pattern.matchesRef update.refName = true :=
    fun rule => List.mem_filter
  rw [evaluateRefUpdate_eq_ok_iff]
  dsimp only
  rw [hasAtLeast_minRole hunion.pushRole, hunion.requirePatch, hunion.noForcePush,
    hunion.noDelete, hunion.hasExplicitMatch]
  constructor
  · rintro (⟨hnone, hrole⟩ | ⟨-, hpatch, ⟨hrole, hroles⟩, hforce, hdelete⟩)
    · refine ⟨hrole, ?_⟩
      intro rule hrule hmatch
      have hmem := (hmatching rule).2 ⟨hrule, hmatch⟩
      simp only [Bool.not_eq_false', List.isEmpty_iff] at hnone
      rw [hnone] at hmem
      cases hmem
    · refine ⟨hrole, ?_⟩
      intro rule hrule hmatch
      have hmem := (hmatching rule).2 ⟨hrule, hmatch⟩
      refine ⟨hroles rule hmem, ?_, ?_, ?_⟩
      · intro hset
        exact hforce (List.any_eq_true.2 ⟨rule, hmem, hset⟩)
      · intro hset
        exact hdelete (List.any_eq_true.2 ⟨rule, hmem, hset⟩)
      · simpa using List.any_eq_false.1 hpatch rule hmem
  · intro hpermits
    have hrules : ∀ rule ∈ EffectiveRules.matching update.refName rules,
        RulePermits rule role update.kind := by
      intro rule hrule
      obtain ⟨hrule, hmatch⟩ := (hmatching rule).1 hrule
      exact hpermits.rules rule hrule hmatch
    cases hempty : (EffectiveRules.matching update.refName rules).isEmpty with
    | true => exact Or.inl ⟨rfl, hpermits.default⟩
    | false =>
        refine Or.inr ⟨rfl, ?_, ⟨hpermits.default, fun rule hrule => (hrules rule hrule).pushRole⟩,
          ?_, ?_⟩
        · apply List.any_eq_false.2
          intro rule hrule
          simp [(hrules rule hrule).requirePatch]
        · intro hset
          obtain ⟨rule, hrule, hset⟩ := List.any_eq_true.1 hset
          exact (hrules rule hrule).noForcePush hset
        · intro hset
          obtain ⟨rule, hrule, hset⟩ := List.any_eq_true.1 hset
          exact (hrules rule hrule).noDelete hset

/-! ## Monotonicity -/

theorem RulePermits.mono {rule : ProtectionRule} {role role' : MemberRole} {kind : UpdateKind}
    (h : RulePermits rule role kind) (hle : role.permissionLevel ≤ role'.permissionLevel) :
    RulePermits rule role' kind :=
  { h with pushRole := fun required hr => hasAtLeast_trans hle (h.pushRole required hr) }

theorem Permits.mono {update : RefUpdate} {role role' : MemberRole} {rules : List ProtectionRule}
    (h : Permits update role rules) (hle : role.permissionLevel ≤ role'.permissionLevel) :
    Permits update role' rules where
  default := hasAtLeast_trans hle h.default
  rules := fun rule hrule hmatch => (h.rules rule hrule hmatch).mono hle

theorem Permits.of_subset {update : RefUpdate} {role : MemberRole}
    {rules rules' : List ProtectionRule} (h : Permits update role rules') (hsub : rules ⊆ rules') :
    Permits update role rules where
  default := h.default
  rules := fun rule hrule hmatch => h.rules rule (hsub hrule) hmatch

theorem evaluatePush_eq_ok {updates : List RefUpdate} {role : MemberRole}
    {rules : List ProtectionRule} :
    evaluatePush updates role rules = .ok () ↔ ∀ update ∈ updates, Permits update role rules := by
  unfold evaluatePush
  dsimp only
  have hdenial : ∀ update, denial? (evaluateRefUpdate update role rules) = none ↔
      Permits update role rules := by
    intro update
    rw [← evaluateRefUpdate_eq_ok]
    cases evaluateRefUpdate update role rules with
    | ok u => simp [denial?]
    | error d => simp [denial?]
  constructor
  · intro hok update hupdate
    split at hok
    · next hempty =>
        rw [List.isEmpty_iff, List.filterMap_eq_nil_iff] at hempty
        exact (hdenial update).1 (hempty update hupdate)
    · cases hok
  · intro hall
    rw [if_pos]
    rw [List.isEmpty_iff, List.filterMap_eq_nil_iff]
    exact fun update hupdate => (hdenial update).2 (hall update hupdate)

theorem evaluatePush_congr {rules rules' : List ProtectionRule}
    (hmem : ∀ rule, rule ∈ rules ↔ rule ∈ rules') (updates : List RefUpdate) (role : MemberRole) :
    evaluatePush updates role rules = evaluatePush updates role rules' := by
  have heval : ∀ update, evaluateRefUpdate update role rules =
      evaluateRefUpdate update role rules' := by
    intro update
    unfold evaluateRefUpdate
    rw [EffectiveRules.forRef_congr hmem]
  unfold evaluatePush
  simp only [heval]

/-- For every push, role and list of rules: reordering and repeating rules changes nothing of the
result, a push that is allowed under more rules is allowed under fewer, a push that is allowed to a
role is allowed to every role of at least its level, and an allowed push meets the built-in minimum
role of each of its updates. -/
theorem evaluate_push_tightens (updates : List RefUpdate) (role : MemberRole)
    (rules : List ProtectionRule) :
    (∀ rules' : List ProtectionRule, (∀ rule, rule ∈ rules ↔ rule ∈ rules') →
      evaluatePush updates role rules' = evaluatePush updates role rules) ∧
    (∀ rules' : List ProtectionRule, rules ⊆ rules' →
      evaluatePush updates role rules' = .ok () → evaluatePush updates role rules = .ok ()) ∧
    (∀ role' : MemberRole, role.permissionLevel ≤ role'.permissionLevel →
      evaluatePush updates role rules = .ok () → evaluatePush updates role' rules = .ok ()) ∧
    (evaluatePush updates role rules = .ok () →
      ∀ update ∈ updates,
        role.hasAtLeast (defaultMinRole update.refName update.kind) = true) := by
  refine ⟨?_, ?_, ?_, ?_⟩
  · intro rules' hmem
    exact (evaluatePush_congr hmem updates role).symm
  · intro rules' hsub hok
    rw [evaluatePush_eq_ok] at hok ⊢
    exact fun update hupdate => (hok update hupdate).of_subset hsub
  · intro role' hle hok
    rw [evaluatePush_eq_ok] at hok ⊢
    exact fun update hupdate => (hok update hupdate).mono hle
  · intro hok update hupdate
    exact (evaluatePush_eq_ok.1 hok update hupdate).default

end GitPerms
end Core
end Maju
