import Maju.Lib.Decimal

/-!
# Evaluate — the git push policy

A push is a list of ref updates.  Each update is checked against the built-in minimum role for its
kind and against every protection rule whose pattern matches the ref; the push is allowed if all of
its updates are.

* `MemberRole`, `permissionLevel` — channel roles, which are repository roles;
* `RefPattern` — segments with wildcards, where `**` stands only at the end;
* `EffectiveRules.forRef` — the union of the matching rules;
* `evaluateRefUpdate`, `evaluatePush` — the policy, with its reasons for a denial.
-/

namespace Maju
namespace Core
namespace GitPerms

open Lib

/-! ## Roles -/

inductive MemberRole where
  | owner
  | admin
  | member
  | guest
  | bot
  deriving DecidableEq, Repr

namespace MemberRole

/-- `MemberRole::as_str`, which is also its display. -/
def asStr : MemberRole → String
  | .owner => "owner"
  | .admin => "admin"
  | .member => "member"
  | .guest => "guest"
  | .bot => "bot"

/-- `MemberRole::permission_level`. -/
def permissionLevel : MemberRole → Nat
  | .owner => 4
  | .admin => 3
  | .member => 2
  | .guest => 1
  | .bot => 0

/-- `MemberRole::has_at_least`. -/
def hasAtLeast (role required : MemberRole) : Bool :=
  decide (required.permissionLevel ≤ role.permissionLevel)

end MemberRole

/-! ## Patterns -/

inductive PatternSegment where
  | literal (text : List Char)
  | wildcard
  | recursiveWildcard
  deriving DecidableEq, Repr

/-- `RefPattern`: the recursive wildcard stands nowhere but at the end. -/
structure RefPattern where
  raw : String
  segments : List PatternSegment
  recursive_last : PatternSegment.recursiveWildcard ∉ segments.dropLast
  deriving DecidableEq

inductive PatternError where
  | empty
  | tooLong
  | missingRefsPrefix
  | invalidSegment (segment : List Char)
  | tooManyWildcards
  deriving DecidableEq, Repr

def maxPatternLength : Nat := 256
def maxWildcardsPerPattern : Nat := 3

/-- `char::is_ascii_alphanumeric() || c == '.' || c == '_' || c == '-'`. -/
def isPatternChar (c : Char) : Bool := c.isAlphanum || c = '.' || c = '_' || c = '-'

/-- The loop of `RefPattern::parse` over the parts, with the wildcards counted so far. -/
def parseSegments : Nat → List (List Char) → Except PatternError (List PatternSegment)
  | _, [] => .ok []
  | wildcards, part :: parts =>
      if part = ['*', '*'] then
        if parts ≠ [] then .error (.invalidSegment "** must be the last segment".toList)
        else if maxWildcardsPerPattern < wildcards + 1 then .error .tooManyWildcards
        else .ok [.recursiveWildcard]
      else if part = ['*'] then
        if maxWildcardsPerPattern < wildcards + 1 then .error .tooManyWildcards
        else (parseSegments (wildcards + 1) parts).map (PatternSegment.wildcard :: ·)
      else if part.isEmpty || !part.all isPatternChar then .error (.invalidSegment part)
      else (parseSegments wildcards parts).map (PatternSegment.literal part :: ·)

theorem recursive_last_parseSegments {wildcards : Nat} {parts : List (List Char)}
    {segments : List PatternSegment} (h : parseSegments wildcards parts = .ok segments) :
    PatternSegment.recursiveWildcard ∉ segments.dropLast := by
  induction parts generalizing wildcards segments with
  | nil =>
      obtain rfl := Except.ok.inj h
      simp
  | cons part parts ih =>
      have hcons : ∀ (n : Nat) (s : PatternSegment), s ≠ .recursiveWildcard →
          (parseSegments n parts).map (s :: ·) = .ok segments →
            PatternSegment.recursiveWildcard ∉ segments.dropLast := by
        intro n s hs hmap
        cases hrest : parseSegments n parts with
        | error e => simp [hrest, Except.map] at hmap
        | ok rest =>
            simp only [hrest, Except.map, Except.ok.injEq] at hmap
            have hnot := ih hrest
            subst hmap
            cases rest with
            | nil => simp
            | cons t rest =>
                simp only [List.dropLast_cons_cons, List.mem_cons, not_or]
                exact ⟨hs.symm, hnot⟩
      unfold parseSegments at h
      split at h
      · split at h
        · cases h
        · split at h
          · cases h
          · obtain rfl := Except.ok.inj h
            simp
      · split at h
        · split at h
          · cases h
          · exact hcons _ _ (by simp) h
        · split at h
          · cases h
          · exact hcons _ _ (by simp) h

namespace RefPattern

/-- `RefPattern::parse`. -/
def parse (pattern : String) : Except PatternError RefPattern :=
  if pattern.toList.isEmpty then .error .empty
  else if maxPatternLength < pattern.utf8ByteSize then .error .tooLong
  else if !"refs/".toList.isPrefixOf pattern.toList then .error .missingRefsPrefix
  else
    match h : parseSegments 0 (fields '/' pattern.toList) with
    | .error e => .error e
    | .ok segments => .ok ⟨pattern, segments, recursive_last_parseSegments h⟩

/-- One segment of a ref against one of a pattern before the recursive wildcard. -/
def segmentMatches : PatternSegment → List Char → Bool
  | .wildcard, _ => true
  | .literal text, segment => decide (text = segment)
  | .recursiveWildcard, _ => false

/-- `zip(..).all(..)`. -/
def zipMatches (pattern : List PatternSegment) (segments : List (List Char)) : Bool :=
  (pattern.zip segments).all fun e => segmentMatches e.1 e.2

/-- `RefPattern::matches`. -/
def matchesRef (p : RefPattern) (refName : String) : Bool :=
  let refSegments := fields '/' refName.toList
  if p.segments.getLast? = some .recursiveWildcard then
    let prefixLen := p.segments.length - 1
    if refSegments.length ≤ prefixLen then false
    else zipMatches (p.segments.take prefixLen) (refSegments.take prefixLen)
  else if refSegments.length ≠ p.segments.length then false
  else zipMatches p.segments refSegments

end RefPattern

/-! ## Updates and rules -/

inductive UpdateKind where
  | create
  | fastForward
  | nonFastForward
  | delete
  deriving DecidableEq, Repr

structure RefUpdate where
  refName : String
  kind : UpdateKind
  oldOid : String
  newOid : String
  deriving DecidableEq, Repr

structure ProtectionRule where
  pattern : RefPattern
  pushRole : Option MemberRole
  noForcePush : Bool
  noDelete : Bool
  requirePatch : Bool
  deriving DecidableEq

def defaultMinRole (refName : String) (kind : UpdateKind) : MemberRole :=
  let isBranch := "refs/heads/".toList.isPrefixOf refName.toList
  let isTag := "refs/tags/".toList.isPrefixOf refName.toList
  match kind with
  | .create => if isBranch || isTag then .member else .admin
  | .fastForward => if isBranch then .member else .admin
  | .nonFastForward => .admin
  | .delete => .admin

/-- The constraints of all rules that match a ref. -/
structure EffectiveRules where
  pushRole : Option MemberRole
  noForcePush : Bool
  noDelete : Bool
  requirePatch : Bool
  hasExplicitMatch : Bool
  deriving DecidableEq, Repr

namespace EffectiveRules

def none : EffectiveRules where
  pushRole := Option.none
  noForcePush := false
  noDelete := false
  requirePatch := false
  hasExplicitMatch := false

/-- The stricter of the role so far and the role of a rule. -/
def stricter (existing role : Option MemberRole) : Option MemberRole :=
  match role, existing with
  | Option.none, existing => existing
  | some role, Option.none => some role
  | some role, some existing =>
      if existing.permissionLevel < role.permissionLevel then some role else some existing

/-- One round of the loop of `EffectiveRules::for_ref`. -/
def add (refName : String) (e : EffectiveRules) (rule : ProtectionRule) : EffectiveRules :=
  if rule.pattern.matchesRef refName then
    { pushRole := stricter e.pushRole rule.pushRole
      noForcePush := e.noForcePush || rule.noForcePush
      noDelete := e.noDelete || rule.noDelete
      requirePatch := e.requirePatch || rule.requirePatch
      hasExplicitMatch := true }
  else e

/-- `EffectiveRules::for_ref`. -/
def forRef (refName : String) (rules : List ProtectionRule) : EffectiveRules :=
  rules.foldl (add refName) none

end EffectiveRules

/-! ## The policy -/

structure Denial where
  refName : String
  reason : String
  deriving DecidableEq, Repr

/-- The role that an update needs where a rule matches: an explicit role never weakens the
built-in one. -/
def minRole (explicit : Option MemberRole) (defaultRole : MemberRole) : MemberRole :=
  match explicit with
  | some explicit =>
      if defaultRole.permissionLevel ≤ explicit.permissionLevel then explicit else defaultRole
  | none => defaultRole

def evaluateRefUpdate (update : RefUpdate) (role : MemberRole) (rules : List ProtectionRule) :
    Except Denial Unit :=
  let effective := EffectiveRules.forRef update.refName rules
  let defaultRole := defaultMinRole update.refName update.kind
  if !effective.hasExplicitMatch then
    if !role.hasAtLeast defaultRole then
      .error ⟨update.refName, "requires " ++ defaultRole.asStr ++ " role (you have " ++ role.asStr ++
        "), using built-in defaults"⟩
    else .ok ()
  else if effective.requirePatch then
    .error ⟨update.refName,
      "direct push denied: require-patch is set, submit a NIP-34 patch"⟩
  else
    let required := minRole effective.pushRole defaultRole
    if !role.hasAtLeast required then
      .error ⟨update.refName,
        "requires " ++ required.asStr ++ " role (you have " ++ role.asStr ++ ")"⟩
    else if effective.noForcePush && decide (update.kind = .nonFastForward) then
      .error ⟨update.refName, "non-fast-forward update denied: no-force-push is set"⟩
    else if effective.noDelete && decide (update.kind = .delete) then
      .error ⟨update.refName, "ref deletion denied: no-delete is set"⟩
    else .ok ()

/-- `Result::err`. -/
def denial? (result : Except Denial Unit) : Option Denial :=
  match result with
  | .ok _ => none
  | .error d => some d

def evaluatePush (updates : List RefUpdate) (role : MemberRole) (rules : List ProtectionRule) :
    Except (List Denial) Unit :=
  let denials := updates.filterMap fun update => denial? (evaluateRefUpdate update role rules)
  if denials.isEmpty then .ok () else .error denials

end GitPerms
end Core
end Maju
