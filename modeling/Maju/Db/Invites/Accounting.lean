import Maju.Db.Invites.Redemption

/-!
# Accounting — what redemption adds to the use counts and to the members

* `Accounted` — a claim inserted a membership exactly if it returned `Joined`, a use count is the
  number of memberships that its invite inserted and stays within the limit, and a membership is
  in the community of its invite;
* `Consumes` — the one step that changes a use count: it adds one to the locked row, one membership
  that was not there, and returns `Joined`;
* `invite_redemption` — every run is accounted for, and no other step of a claim touches a use
  count or a membership.
-/

namespace Maju
namespace Db
namespace Invites

open Lib Core

/-! ## The accounts -/

/-- Admissions are counted by the rows, which are different invites, each of the community that it
was minted for, and so is a membership. -/
structure Accounted (s : State) : Prop where
  matched : ∀ i, s.admissions.countP (·.tx = i) = if (s.txs[i]?).any Tx.joined then 1 else 0
  counted : ∀ r ∈ s.invites, r.useCount = s.admissions.countP (·.invite = r.serial)
  bounded : ∀ r ∈ s.invites, ∀ limit ∈ r.maxUses, r.useCount ≤ limit
  serials : (s.invites.map Invite.serial).Nodup
  minted : ∀ r ∈ s.invites, s.minted[r.serial]? = some r.community
  tenant : ∀ a ∈ s.admissions, s.minted[a.invite]? = some a.community

/-- No use count and no membership changes. -/
structure Untouched (s s' : State) : Prop where
  invites : s'.invites = s.invites
  members : s'.members = s.members
  admissions : s'.admissions = s.admissions

/-- The claim `t`, the transaction `i`, uses up one of the uses of an invite. -/
structure Consumes (s s' : State) (i : Nat) (t : Tx) (row : Invite) : Prop where
  mem : row ∈ s.invites
  community : row.community = t.claim.community
  tokenHash : row.tokenHash = t.claim.tokenHash
  vacant : t.claim.key ∉ s.members
  invites : s'.invites = setUseCount s.invites row.key (row.useCount + 1)
  members : s'.members = t.claim.key :: s.members
  admissions :
    s'.admissions = s.admissions ++ [⟨i, row.serial, t.claim.community, t.claim.claimer⟩]
  outcome : (s'.txs[i]?).map Tx.stage =
    some (.returned (.joined (row.useCount + 1) (row.usesRemaining (row.useCount + 1))))

/-- What a step may do to the use counts and the memberships on behalf of a claim. -/
def Conserves (s : State) : Input → Prop
  | .advance i now => ∀ t, s.txs[i]? = some t →
      (t.joined = false ∧ ∃ row, Consumes s (s.step (.advance i now)) i t row) ∨
        (Untouched s (s.step (.advance i now)) ∧
          ((s.step (.advance i now)).txs[i]?).any Tx.joined = t.joined)
  | .fail i => Untouched s (s.step (.fail i))
  | _ => True

/-! ## Transactions in progress -/

/-- What a transaction has written at its stage. -/
def Tx.Fits (t : Tx) : Prop :=
  match t.stage with
  | .resolved _ inserted =>
      t.writes.member = (if inserted then some t.claim.key else none) ∧ t.writes.useCount = none
  | .recorded _ inserted =>
      t.writes.member = (if inserted then some t.claim.key else none) ∧ t.writes.useCount = none
  | .counted row count =>
      t.writes.member = some t.claim.key ∧
        t.writes.useCount = some ((t.claim.community, row.id), count) ∧
        count = row.useCount + 1 ∧ (∀ limit ∈ row.maxUses, count ≤ limit) ∧ count < 2 ^ 31
  | _ => t.writes = {}

/-- The locked row is still as it was read, and the membership to be inserted is still missing. -/
structure Tx.Sound (invites : List Invite) (members : List (CommunityId × Text)) (t : Tx) :
    Prop where
  fits : t.Fits
  row : ∀ row, t.invite = some row →
    row ∈ invites ∧ row.community = t.claim.community ∧ row.tokenHash = t.claim.tokenHash
  fresh : ∀ key, t.writes.member = some key → key ∉ members

/-- Both transactions have locked one row. -/
def Tx.SharesLock (t u : Tx) : Prop :=
  ∃ row row', t.invite = some row ∧ u.invite = some row' ∧ row.key = row'.key

/-- Both transactions are inserting one membership. -/
def Tx.SharesKey (t u : Tx) : Prop :=
  ∃ key, t.writes.member = some key ∧ u.writes.member = some key

theorem Tx.SharesLock.symm (t u : Tx) : t.SharesLock u → u.SharesLock t := by
  rintro ⟨row, row', hrow, hrow', hsame⟩
  exact ⟨row', row, hrow', hrow, hsame.symm⟩

theorem Tx.SharesKey.symm (t u : Tx) : t.SharesKey u → u.SharesKey t := by
  rintro ⟨key, ht, hu⟩
  exact ⟨key, hu, ht⟩

/-- A row is locked, and a membership inserted, by one transaction at a time. -/
structure Inv (s : State) : Prop where
  accounted : Accounted s
  keys : (s.invites.map Invite.key).Nodup
  small : ∀ r ∈ s.invites, r.useCount < 2 ^ 31
  limits : ∀ m ∈ s.minting, ∀ limit ∈ m.maxUses, 0 ≤ limit
  sound : ∀ t ∈ s.txs, t.Sound s.invites s.members
  locks : Slots.Exclusive Tx.SharesLock s.txs
  pending : Slots.Exclusive Tx.SharesKey s.txs

theorem inv_empty : Inv State.empty where
  accounted :=
    { matched := fun _ => rfl
      counted := fun _ hr => nomatch hr
      bounded := fun _ hr => nomatch hr
      serials := .nil
      minted := fun _ hr => nomatch hr
      tenant := fun _ ha => nomatch ha }
  keys := .nil
  small := fun _ hr => nomatch hr
  limits := fun _ hm => nomatch hm
  sound := fun _ ht => nomatch ht
  locks := .nil
  pending := .nil

/-! ## One transaction moves -/

/-- The transaction `t'` may stand where `t` stood: new locks and new keys are free. -/
structure Follows (s : State) (t t' : Tx) : Prop where
  sound : t'.Sound s.invites s.members
  lock : ∀ row, t'.invite = some row → t.invite = some row ∨ ∀ u ∈ s.txs, u.holds row = false
  key : ∀ key, t'.writes.member = some key →
    t.writes.member = some key ∨ ∀ u ∈ s.txs, u.writes.member ≠ some key
  joined : t'.joined = t.joined

theorem Tx.holds_eq_false {t : Tx} {row row' : Invite} (h : t.holds row' = false)
    (hrow : t.invite = some row) : row.key ≠ row'.key := by
  simpa [holds, hrow] using h

theorem any_joined_set {txs : List Tx} {i : Nat} {t t' : Tx} (ht : txs[i]? = some t)
    (hjoined : t'.joined = t.joined) (j : Nat) :
    ((txs.set i t')[j]?).any Tx.joined = (txs[j]?).any Tx.joined := by
  rw [List.getElem?_set]
  split
  next hij =>
    subst hij
    obtain ⟨hlt, rfl⟩ := List.getElem?_eq_some_iff.mp ht
    simp [hlt, hjoined]
  next => rfl

theorem Inv.setTx {s : State} {i : Nat} {t t' : Tx} (h : Inv s) (ht : s.txs[i]? = some t)
    (hnext : Follows s t t') : Inv (s.setTx i t') where
  accounted :=
    { h.accounted with
      matched := fun j => by
        rw [State.setTx, any_joined_set ht hnext.joined]
        exact h.accounted.matched j }
  keys := h.keys
  small := h.small
  limits := h.limits
  sound := by
    intro u hu
    rcases List.mem_or_eq_of_mem_set hu with hold | rfl
    · exact h.sound u hold
    · exact hnext.sound
  locks := by
    refine h.locks.set Tx.SharesLock.symm ?_
    -- A new lock was free in every transaction, so it agrees with no old one.
    rintro j u hu ⟨row, row', hrow, hrow', hsame⟩
    rcases hnext.lock row' hrow' with hold | hnew
    · exact h.locks j i u t hu ht ⟨row, row', hrow, hold, hsame⟩
    · exact absurd hsame (Tx.holds_eq_false (hnew u (List.mem_of_getElem? hu)) hrow)
  pending := by
    refine h.pending.set Tx.SharesKey.symm ?_
    rintro j u hu ⟨key, hkey, hkey'⟩
    rcases hnext.key key hkey' with hold | hnew
    · exact h.pending j i u t hu ht ⟨key, hkey, hold⟩
    · exact absurd hkey (hnew u (List.mem_of_getElem? hu))

theorem Follows.ended {s : State} {t : Tx} {stage : Stage}
    (hended : (⟨t.claim, stage, {}⟩ : Tx).running = false)
    (hjoined : (⟨t.claim, stage, {}⟩ : Tx).joined = t.joined) : Follows s t ⟨t.claim, stage, {}⟩ := by
  have hinvite : (⟨t.claim, stage, {}⟩ : Tx).invite = none := by
    cases stage <;> first | rfl | exact nomatch hended
  have hfits : (⟨t.claim, stage, {}⟩ : Tx).Fits := by
    cases stage <;> first | rfl | exact nomatch hended
  exact
    { sound := ⟨hfits, fun row hrow => (nomatch hinvite.symm.trans hrow), fun key hkey => (nomatch hkey)⟩
      lock := fun row hrow => (nomatch hinvite.symm.trans hrow)
      key := fun key hkey => (nomatch hkey)
      joined := hjoined }

/-! ## Statements -/

theorem nextUseCount_eq {r : Invite} (hnonneg : 0 ≤ r.useCount) (hsmall : r.useCount < 2 ^ 31)
    (hallowed : useCountAllowed r (nextUseCount r.useCount) = true) :
    nextUseCount r.useCount = r.useCount + 1 ∧
      (∀ limit ∈ r.maxUses, nextUseCount r.useCount ≤ limit) ∧ nextUseCount r.useCount < 2 ^ 31 := by
  simp only [useCountAllowed, Bool.and_eq_true, decide_eq_true_eq] at hallowed
  obtain ⟨hpos, hlimit⟩ := hallowed
  have hbmod : nextUseCount r.useCount = r.useCount + 1 ∧ nextUseCount r.useCount < 2 ^ 31 := by
    unfold nextUseCount at hpos ⊢
    rw [Int.bmod_def] at hpos ⊢
    split at hpos
    next hlt =>
      rw [if_pos hlt]
      omega
    next => omega
  refine ⟨hbmod.1, ?_, hbmod.2⟩
  intro limit hmem
  rw [Option.mem_def.mp hmem] at hlimit
  simpa using hlimit

theorem Tx.follows_of_next {s : State} {t : Tx} {now : Int} {stage : Stage} {writes : Writes}
    (ht : t.Sound s.invites s.members) (hnonneg : ∀ r ∈ s.invites, 0 ≤ r.useCount)
    (hsmall : ∀ r ∈ s.invites, r.useCount < 2 ^ 31) (h : t.move s now = .next stage writes) :
    Follows s t ⟨t.claim, stage, writes⟩ := by
  have hfits := ht.fits
  -- Most statements keep the locked row and the inserted key.
  have hkeep (row : Invite) (hrow : t.invite = some row)
      (hinvite : (⟨t.claim, stage, writes⟩ : Tx).invite = some row)
      (hmember : writes.member = t.writes.member) (hfits : (⟨t.claim, stage, writes⟩ : Tx).Fits)
      (hjoined : (⟨t.claim, stage, writes⟩ : Tx).joined = t.joined) :
      Follows s t ⟨t.claim, stage, writes⟩ :=
    { sound :=
        { fits := hfits
          row := fun row' hrow' => ht.row row' (hrow.trans (hinvite.symm.trans hrow'))
          fresh := fun key hkey => ht.fresh key (hmember.symm.trans hkey) }
      lock := fun row' hrow' => Or.inl (hrow.trans (hinvite.symm.trans hrow'))
      key := fun key hkey => Or.inl (hmember.symm.trans hkey)
      joined := hjoined }
  unfold Tx.Fits at hfits
  unfold Tx.move at h
  cases hstage : t.stage with
  | started =>
      simp only [hstage] at h hfits
      split at h
      next => exact nomatch h
      next row hfind =>
        split at h
        next => exact nomatch h
        next hfree =>
          obtain ⟨rfl, rfl⟩ := Move.next.inj h
          have hmatch := List.find?_some hfind
          simp only [Bool.and_eq_true, decide_eq_true_eq] at hmatch
          simp only [List.any_eq_true, not_exists, not_and, Bool.not_eq_true] at hfree
          refine ⟨⟨hfits, ?_, ht.fresh⟩, ?_, fun key hkey => Or.inl hkey, ?_⟩
          · intro row' hrow'
            obtain rfl : row = row' := Option.some.inj hrow'
            exact ⟨List.mem_of_find?_eq_some hfind, hmatch.1, hmatch.2⟩
          · intro row' hrow'
            obtain rfl : row = row' := Option.some.inj hrow'
            exact Or.inr hfree
          · simp [joined, hstage]
  | locked row =>
      simp only [hstage] at h hfits
      have hrow : t.invite = some row := by simp [invite, hstage]
      split at h
      next => exact nomatch h
      next =>
        split at h
        next =>
          obtain ⟨rfl, rfl⟩ := Move.next.inj h
          exact hkeep row hrow rfl rfl (by simp [Fits, hfits]) (by simp [joined, hstage])
        next =>
          obtain ⟨rfl, rfl⟩ := Move.next.inj h
          exact hkeep row hrow rfl rfl hfits (by simp [joined, hstage])
  | vacant row =>
      simp only [hstage] at h hfits
      have hrow : t.invite = some row := by simp [invite, hstage]
      split at h
      next => exact nomatch h
      next =>
        split at h
        next => exact nomatch h
        next hfree =>
          split at h
          next =>
            obtain ⟨rfl, rfl⟩ := Move.next.inj h
            exact hkeep row hrow rfl rfl (by simp [Fits, hfits]) (by simp [joined, hstage])
          next hvacant =>
            obtain ⟨rfl, rfl⟩ := Move.next.inj h
            simp only [List.any_eq_true, decide_eq_true_eq, not_exists, not_and] at hfree
            refine ⟨⟨by simp [Fits, hfits], fun row' hrow' => ht.row row' (hrow.trans hrow'), ?_⟩,
              fun row' hrow' => Or.inl (hrow.trans hrow'), ?_, by simp [joined, hstage]⟩
            · intro key hkey
              obtain rfl : t.claim.key = key := Option.some.inj hkey
              exact hvacant
            · intro key hkey
              obtain rfl : t.claim.key = key := Option.some.inj hkey
              exact Or.inr hfree
  | resolved row inserted =>
      simp only [hstage] at h hfits
      have hrow : t.invite = some row := by simp [invite, hstage]
      split at h
      next =>
        obtain ⟨rfl, rfl⟩ := Move.next.inj h
        exact hkeep row hrow rfl rfl hfits (by simp [joined, hstage])
      next version =>
        split at h
        next => exact nomatch h
        next =>
          split at h
          next => exact nomatch h
          next =>
            split at h
            next =>
              obtain ⟨rfl, rfl⟩ := Move.next.inj h
              exact hkeep row hrow rfl rfl hfits (by simp [joined, hstage])
            next =>
              split at h
              next =>
                obtain ⟨rfl, rfl⟩ := Move.next.inj h
                exact hkeep row hrow rfl rfl hfits (by simp [joined, hstage])
              next => exact nomatch h
  | recorded row inserted =>
      simp only [hstage] at h hfits
      have hrow : t.invite = some row := by simp [invite, hstage]
      have hmem : row ∈ s.invites := (ht.row row hrow).1
      split at h
      next hinserted =>
        subst hinserted
        split at h
        next hallowed =>
          obtain ⟨rfl, rfl⟩ := Move.next.inj h
          have hcount := nextUseCount_eq (hnonneg row hmem) (hsmall row hmem) hallowed
          exact hkeep row hrow rfl rfl ⟨hfits.1, rfl, hcount⟩ (by simp [joined, hstage])
        next => exact nomatch h
      next => exact nomatch h
  | counted row count => simp [hstage] at h
  | returned outcome => simp [hstage] at h
  | failed => simp [hstage] at h

theorem Tx.follows_of_rollback {s : State} {t : Tx} {now : Int} {stage : Stage}
    (h : t.move s now = .rollback stage) : Follows s t ⟨t.claim, stage, {}⟩ := by
  have hstages : (stage = .failed ∨ stage = .returned .invalid ∨ stage = .returned .expired ∨
      stage = .returned .exhausted) ∧ t.running = true := by
    unfold Tx.move at h
    unfold running
    cases hstage : t.stage <;> simp only [hstage] at h ⊢ <;> grind
  have hjoined : t.joined = false := by
    have hrunning := hstages.2
    unfold running at hrunning
    unfold joined
    cases hstage : t.stage <;> simp_all
  refine .ended ?_ ?_
  · rcases hstages.1 with rfl | rfl | rfl | rfl <;> rfl
  · rw [hjoined]
    rcases hstages.1 with rfl | rfl | rfl | rfl <;> rfl

theorem Tx.commit_cases {s : State} {t : Tx} {now : Int} {outcome : ClaimOutcome}
    (h : t.move s now = .commit outcome) :
    (∃ row, t.stage = .recorded row false ∧
      outcome = .alreadyMember row.useCount (row.usesRemaining row.useCount)) ∨
    ∃ row count, t.stage = .counted row count ∧
      outcome = .joined count (row.usesRemaining count) := by
  unfold Tx.move at h
  cases hstage : t.stage with
  | recorded row inserted =>
      simp only [hstage] at h
      cases inserted with
      | true =>
          simp only [if_true] at h
          split at h <;> exact nomatch h
      | false => exact Or.inl ⟨row, rfl, (Move.commit.inj h).symm⟩
  | counted row count =>
      simp only [hstage] at h
      exact Or.inr ⟨row, count, rfl, (Move.commit.inj h).symm⟩
  | started => simp only [hstage] at h; grind
  | locked row => simp only [hstage] at h; grind
  | vacant row => simp only [hstage] at h; grind
  | resolved row inserted => simp only [hstage] at h; grind
  | returned outcome => simp [hstage] at h
  | failed => simp [hstage] at h

/-! ## Commits -/

theorem mem_setUseCount {invites : List Invite} {key : CommunityId × Uuid} {count : Int}
    {r : Invite} : r ∈ setUseCount invites key count ↔
      (r ∈ invites ∧ r.key ≠ key) ∨
        ∃ old ∈ invites, old.key = key ∧ r = { old with useCount := count } := by
  unfold setUseCount
  rw [List.mem_map]
  constructor
  · rintro ⟨old, hold, rfl⟩
    split
    next hkey => exact Or.inr ⟨old, hold, hkey, rfl⟩
    next hkey => exact Or.inl ⟨hold, hkey⟩
  · rintro (⟨hr, hkey⟩ | ⟨old, hold, hkey, rfl⟩)
    · exact ⟨r, hr, if_neg hkey⟩
    · exact ⟨old, hold, if_pos hkey⟩

theorem map_setUseCount {β : Type} (f : Invite → β)
    (hf : ∀ (r : Invite) (count : Int), f { r with useCount := count } = f r)
    (invites : List Invite) (key : CommunityId × Uuid) (count : Int) :
    (setUseCount invites key count).map f = invites.map f := by
  unfold setUseCount
  rw [List.map_map]
  refine List.map_congr_left fun r _ => ?_
  simp only [Function.comp_apply]
  split
  · exact hf r count
  · rfl

theorem Inv.commit_alreadyMember {s : State} {i : Nat} {t : Tx} {row : Invite} (h : Inv s)
    (ht : s.txs[i]? = some t) (hstage : t.stage = .recorded row false) (count : Int)
    (remaining : Option Int) :
    Untouched s (s.commit i t (.alreadyMember count remaining)) ∧
      Inv (s.commit i t (.alreadyMember count remaining)) := by
  have hfits := (h.sound t (List.mem_of_getElem? ht)).fits
  simp only [Tx.Fits, hstage, Bool.false_eq_true, if_false] at hfits
  obtain ⟨hmember, hcount⟩ := hfits
  have hcommit : s.commit i t (.alreadyMember count remaining) =
      { s.setTx i ⟨t.claim, .returned (.alreadyMember count remaining), {}⟩ with
        acceptances := t.writes.acceptance.toList ++ s.acceptances } := by
    simp [State.commit, State.setTx, hmember, hcount]
  have hfollows : Follows s t ⟨t.claim, .returned (.alreadyMember count remaining), {}⟩ :=
    .ended rfl (by simp [Tx.joined, hstage])
  have hset := h.setTx ht hfollows
  rw [hcommit]
  exact ⟨⟨rfl, rfl, rfl⟩, ⟨⟨hset.accounted.matched, hset.accounted.counted, hset.accounted.bounded,
    hset.accounted.serials, hset.accounted.minted, hset.accounted.tenant⟩, hset.keys, hset.small,
    hset.limits, hset.sound, hset.locks, hset.pending⟩⟩

section Joined

variable {s : State} {i : Nat} {t : Tx} {row : Invite} {count : Int}

theorem Inv.commit_consumes (h : Inv s) (ht : s.txs[i]? = some t)
    (hstage : t.stage = .counted row count) :
    Consumes s (s.commit i t (.joined count (row.usesRemaining count))) i t row := by
  have hsound := h.sound t (List.mem_of_getElem? ht)
  have hrow : t.invite = some row := by simp [Tx.invite, hstage]
  obtain ⟨hmem, hcommunity, hhash⟩ := hsound.row row hrow
  have hfits := hsound.fits
  simp only [Tx.Fits, hstage] at hfits
  obtain ⟨hmember, hcount, rfl, -, -⟩ := hfits
  obtain ⟨hlt, -⟩ := List.getElem?_eq_some_iff.mp ht
  exact
    { mem := hmem
      community := hcommunity
      tokenHash := hhash
      vacant := hsound.fresh _ hmember
      invites := by simp [State.commit, hcount, Invite.key, hcommunity]
      members := by simp [State.commit, hmember]
      admissions := by simp [State.commit, hmember, hrow, Claim.key]
      outcome := by simp [State.commit, hlt] }

theorem Inv.sound_of_consumes (h : Inv s) {s' : State} (hc : Consumes s s' i t row)
    (ht : s.txs[i]? = some t) (hrow : t.invite = some row)
    (hmember : t.writes.member = some t.claim.key) {j : Nat} {u : Tx} (hu : s.txs[j]? = some u)
    (hji : j ≠ i) : u.Sound s'.invites s'.members where
  fits := (h.sound u (List.mem_of_getElem? hu)).fits
  row := by
    intro row' hrow'
    obtain ⟨hmem, hclaim⟩ := (h.sound u (List.mem_of_getElem? hu)).row row' hrow'
    refine ⟨?_, hclaim⟩
    rw [hc.invites, mem_setUseCount]
    refine Or.inl ⟨hmem, fun hsame => ?_⟩
    exact hji (h.locks j i u t hu ht ⟨row', row, hrow', hrow, hsame⟩)
  fresh := by
    intro key hkey hmem
    rw [hc.members] at hmem
    rcases List.mem_cons.mp hmem with rfl | hold
    · exact hji (h.pending j i u t hu ht ⟨_, hkey, hmember⟩)
    · exact (h.sound u (List.mem_of_getElem? hu)).fresh key hkey hold

theorem Inv.mem_invites_of_consumes (h : Inv s) {s' : State} (hc : Consumes s s' i t row)
    {r : Invite} (hr : r ∈ s'.invites) :
    (r ∈ s.invites ∧ r.serial ≠ row.serial) ∨ r = { row with useCount := row.useCount + 1 } := by
  rw [hc.invites, mem_setUseCount] at hr
  rcases hr with ⟨hold, hne⟩ | ⟨old, hold, hkey, rfl⟩
  · refine Or.inl ⟨hold, fun hserial => hne ?_⟩
    rw [List.inj_on_of_nodup_map h.accounted.serials hold hc.mem hserial]
  · rw [List.inj_on_of_nodup_map h.keys hold hc.mem hkey]
    exact Or.inr rfl

theorem Inv.accounted_of_consumes (h : Inv s) {s' : State} (hc : Consumes s s' i t row)
    (ht : s.txs[i]? = some t) (hjoined : t.joined = false)
    (hlimit : ∀ limit ∈ row.maxUses, row.useCount + 1 ≤ limit)
    (hminted : s'.minted = s.minted) (htxs : ∀ j, j ≠ i → s'.txs[j]? = s.txs[j]?) :
    Accounted s' where
  matched := by
    intro j
    rw [hc.admissions, List.countP_append, h.accounted.matched]
    by_cases hji : j = i
    · subst hji
      obtain ⟨u, hu, hstage⟩ := Option.map_eq_some_iff.mp hc.outcome
      have hnew : u.joined = true := by simp [Tx.joined, hstage]
      simp [hu, ht, hjoined, hnew]
    · rw [htxs j hji]
      simp [Ne.symm hji]
  counted := by
    intro r hr
    rw [hc.admissions, List.countP_append]
    rcases h.mem_invites_of_consumes hc hr with ⟨hold, hne⟩ | rfl
    · rw [h.accounted.counted r hold]
      simp [Ne.symm hne]
    · have hbefore := h.accounted.counted row hc.mem
      simp [← hbefore]
  bounded := by
    intro r hr
    rcases h.mem_invites_of_consumes hc hr with ⟨hold, -⟩ | rfl
    · exact h.accounted.bounded r hold
    · exact hlimit
  serials := by
    rw [hc.invites, map_setUseCount Invite.serial fun _ _ => rfl]
    exact h.accounted.serials
  minted := by
    intro r hr
    rw [hminted]
    rcases h.mem_invites_of_consumes hc hr with ⟨hold, -⟩ | rfl
    · exact h.accounted.minted r hold
    · exact h.accounted.minted row hc.mem
  tenant := by
    intro a ha
    rw [hminted]
    rw [hc.admissions] at ha
    rcases List.mem_append.mp ha with hold | hnew
    · exact h.accounted.tenant a hold
    · obtain rfl := List.mem_singleton.mp hnew
      exact (h.accounted.minted row hc.mem).trans (congrArg some hc.community)

theorem Inv.commit_joined (h : Inv s) (ht : s.txs[i]? = some t)
    (hstage : t.stage = .counted row count) :
    Inv (s.commit i t (.joined count (row.usesRemaining count))) := by
  have hc := h.commit_consumes ht hstage
  have hrow : t.invite = some row := by simp [Tx.invite, hstage]
  have hfits := (h.sound t (List.mem_of_getElem? ht)).fits
  simp only [Tx.Fits, hstage] at hfits
  obtain ⟨hmember, -, rfl, hlimit, hsmall⟩ := hfits
  have htxs (j : Nat) (hji : j ≠ i) :
      (s.commit i t (.joined (row.useCount + 1) (row.usesRemaining (row.useCount + 1)))).txs[j]? =
        s.txs[j]? := List.getElem?_set_ne (Ne.symm hji)
  exact
    { accounted := h.accounted_of_consumes hc ht (by simp [Tx.joined, hstage]) hlimit rfl htxs
      keys := by
        rw [hc.invites, map_setUseCount Invite.key fun _ _ => rfl]
        exact h.keys
      small := by
        intro r hr
        rcases h.mem_invites_of_consumes hc hr with ⟨hold, -⟩ | rfl
        · exact h.small r hold
        · exact hsmall
      limits := h.limits
      sound := by
        intro u hu
        obtain ⟨j, hj⟩ := List.mem_iff_getElem?.mp hu
        rcases Slots.getElem?_set_cases hj with ⟨-, rfl⟩ | ⟨hji, hold⟩
        · exact ⟨rfl, fun _ hnone => (nomatch hnone), fun _ hnone => (nomatch hnone)⟩
        · exact h.sound_of_consumes hc ht hrow hmember hold hji
      locks := by
        refine h.locks.set Tx.SharesLock.symm ?_
        rintro j u - ⟨_, _, _, hnone, _⟩
        exact nomatch hnone
      pending := by
        refine h.pending.set Tx.SharesKey.symm ?_
        rintro j u - ⟨_, _, hnone⟩
        exact nomatch hnone }

end Joined

/-! ## Steps -/

theorem Inv.advance {s : State} (h : Inv s) (i : Nat) (now : Int) :
    Inv (s.step (.advance i now)) ∧ Conserves s (.advance i now) := by
  cases ht : s.txs[i]? with
  | none =>
      simp only [State.step, Conserves, ht]
      exact ⟨h, fun t hnone => (nomatch hnone)⟩
  | some t =>
      have hmem : t ∈ s.txs := List.mem_of_getElem? ht
      have hlt : i < s.txs.length := (List.getElem?_eq_some_iff.mp ht).1
      have hnonneg : ∀ r ∈ s.invites, 0 ≤ r.useCount := by
        intro r hr
        rw [h.accounted.counted r hr]
        exact Int.natCast_nonneg _
      simp only [Conserves, State.step, ht]
      cases hmove : t.move s now with
      | wait =>
          refine ⟨h, fun u hu => Or.inr ⟨⟨rfl, rfl, rfl⟩, ?_⟩⟩
          simpa [State.apply, ht] using congrArg Tx.joined (Option.some.inj hu)
      | next stage writes =>
          have hfollows := Tx.follows_of_next (h.sound t hmem) hnonneg h.small hmove
          refine ⟨h.setTx ht hfollows, fun u hu => Or.inr ⟨⟨rfl, rfl, rfl⟩, ?_⟩⟩
          obtain rfl : t = u := Option.some.inj hu
          simpa [State.apply, State.setTx, hlt] using hfollows.joined
      | rollback stage =>
          have hfollows := Tx.follows_of_rollback hmove
          refine ⟨h.setTx ht hfollows, fun u hu => Or.inr ⟨⟨rfl, rfl, rfl⟩, ?_⟩⟩
          obtain rfl : t = u := Option.some.inj hu
          simpa [State.apply, State.setTx, hlt] using hfollows.joined
      | commit outcome =>
          rcases Tx.commit_cases hmove with ⟨row, hstage, rfl⟩ | ⟨row, count, hstage, rfl⟩
          · have hcommit := h.commit_alreadyMember ht hstage row.useCount
              (row.usesRemaining row.useCount)
            refine ⟨hcommit.2, fun u hu => Or.inr ⟨hcommit.1, ?_⟩⟩
            obtain rfl : t = u := Option.some.inj hu
            simp [State.apply, State.commit, hlt, Tx.joined, hstage]
          · refine ⟨h.commit_joined ht hstage, fun u hu => Or.inl ?_⟩
            obtain rfl : t = u := Option.some.inj hu
            exact ⟨by simp [Tx.joined, hstage], row, h.commit_consumes ht hstage⟩

theorem Inv.fail {s : State} (h : Inv s) (i : Nat) :
    Inv (s.step (.fail i)) ∧ Conserves s (.fail i) := by
  cases ht : s.txs[i]? with
  | none =>
      simp only [Conserves, State.step, ht]
      exact ⟨h, rfl, rfl, rfl⟩
  | some t =>
      simp only [Conserves, State.step, ht]
      split
      next hrunning =>
        have hjoined : t.joined = false := by
          unfold Tx.running at hrunning
          unfold Tx.joined
          cases hstage : t.stage <;> simp_all
        exact ⟨h.setTx ht (.ended rfl hjoined.symm), rfl, rfl, rfl⟩
      next => exact ⟨h, rfl, rfl, rfl⟩

theorem Inv.publish {s : State} (h : Inv s) (m : Mint) (hm : ∀ limit ∈ m.maxUses, 0 ≤ limit) :
    Inv (s.publish m) := by
  unfold State.publish
  split
  · exact h
  next hfree =>
    simp only [List.any_eq_true, Bool.and_eq_true, Bool.or_eq_true, decide_eq_true_eq, not_exists,
      not_and, not_or] at hfree
    have hlt (serial : Nat) (community : CommunityId) (hserial : s.minted[serial]? = some community) :
        serial < s.minted.length := (List.getElem?_eq_some_iff.mp hserial).1
    have hkeep (serial : Nat) (community : CommunityId)
        (hserial : s.minted[serial]? = some community) :
        (s.minted ++ [m.community])[serial]? = some community := by
      rw [List.getElem?_append_left (hlt serial community hserial)]
      exact hserial
    -- No membership was inserted by an invite that is only now minted.
    have hunused : s.admissions.countP (·.invite = s.minted.length) = 0 := by
      rw [List.countP_eq_zero]
      intro a ha
      simpa using (hlt _ _ (h.accounted.tenant a ha)).ne
    exact
      { accounted :=
          { matched := h.accounted.matched
            counted := by
              intro r hr
              rcases List.mem_append.mp hr with hold | hnew
              · exact h.accounted.counted r hold
              · obtain rfl := List.mem_singleton.mp hnew
                simp [hunused]
            bounded := by
              intro r hr
              rcases List.mem_append.mp hr with hold | hnew
              · exact h.accounted.bounded r hold
              · obtain rfl := List.mem_singleton.mp hnew
                exact hm
            serials := by
              rw [List.map_append, List.map_singleton, List.nodup_append]
              refine ⟨h.accounted.serials, List.nodup_singleton _, ?_⟩
              intro serial hserial _ hnew
              obtain ⟨r, hr, rfl⟩ := List.mem_map.mp hserial
              obtain rfl := List.mem_singleton.mp hnew
              exact (hlt _ _ (h.accounted.minted r hr)).ne
            minted := by
              intro r hr
              rcases List.mem_append.mp hr with hold | hnew
              · exact hkeep _ _ (h.accounted.minted r hold)
              · obtain rfl := List.mem_singleton.mp hnew
                simp
            tenant := fun a ha => hkeep _ _ (h.accounted.tenant a ha) }
        keys := by
          rw [List.map_append, List.map_singleton, List.nodup_append]
          refine ⟨h.keys, List.nodup_singleton _, ?_⟩
          intro key hkey _ hnew
          obtain ⟨r, hr, rfl⟩ := List.mem_map.mp hkey
          obtain rfl := List.mem_singleton.mp hnew
          intro hsame
          exact (hfree r hr (congrArg Prod.fst hsame)).1 (congrArg Prod.snd hsame)
        small := by
          intro r hr
          rcases List.mem_append.mp hr with hold | hnew
          · exact h.small r hold
          · obtain rfl := List.mem_singleton.mp hnew
            exact (by decide : (0 : Int) < 2 ^ 31)
        limits := h.limits
        sound := by
          intro t ht
          refine ⟨(h.sound t ht).fits, fun row hrow => ?_, (h.sound t ht).fresh⟩
          obtain ⟨hmem, hclaim⟩ := (h.sound t ht).row row hrow
          exact ⟨List.mem_append_left _ hmem, hclaim⟩
        locks := h.locks
        pending := h.pending }

theorem Inv.setMembers {s : State} (h : Inv s) (members : List (CommunityId × Text))
    (acceptances : List Acceptance)
    (hmembers : ∀ t ∈ s.txs, ∀ key, t.writes.member = some key → key ∉ members) :
    Inv { s with members := members, acceptances := acceptances } where
  accounted := ⟨h.accounted.matched, h.accounted.counted, h.accounted.bounded, h.accounted.serials,
    h.accounted.minted, h.accounted.tenant⟩
  keys := h.keys
  small := h.small
  limits := h.limits
  sound := fun t ht => ⟨(h.sound t ht).fits, (h.sound t ht).row, hmembers t ht⟩
  locks := h.locks
  pending := h.pending

theorem Inv.sweep {s : State} (h : Inv s) (batch : List Invite)
    (hfree : ∀ r ∈ batch, ∀ t ∈ s.txs, t.holds r = false) :
    Inv { s with invites := s.invites.filter (· ∉ batch) } where
  accounted :=
    { matched := h.accounted.matched
      counted := fun r hr => h.accounted.counted r (List.mem_of_mem_filter hr)
      bounded := fun r hr => h.accounted.bounded r (List.mem_of_mem_filter hr)
      serials := h.accounted.serials.sublist (List.filter_sublist.map _)
      minted := fun r hr => h.accounted.minted r (List.mem_of_mem_filter hr)
      tenant := h.accounted.tenant }
  keys := h.keys.sublist (List.filter_sublist.map _)
  small := fun r hr => h.small r (List.mem_of_mem_filter hr)
  limits := h.limits
  sound := by
    intro t ht
    refine ⟨(h.sound t ht).fits, fun row hrow => ?_, (h.sound t ht).fresh⟩
    obtain ⟨hmem, hclaim⟩ := (h.sound t ht).row row hrow
    refine ⟨List.mem_filter.mpr ⟨hmem, ?_⟩, hclaim⟩
    simp only [decide_eq_true_eq]
    intro hbatch
    exact Tx.holds_eq_false (hfree row hbatch t ht) hrow rfl
  locks := h.locks
  pending := h.pending

theorem any_joined_append (txs : List Tx) (claim : Claim) (i : Nat) :
    ((txs ++ [⟨claim, .started, {}⟩])[i]?).any Tx.joined = (txs[i]?).any Tx.joined := by
  by_cases hlt : i < txs.length
  · rw [List.getElem?_append_left hlt]
  · have hle := Nat.le_of_not_lt hlt
    rw [List.getElem?_append_right hle, List.getElem?_eq_none hle, List.getElem?_singleton]
    split <;> rfl

theorem Inv.claim {s : State} (h : Inv s) (claim : Claim) : Inv (s.step (.claim claim)) where
  accounted :=
    { matched := fun i => (h.accounted.matched i).trans
        (congrArg (if · then 1 else 0) (any_joined_append s.txs claim i).symm)
      counted := h.accounted.counted
      bounded := h.accounted.bounded
      serials := h.accounted.serials
      minted := h.accounted.minted
      tenant := h.accounted.tenant }
  keys := h.keys
  small := h.small
  limits := h.limits
  sound := by
    intro t ht
    rcases List.mem_append.mp ht with hold | hnew
    · exact h.sound t hold
    · obtain rfl := List.mem_singleton.mp hnew
      exact ⟨rfl, fun _ hnone => (nomatch hnone), fun _ hnone => (nomatch hnone)⟩
  locks := by
    refine h.locks.append Tx.SharesLock.symm ?_
    rintro u - ⟨_, _, _, hnone, _⟩
    exact nomatch hnone
  pending := by
    refine h.pending.append Tx.SharesKey.symm ?_
    rintro u - ⟨_, _, hnone⟩
    exact nomatch hnone

theorem Inv.setMinting {s : State} (h : Inv s) (minting : List Mint)
    (hlimits : ∀ m ∈ minting, ∀ limit ∈ m.maxUses, 0 ≤ limit) :
    Inv { s with minting := minting } where
  accounted := ⟨h.accounted.matched, h.accounted.counted, h.accounted.bounded, h.accounted.serials,
    h.accounted.minted, h.accounted.tenant⟩
  keys := h.keys
  small := h.small
  limits := hlimits
  sound := h.sound
  locks := h.locks
  pending := h.pending

theorem nonneg_of_validateMintInputs {ttlSecs : Nat} {maxUses : Option Int}
    (h : validateMintInputs ttlSecs maxUses = true) : ∀ limit ∈ maxUses, 0 ≤ limit := by
  intro limit hlimit
  obtain rfl := Option.mem_def.mp hlimit
  simp only [validateMintInputs, Bool.and_eq_true, decide_eq_true_eq] at h
  exact Int.le_of_lt (Int.lt_of_lt_of_le Int.zero_lt_one h.2.1)

theorem Inv.step {s : State} (h : Inv s) (input : Input) :
    Inv (s.step input) ∧ Conserves s input := by
  cases input with
  | mint call writable =>
      refine ⟨?_, trivial⟩
      simp only [State.step]
      split
      next hvalid =>
        refine h.setMinting _ fun m hm => ?_
        rcases List.mem_append.mp hm with hold | hnew
        · exact h.limits m hold
        · obtain rfl := List.mem_singleton.mp hnew
          exact nonneg_of_validateMintInputs (Bool.and_eq_true_iff.mp hvalid).1
      next => exact h
  | commitMint call =>
      refine ⟨?_, trivial⟩
      simp only [State.step]
      split
      next m hm =>
        refine Inv.publish (h.setMinting _ fun m hm => ?_) m (h.limits m (List.mem_of_getElem? hm))
        exact h.limits m (List.mem_of_mem_eraseIdx hm)
      next => exact h
  | claim claim => exact ⟨h.claim claim, trivial⟩
  | advance i now => exact h.advance i now
  | fail i => exact h.fail i
  | join community pubkey =>
      refine ⟨?_, trivial⟩
      simp only [State.step]
      split
      · exact h
      next hfree =>
        refine h.setMembers _ _ fun t ht key hkey hmem => ?_
        rcases List.mem_cons.mp hmem with rfl | hold
        · exact hfree (Or.inl (List.any_eq_true.mpr ⟨t, ht, by simpa using hkey⟩))
        · exact (h.sound t ht).fresh key hkey hold
  | remove community pubkey =>
      refine ⟨?_, trivial⟩
      simp only [State.step]
      split
      · exact h
      · refine h.setMembers _ _ fun t ht key hkey hmem => ?_
        exact (h.sound t ht).fresh key hkey (List.mem_of_mem_filter hmem)
  | reap cutoff frozen =>
      refine ⟨?_, trivial⟩
      simp only [State.step]
      split
      · exact h
      next hfree =>
        refine h.sweep _ fun r hr t ht => ?_
        simp only [List.any_eq_true, not_exists, not_and, Bool.not_eq_true] at hfree
        exact hfree r hr t ht

/-! ## Runs -/

/-- Every state that a run reaches is accounted for, and its next step, whatever it is, changes a
use count or a membership for a claim only when it returns `Joined`. -/
theorem invite_redemption (inputs : List Input) :
    Accounted (State.run inputs) ∧ ∀ input, Conserves (State.run inputs) input := by
  have hinv : Inv (State.run inputs) :=
    Run.invariant_of_step Inv (fun _ input hs => (hs.step input).1) inv_empty inputs
  exact ⟨hinv.accounted, fun input => (hinv.step input).2⟩

namespace Sample

def community : CommunityId := ⟨1⟩

/-- Two claimants race for the one use of an invite; the second waits for the row. -/
def race : List Input :=
  [.mint ⟨community, 3600, some 1, 7, 9, 0⟩ true, .commitMint 0,
    .claim ⟨community, 7, ['a'], none⟩, .claim ⟨community, 7, ['b'], none⟩,
    .advance 0 10, .advance 1 10, .advance 0 10, .advance 1 10, .advance 0 10, .advance 0 10,
    .advance 0 10, .advance 0 10, .advance 1 10, .advance 1 10, .advance 1 10]

end Sample

example : (State.run Sample.race).txs.map Tx.stage =
    [.returned (.joined 1 (some 0)), .returned .exhausted] := by decide

end Invites
end Db
end Maju
