import Maju.Audit.Chain
import Maju.Lib.HashChain
import Maju.Lib.HashMap
import Maju.Lib.Run

/-!
# Interleaving — concurrent `log` calls on one table

Each `log` call takes the advisory lock of its community, reads the head of the chain, computes the
next entry, inserts it and unlocks.  Calls of any communities interleave at these points; a call may
also fail or panic anywhere in between, which rolls its transaction back.

`Sound` is the invariant of every reachable state: per community the rows form a hash chain, every
row verifies on its own, and a head that a call holds is still the head.
-/

namespace Maju
namespace Audit

open Lib Core HashChain

/-! ## The service as a state machine -/

/-- Where a `log` call stands: it waits for the advisory lock, is about to read the head, has read
it, or has committed or rolled back and is to unlock. -/
inductive Phase where
  | waiting
  | locked
  | read (head : Int × Option Bytes)
  | finished
  deriving DecidableEq, Repr

/-- A `log` call under way. -/
structure LogCall where
  entry : NewAuditEntry
  phase : Phase

/-- A call has its lock from the end of the wait to the unlock. -/
def LogCall.holdsLock (call : LogCall) : Bool := call.phase ≠ .waiting

/-- The shared table and the calls under way. -/
structure Service where
  table : Table
  calls : HashMap Nat LogCall

inductive Input where
  | log (id : Nat) (entry : NewAuditEntry)
  | lock (id : Nat)
  | readHead (id : Nat)
  | insert (id : Nat) (now : Int)
  | fail (id : Nat)
  | unlock (id : Nat)

variable (lib : Libraries) (store : Store)

/-- Nobody holds the lock of the community. -/
def lockFree (calls : HashMap Nat LogCall) (community : CommunityId) : Bool :=
  calls.entries.all fun e =>
    !(e.2.holdsLock && store.lockKey e.2.entry.communityId = store.lockKey community)

namespace Service

def setPhase (s : Service) (id : Nat) (call : LogCall) (phase : Phase) : Service :=
  { s with calls := s.calls.insert id { call with phase := phase } }

def step (s : Service) : Input → Service
  | .log id entry =>
      match s.calls.lookup id with
      | some _ => s
      | none => { s with calls := s.calls.insert id ⟨entry, .waiting⟩ }
  | .lock id =>
      match s.calls.lookup id with
      | some call =>
          if call.phase = .waiting ∧ lockFree store s.calls call.entry.communityId then
            s.setPhase id call .locked
          else s
      | none => s
  | .readHead id =>
      match s.calls.lookup id with
      | some call =>
          if call.phase = .locked then
            s.setPhase id call (.read (head s.table call.entry.communityId.uuid))
          else s
      | none => s
  | .insert id now =>
      match s.calls.lookup id with
      | some call =>
          match call.phase with
          | .read head =>
              match Audit.insert store s.table (newEntry lib call.entry head now) with
              | some table => { s with table := table }.setPhase id call .finished
              | none => s.setPhase id call .finished
          | _ => s
      | none => s
  | .fail id =>
      match s.calls.lookup id with
      | some call => if call.holdsLock then s.setPhase id call .finished else s
      | none => s
  | .unlock id =>
      match s.calls.lookup id with
      | some call =>
          if call.phase = .finished then { s with calls := s.calls.erase id } else s
      | none => s

def initial : Service := ⟨[], ∅⟩

end Service

/-! ## Single rows -/

/-- The row verifies on its own: recomputing its hash gives the stored one. -/
def Sealed (row : Row) : Prop :=
  ∃ entry, rowToAuditEntry row = .ok entry ∧ computeHash lib entry = row.hash

/-- The store gives the detail back with the same canonical text. -/
def StableDetail (detail : Value) : Prop :=
  canonicalJson lib (store.jsonb detail) = canonicalJson lib detail

theorem toStoragePrecision_idem (t : Int) :
    toStoragePrecision (toStoragePrecision t) = toStoragePrecision t := by
  unfold toStoragePrecision
  omega

variable {lib store}

theorem rowToAuditEntry_storedRow (entry : AuditEntry) :
    rowToAuditEntry (storedRow store entry) =
      .ok { entry with
        detail := store.jsonb entry.detail
        createdAt := store.timestamptz entry.createdAt } := by
  simp [rowToAuditEntry, storedRow, AuditAction.fromStr_asStr]

theorem sealed_storedRow {entry : NewAuditEntry} (hdetail : StableDetail lib store entry.detail)
    (h : Int × Option Bytes) (now : Int) :
    Sealed lib (storedRow store (newEntry lib entry h now)) := by
  refine ⟨_, rowToAuditEntry_storedRow _, ?_⟩
  have htime : toStoragePrecision (store.timestamptz (toStoragePrecision now)) =
      toStoragePrecision (toStoragePrecision now) := by
    have hmicro : store.timestamptz (toStoragePrecision now) =
        toStoragePrecision (toStoragePrecision now) := rfl
    rw [hmicro, toStoragePrecision_idem, toStoragePrecision_idem]
  have hinput : hashInput lib { newEntry lib entry h now with
      detail := store.jsonb entry.detail
      createdAt := store.timestamptz (toStoragePrecision now) } =
      hashInput lib { newEntry lib entry h now with hash := [] } := by
    unfold hashInput
    simp only [newEntry]
    rw [htime, hdetail]
  exact congrArg lib.sha256 hinput

/-! ## Chains -/

/-- The rows of one community, in the order of their insertion. -/
def rowsOf (table : Table) (community : Uuid) : List Row :=
  table.filter fun row => row.communityId = community

/-- The rows are a hash chain from the first number on. -/
abbrev IsChain (rows : List Row) : Prop := ChainFrom Row.seq Row.prevHash Row.hash 0 none rows

theorem head_eq {table : Table} {community : Uuid} (h : IsChain (rowsOf table community)) :
    head table community =
      (((rowsOf table community).length : Int),
        lastDigest Row.hash none (rowsOf table community)) := by
  have hrows : (table.filter fun row => row.communityId = community) = rowsOf table community := rfl
  rw [head, hrows]
  rcases List.eq_nil_or_concat (rowsOf table community) with hnil | ⟨rows, last, hconcat⟩
  · rw [hnil]
    rfl
  · rw [List.concat_eq_append] at hconcat
    rw [hconcat] at h ⊢
    rcases chainFrom_append.1 h with ⟨_, hseq, _⟩
    have hlast : (rows ++ [last]).argmax Row.seq = some last := by
      rw [List.argmax_concat]
      cases hmax : rows.argmax Row.seq with
      | none => rfl
      | some best =>
          have hlt : best.seq < last.seq := by
            have hmem : best ∈ rows := List.argmax_mem (Option.mem_def.2 hmax)
            exact (List.pairwise_append.1 h.pairwise).2.2 best hmem last (by simp)
          simp [hlt]
    rw [hlast]
    simp only [lastDigest, List.getLast?_concat, List.length_append, List.length_singleton]
    rw [hseq]
    refine Prod.ext ?_ rfl
    push_cast
    omega

theorem rowsOf_append (table : Table) (row : Row) (community : Uuid) :
    rowsOf (table ++ [row]) community =
      rowsOf table community ++ if row.communityId = community then [row] else [] := by
  unfold rowsOf
  rw [List.filter_append]
  by_cases h : row.communityId = community
  · simp [h]
  · simp [h]

theorem isChain_insert {table table' : Table} {entry : NewAuditEntry} {now : Int}
    (hchain : ∀ c, IsChain (rowsOf table c))
    (hinsert : insert store table
      (newEntry lib entry (head table entry.communityId.uuid) now) = some table') (c : Uuid) :
    IsChain (rowsOf table' c) := by
  unfold insert at hinsert
  split_ifs at hinsert with hfits
  cases hinsert
  rw [rowsOf_append]
  by_cases hc : entry.communityId.uuid = c
  · subst hc
    rw [if_pos (by rfl)]
    have hhead := head_eq (hchain entry.communityId.uuid)
    refine chainFrom_append.2 ⟨hchain _, ?_, ?_⟩
    · show (head table entry.communityId.uuid).1 + 1 = _
      rw [hhead]
      simp
    · show (head table entry.communityId.uuid).2 = _
      rw [hhead]
  · rw [if_neg (by exact hc), List.append_nil]
    exact hchain c

/-! ## The invariant -/

/-- What holds in every reachable state. -/
structure Sound (lib : Libraries) (store : Store) (s : Service) : Prop where
  chain : ∀ c : Uuid, IsChain (rowsOf s.table c)
  rowSealed : ∀ row ∈ s.table, Sealed lib row
  fits : s.table.length ≤ store.maxRows
  stable : ∀ id call, s.calls.lookup id = some call → StableDetail lib store call.entry.detail
  exclusive : ∀ id id' call call', s.calls.lookup id = some call →
    s.calls.lookup id' = some call' → call.holdsLock → call'.holdsLock →
      store.lockKey call.entry.communityId = store.lockKey call'.entry.communityId → id = id'
  heads : ∀ id call h, s.calls.lookup id = some call → call.phase = .read h →
    h = head s.table call.entry.communityId.uuid

theorem sound_initial : Sound lib store Service.initial where
  chain := fun _ => trivial
  rowSealed := fun _ hrow => by cases hrow
  fits := Nat.zero_le _
  stable := fun id call h => by simp [Service.initial] at h
  exclusive := fun id id' call call' h => by simp [Service.initial] at h
  heads := fun id call h hcall => by simp [Service.initial] at hcall

variable {s : Service}

/-- Moving one call to another phase keeps the invariant, when the lock it may take is free and the
head it may hold is the current one. -/
theorem Sound.setPhase (h : Sound lib store s) {id : Nat} {call : LogCall} {phase : Phase}
    (hcall : s.calls.lookup id = some call)
    (hlock : phase ≠ .waiting → call.holdsLock = true ∨
      lockFree store s.calls call.entry.communityId = true)
    (hread : ∀ h, phase = .read h → h = head s.table call.entry.communityId.uuid) :
    Sound lib store (s.setPhase id call phase) := by
  -- the other holders of the lock, seen from the call that moves
  have hother : phase ≠ .waiting → ∀ id' call', s.calls.lookup id' = some call' →
      call'.holdsLock → store.lockKey call.entry.communityId =
        store.lockKey call'.entry.communityId → id = id' := by
    intro hphase id' call' hcall' hholds' hkey
    rcases hlock hphase with hholds | hfree
    · exact h.exclusive id id' call call' hcall hcall' hholds hholds' hkey
    · have hentry := List.all_eq_true.1 hfree _ (HashMap.mem_entries_iff.2 hcall')
      simp [hholds', hkey] at hentry
  refine ⟨h.chain, h.rowSealed, h.fits, ?_, ?_, ?_⟩
  · intro id' call' hcall'
    rw [Service.setPhase, HashMap.lookup_insert_eq] at hcall'
    split at hcall'
    · cases hcall'
      exact h.stable id call hcall
    · exact h.stable id' call' hcall'
  · intro id₁ id₂ call₁ call₂ hcall₁ hcall₂ hholds₁ hholds₂ hkey
    rw [Service.setPhase, HashMap.lookup_insert_eq] at hcall₁ hcall₂
    by_cases h₁ : id₁ = id
    · by_cases h₂ : id₂ = id
      · rw [h₁, h₂]
      · rw [if_pos h₁] at hcall₁
        rw [if_neg h₂] at hcall₂
        cases hcall₁
        have hphase : phase ≠ .waiting := by simpa [LogCall.holdsLock] using hholds₁
        rw [h₁]
        exact hother hphase id₂ call₂ hcall₂ hholds₂ hkey
    · rw [if_neg h₁] at hcall₁
      by_cases h₂ : id₂ = id
      · rw [if_pos h₂] at hcall₂
        cases hcall₂
        have hphase : phase ≠ .waiting := by simpa [LogCall.holdsLock] using hholds₂
        rw [h₂]
        exact (hother hphase id₁ call₁ hcall₁ hholds₁ hkey.symm).symm
      · rw [if_neg h₂] at hcall₂
        exact h.exclusive id₁ id₂ call₁ call₂ hcall₁ hcall₂ hholds₁ hholds₂ hkey
  · intro id' call' h' hcall' hphase'
    rw [Service.setPhase, HashMap.lookup_insert_eq] at hcall'
    split at hcall'
    · cases hcall'
      exact hread h' hphase'
    · exact h.heads id' call' h' hcall' hphase'

theorem Sound.insert (h : Sound lib store s) {id : Nat} {call : LogCall} {now : Int}
    {table' : Table} (hcall : s.calls.lookup id = some call)
    (hphase : call.phase = .read (head s.table call.entry.communityId.uuid))
    (hinsert : insert store s.table (newEntry lib call.entry
      (head s.table call.entry.communityId.uuid) now) = some table') :
    Sound lib store ({ s with table := table' }.setPhase id call .finished) := by
  have hholds : call.holdsLock = true := by simp [LogCall.holdsLock, hphase]
  have hmoved : Sound lib store (s.setPhase id call .finished) :=
    h.setPhase hcall (fun _ => Or.inl hholds) (fun _ hread => by cases hread)
  have htable : table' = s.table ++ [storedRow store (newEntry lib call.entry
      (head s.table call.entry.communityId.uuid) now)] ∧ s.table.length < store.maxRows := by
    unfold Audit.insert at hinsert
    split_ifs at hinsert with hfits
    exact ⟨(Option.some.inj hinsert).symm, hfits.1⟩
  refine ⟨isChain_insert h.chain hinsert, ?_, ?_, hmoved.stable, hmoved.exclusive, ?_⟩
  · intro row hrow
    rw [Service.setPhase, htable.1] at hrow
    rcases List.mem_append.1 hrow with hold | hnew
    · exact h.rowSealed row hold
    · rw [List.mem_singleton.1 hnew]
      exact sealed_storedRow (h.stable id call hcall) _ now
  · show table'.length ≤ store.maxRows
    rw [htable.1, List.length_append, List.length_singleton]
    exact htable.2
  · intro id' call' h' hcall' hphase'
    have hold := hmoved.heads id' call' h' hcall' hphase'
    -- a call that still holds a head is in another community, by exclusion
    have hne : call.entry.communityId.uuid ≠ call'.entry.communityId.uuid := by
      intro heq
      have hcommunity : call.entry.communityId = call'.entry.communityId := by
        cases hc : call.entry.communityId
        cases hc' : call'.entry.communityId
        rw [hc, hc'] at heq
        exact congrArg CommunityId.mk heq
      rw [Service.setPhase, HashMap.lookup_insert_eq] at hcall'
      split at hcall'
      · cases hcall'
        cases hphase'
      · next hid =>
          have hholds' : call'.holdsLock = true := by simp [LogCall.holdsLock, hphase']
          exact hid (h.exclusive id' id call' call hcall' hcall hholds' hholds
            (by rw [hcommunity]))
    rw [hold]
    show head s.table _ = head table' _
    unfold head
    have hrows := rowsOf_append s.table (storedRow store (newEntry lib call.entry
      (head s.table call.entry.communityId.uuid) now)) call'.entry.communityId.uuid
    rw [if_neg (by exact hne), List.append_nil, ← htable.1] at hrows
    unfold rowsOf at hrows
    rw [hrows]

/-- The inputs that start a call start it with a detail that the store gives back unchanged. -/
def StableInput (lib : Libraries) (store : Store) : Service → Input → Prop
  | _, .log _ entry => StableDetail lib store entry.detail
  | _, _ => True

theorem Sound.step (h : Sound lib store s) {input : Input} (hinput : StableInput lib store s input) :
    Sound lib store (s.step lib store input) := by
  cases input with
  | log id entry =>
      cases hcall : s.calls.lookup id with
      | some call => simpa only [Service.step, hcall] using h
      | none =>
          simp only [Service.step, hcall]
          -- a fresh call waits: it holds no lock and no head
          refine ⟨h.chain, h.rowSealed, h.fits, ?_, ?_, ?_⟩
          · intro id' call' hcall'
            rw [HashMap.lookup_insert_eq] at hcall'
            split at hcall'
            · cases hcall'
              exact hinput
            · exact h.stable id' call' hcall'
          · intro id₁ id₂ call₁ call₂ hcall₁ hcall₂ hholds₁ hholds₂ hkey
            rw [HashMap.lookup_insert_eq] at hcall₁ hcall₂
            split at hcall₁
            · cases hcall₁
              cases hholds₁
            · split at hcall₂
              · cases hcall₂
                cases hholds₂
              · exact h.exclusive id₁ id₂ call₁ call₂ hcall₁ hcall₂ hholds₁ hholds₂ hkey
          · intro id' call' h' hcall' hphase'
            rw [HashMap.lookup_insert_eq] at hcall'
            split at hcall'
            · cases hcall'
              cases hphase'
            · exact h.heads id' call' h' hcall' hphase'
  | lock id =>
      cases hcall : s.calls.lookup id with
      | none => simpa only [Service.step, hcall] using h
      | some call =>
          simp only [Service.step, hcall]
          split_ifs with hfree
          · exact h.setPhase hcall (fun _ => Or.inr hfree.2) (fun _ hread => by cases hread)
          · exact h
  | readHead id =>
      cases hcall : s.calls.lookup id with
      | none => simpa only [Service.step, hcall] using h
      | some call =>
          simp only [Service.step, hcall]
          split_ifs with hlocked
          · have hholds : call.holdsLock = true := by simp [LogCall.holdsLock, hlocked]
            refine h.setPhase hcall (fun _ => Or.inl hholds) ?_
            intro h' hread
            cases hread
            rfl
          · exact h
  | insert id now =>
      cases hcall : s.calls.lookup id with
      | none => simpa only [Service.step, hcall] using h
      | some call =>
          simp only [Service.step, hcall]
          split
          · next h' hphase =>
              have hhead := h.heads id call h' hcall hphase
              subst hhead
              split
              · next table' hinsert => exact h.insert hcall hphase hinsert
              · have hholds : call.holdsLock = true := by simp [LogCall.holdsLock, hphase]
                exact h.setPhase hcall (fun _ => Or.inl hholds) (fun _ hread => by cases hread)
          · exact h
  | fail id =>
      cases hcall : s.calls.lookup id with
      | none => simpa only [Service.step, hcall] using h
      | some call =>
          simp only [Service.step, hcall]
          split_ifs with hholds
          · exact h.setPhase hcall (fun _ => Or.inl hholds) (fun _ hread => by cases hread)
          · exact h
  | unlock id =>
      cases hcall : s.calls.lookup id with
      | none => simpa only [Service.step, hcall] using h
      | some call =>
          simp only [Service.step, hcall]
          split_ifs with hfinished
          · have hsub : ∀ id' call', (s.calls.erase id).lookup id' = some call' →
                s.calls.lookup id' = some call' := by
              intro id' call' hcall'
              rw [HashMap.lookup_erase_eq] at hcall'
              split at hcall'
              · cases hcall'
              · exact hcall'
            exact ⟨h.chain, h.rowSealed, h.fits,
              fun id' call' hcall' => h.stable id' call' (hsub id' call' hcall'),
              fun id₁ id₂ call₁ call₂ hcall₁ hcall₂ =>
                h.exclusive id₁ id₂ call₁ call₂ (hsub _ _ hcall₁) (hsub _ _ hcall₂),
              fun id' call' h' hcall' => h.heads id' call' h' (hsub id' call' hcall')⟩
          · exact h

theorem sound_run {inputs : List Input}
    (h : Run.Along (StableInput lib store) (Service.step lib store) Service.initial inputs) :
    Sound lib store (Run.run (Service.step lib store) Service.initial inputs) :=
  Run.invariant (Sound lib store) (fun _ _ hs hinput => hs.step hinput) sound_initial h

end Audit
end Maju
