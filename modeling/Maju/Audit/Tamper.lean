import Maju.Audit.Interleaving

/-!
# Tamper — what `verify_chain` proves about a segment

On the rows of an honest run every non-empty segment verifies.  An `Edit` of the table deletes rows
or gives them other keys and leaves everything else as it was, hashes included.  A segment that
still verifies after an edit holds rows under their own keys only, and no row is missing between two
of them.  Rows missing at the two ends of a segment go unnoticed: nothing anchors its first row, and
nothing says how long the chain is.
-/

namespace Maju
namespace Audit

open Lib Core HashChain

variable {lib : Libraries} {store : Store}

/-! ## The loop of `verify_chain` -/

theorem rowToAuditEntry_ok {row : Row} {entry : AuditEntry} (h : rowToAuditEntry row = .ok entry) :
    entry.communityId = row.communityId ∧ entry.seq = row.seq ∧ entry.hash = row.hash ∧
      entry.prevHash = row.prevHash := by
  unfold rowToAuditEntry at h
  split at h
  · cases h
  · cases h
    exact ⟨rfl, rfl, rfl, rfl⟩

theorem verifyRows_iff {expected : Option Bytes} {rows : List Row} :
    verifyRows lib expected rows = .ok true ↔
      (∀ row ∈ rows, Sealed lib row) ∧ Linked Row.prevHash Row.hash expected rows := by
  induction rows generalizing expected with
  | nil => simp [verifyRows, Linked]
  | cons row rows ih =>
      unfold verifyRows
      cases hentry : rowToAuditEntry row with
      | error e =>
          have hbad : ¬Sealed lib row := by
            rintro ⟨entry, hok, _⟩
            rw [hentry] at hok
            cases hok
          simp [hbad]
      | ok entry =>
          rcases rowToAuditEntry_ok hentry with ⟨_, _, hhash, hprev⟩
          have hsealed : Sealed lib row ↔ computeHash lib entry = entry.hash := by
            constructor
            · rintro ⟨entry', hok, hcompute⟩
              rw [hentry] at hok
              cases hok
              rw [hcompute, hhash]
            · intro hcompute
              exact ⟨entry, hentry, hcompute.trans hhash⟩
          simp only [List.forall_mem_cons, Linked, hsealed]
          by_cases hlink : expected.isSome ∧ entry.prevHash ≠ expected
          · rw [if_pos hlink]
            rw [hprev] at hlink
            have hnone : expected ≠ none := by
              intro hnone
              rw [hnone] at hlink
              cases hlink.1
            simp [hnone, hlink.2]
          · have hok : expected = none ∨ row.prevHash = expected := by
              rw [hprev] at hlink
              cases expected with
              | none => exact Or.inl rfl
              | some hash => exact Or.inr (by simpa using hlink)
            rw [if_neg hlink]
            by_cases hcompute : computeHash lib entry = entry.hash
            · simp only [hcompute, ne_eq, not_true_eq_false, if_false, true_and, hok]
              rw [ih, hhash]
            · simp [hcompute]

theorem verifyChain_iff {table : Table} {c : CommunityId} {lo hi : Int} :
    verifyChain lib table c lo hi = .ok true ↔
      segment table c.uuid lo hi ≠ [] ∧ (∀ row ∈ segment table c.uuid lo hi, Sealed lib row) ∧
        Linked Row.prevHash Row.hash none (segment table c.uuid lo hi) := by
  unfold verifyChain
  split
  · next hempty => simp [hempty]
  · next hne => exact verifyRows_iff.trans ⟨fun h => ⟨hne, h⟩, fun h => h.2⟩

theorem mem_segment {table : Table} {c : Uuid} {lo hi : Int} {row : Row} :
    row ∈ segment table c lo hi ↔
      row ∈ table ∧ row.communityId = c ∧ lo ≤ row.seq ∧ row.seq ≤ hi := by
  simp [segment]

theorem segment_eq {table : Table} {c : Uuid} {lo hi : Int}
    (h : (table.filter fun row => row.communityId = c ∧ lo ≤ row.seq ∧ row.seq ≤ hi).Pairwise
      fun a b => a.seq < b.seq) :
    segment table c lo hi =
      table.filter fun row => row.communityId = c ∧ lo ≤ row.seq ∧ row.seq ≤ hi :=
  List.Pairwise.insertionSort_eq (h.imp fun hlt => Int.le_of_lt hlt)

theorem filter_rowsOf (table : Table) (c : Uuid) (lo hi : Int) :
    (table.filter fun row => row.communityId = c ∧ lo ≤ row.seq ∧ row.seq ≤ hi) =
      (rowsOf table c).filter fun row => lo ≤ row.seq ∧ row.seq ≤ hi := by
  unfold rowsOf
  rw [List.filter_filter]
  refine List.filter_congr ?_
  intro row _
  by_cases hc : row.communityId = c <;> simp [hc]

theorem Sound.verifyChain_ok {s : Service} (h : Sound lib store s) {c : CommunityId} {lo hi : Int}
    (hrow : ∃ row ∈ rowsOf s.table c.uuid, lo ≤ row.seq ∧ row.seq ≤ hi) :
    verifyChain lib s.table c lo hi = .ok true := by
  have hchain := h.chain c.uuid
  have hsegment : segment s.table c.uuid lo hi =
      (rowsOf s.table c.uuid).filter fun row => lo ≤ row.seq ∧ row.seq ≤ hi := by
    rw [segment_eq]
    · exact filter_rowsOf s.table c.uuid lo hi
    · rw [filter_rowsOf]
      exact hchain.pairwise.sublist List.filter_sublist
  rw [verifyChain_iff]
  refine ⟨?_, ?_, ?_⟩
  · rcases hrow with ⟨row, hmem, hin⟩
    rw [hsegment]
    exact List.ne_nil_of_mem (List.mem_filter.2 ⟨hmem, by simpa using hin⟩)
  · intro row hmem
    exact h.rowSealed row (mem_segment.1 hmem).1
  · rw [hsegment]
    exact hchain.linked_filter lo hi (Or.inl rfl)

/-! ## Edits of the table -/

/-- New keys for rows, or none for the rows to delete.  Numbers are `BIGINT`s. -/
abbrev Edit := Row → Option (Uuid × BitVec 64)

def Row.rekey (row : Row) (key : Uuid × BitVec 64) : Row :=
  { row with communityId := key.1, seq := key.2.toInt }

/-- The table after an edit.  No hash is recomputed. -/
def edited (edit : Edit) (table : Table) : Table :=
  table.filterMap fun row => (edit row).map row.rekey

def Kept (edit : Edit) (row : Row) : Prop := (edit row).map row.rekey = some row

/-- The edit leaves a trace in the range: a row of the range is there under a key that is not its
own (renumbered, swapped, or moved in from another community), or a row is gone from between two
rows of the range. -/
def Damages (edit : Edit) (table : Table) (c : Uuid) (lo hi : Int) : Prop :=
  (∃ row ∈ table, ∃ key, edit row = some key ∧ key.1 = c ∧ lo ≤ key.2.toInt ∧ key.2.toInt ≤ hi ∧
    row.rekey key ≠ row) ∨
  ∃ row ∈ rowsOf table c, ¬Kept edit row ∧
    ∃ before ∈ rowsOf table c, ∃ after ∈ rowsOf table c, Kept edit before ∧ Kept edit after ∧
      lo ≤ before.seq ∧ before.seq < row.seq ∧ row.seq < after.seq ∧ after.seq ≤ hi

/-- The byte strings hashed for the rows of a table. -/
def hashed (lib : Libraries) (table : Table) : Set Bytes :=
  fun bytes => ∃ row ∈ table, ∃ entry, rowToAuditEntry row = .ok entry ∧ bytes = hashInput lib entry

/-- SHA-256 has no collision among these byte strings. -/
def CollisionFree (lib : Libraries) (inputs : Set Bytes) : Prop :=
  ∀ x ∈ inputs, ∀ y ∈ inputs, lib.sha256 x = lib.sha256 y → x = y

theorem key_of_hashInput {a b : AuditEntry} (ha : -2 ^ 63 ≤ a.seq ∧ a.seq < 2 ^ 63)
    (hb : -2 ^ 63 ≤ b.seq ∧ b.seq < 2 ^ 63) (h : hashInput lib a = hashInput lib b) :
    a.communityId = b.communityId ∧ a.seq = b.seq := by
  unfold hashInput at h
  have hcommunity := List.append_inj h (by simp)
  have hseq := List.append_inj hcommunity.2 (by simp [i64Bytes])
  refine ⟨BitVec.eq_of_toNat_eq (beBytes_injOn (n := 16) a.communityId.isLt b.communityId.isLt
    hcommunity.1), ?_⟩
  exact i64Bytes_injOn ha hb hseq.1

theorem Sound.seq_range {s : Service} (h : Sound lib store s) {row : Row} (hrow : row ∈ s.table) :
    -2 ^ 63 ≤ row.seq ∧ row.seq < 2 ^ 63 := by
  have hmem : row ∈ rowsOf s.table row.communityId := List.mem_filter.2 ⟨hrow, by simp⟩
  have hchain := h.chain row.communityId
  have hlow := hchain.lt_seq hmem
  have hhigh := hchain.seq_le hmem
  have hlength : (rowsOf s.table row.communityId).length ≤ s.table.length :=
    List.length_filter_le _ _
  have hfits := h.fits
  have hmax := store.maxRows_lt
  omega

theorem toInt_range (x : BitVec 64) : -2 ^ 63 ≤ x.toInt ∧ x.toInt < 2 ^ 63 :=
  ⟨BitVec.le_toInt x, BitVec.toInt_lt⟩

theorem key_of_sealed {inputs : Set Bytes} (hfree : CollisionFree lib inputs) {a b : Row}
    (ha : Sealed lib a) (hb : Sealed lib b) (hhash : a.hash = b.hash)
    (hin : ∀ entry, rowToAuditEntry a = .ok entry ∨ rowToAuditEntry b = .ok entry →
      hashInput lib entry ∈ inputs)
    (hra : -2 ^ 63 ≤ a.seq ∧ a.seq < 2 ^ 63) (hrb : -2 ^ 63 ≤ b.seq ∧ b.seq < 2 ^ 63) :
    a.communityId = b.communityId ∧ a.seq = b.seq := by
  rcases ha with ⟨x, hx, hcx⟩
  rcases hb with ⟨y, hy, hcy⟩
  have hinput : hashInput lib x = hashInput lib y := by
    refine hfree _ (hin x (Or.inl hx)) _ (hin y (Or.inr hy)) ?_
    calc lib.sha256 (hashInput lib x) = a.hash := hcx
      _ = b.hash := hhash
      _ = lib.sha256 (hashInput lib y) := hcy.symm
  rcases rowToAuditEntry_ok hx with ⟨hxc, hxs, _, _⟩
  rcases rowToAuditEntry_ok hy with ⟨hyc, hys, _, _⟩
  rw [← hxs] at hra
  rw [← hys] at hrb
  have hkey := key_of_hashInput hra hrb hinput
  rw [← hxc, ← hyc, ← hxs, ← hys]
  exact hkey

theorem eq_of_seq_eq {rows : List Row} (h : rows.Pairwise fun a b => a.seq < b.seq) {a b : Row}
    (ha : a ∈ rows) (hb : b ∈ rows) (hseq : a.seq = b.seq) : a = b := by
  induction rows with
  | nil => cases ha
  | cons row rows ih =>
      rcases List.pairwise_cons.1 h with ⟨hfirst, hrest⟩
      rcases List.mem_cons.1 ha with rfl | ha'
      · rcases List.mem_cons.1 hb with rfl | hb'
        · rfl
        · have := hfirst b hb'
          omega
      · rcases List.mem_cons.1 hb with rfl | hb'
        · have := hfirst a ha'
          omega
        · exact ih hrest ha' hb'

theorem filter_edited {edit : Edit} {table : Table} {c : Uuid} {lo hi : Int}
    (h : ∀ row ∈ table, ∀ key, edit row = some key → key.1 = c → lo ≤ key.2.toInt →
      key.2.toInt ≤ hi → row.rekey key = row) :
    ((edited edit table).filter fun row => row.communityId = c ∧ lo ≤ row.seq ∧ row.seq ≤ hi).Sublist
        (rowsOf table c) ∧
      ∀ row ∈ (edited edit table).filter
        (fun row => row.communityId = c ∧ lo ≤ row.seq ∧ row.seq ≤ hi), Kept edit row := by
  induction table with
  | nil => exact ⟨List.Sublist.refl _, fun row hrow => by cases hrow⟩
  | cons row table ih =>
      rcases ih fun row' hrow' => h row' (List.mem_cons_of_mem row hrow') with ⟨hsub, hkept⟩
      have hskip : (rowsOf table c).Sublist (rowsOf (row :: table) c) :=
        (List.sublist_cons_self row table).filter _
      cases hedit : edit row with
      | none =>
          have hedited : edited edit (row :: table) = edited edit table := by
            simp [edited, hedit]
          rw [hedited]
          exact ⟨hsub.trans hskip, hkept⟩
      | some key =>
          have hedited : edited edit (row :: table) = row.rekey key :: edited edit table := by
            simp [edited, hedit]
          rw [hedited]
          by_cases hin : (row.rekey key).communityId = c ∧ lo ≤ (row.rekey key).seq ∧
              (row.rekey key).seq ≤ hi
          · have hsame : row.rekey key = row :=
              h row List.mem_cons_self key hedit hin.1 hin.2.1 hin.2.2
            have hcommunity : row.communityId = c := by
              rw [hsame] at hin
              exact hin.1
            have hrows : rowsOf (row :: table) c = row :: rowsOf table c := by
              simp [rowsOf, hcommunity]
            rw [List.filter_cons_of_pos (by simpa using hin), hsame, hrows]
            refine ⟨hsub.cons_cons row, ?_⟩
            intro row' hrow'
            rcases List.mem_cons.1 hrow' with rfl | hlater
            · show (edit row').map row'.rekey = some row'
              rw [hedit, Option.map_some, hsame]
            · exact hkept row' hlater
          · rw [List.filter_cons_of_neg (by simpa using hin)]
            exact ⟨hsub.trans hskip, hkept⟩

theorem Sound.rekey_eq_of_sealed {s : Service} (h : Sound lib store s) {edit : Edit}
    (hfree : CollisionFree lib (hashed lib s.table ∪ hashed lib (edited edit s.table)))
    {row : Row} (hrow : row ∈ s.table) {key : Uuid × BitVec 64} (hkey : edit row = some key)
    (hsealed : Sealed lib (row.rekey key)) : row.rekey key = row := by
  have hmem : row.rekey key ∈ edited edit s.table :=
    List.mem_filterMap.2 ⟨row, hrow, by rw [hkey, Option.map_some]⟩
  have hin : ∀ entry, rowToAuditEntry (row.rekey key) = .ok entry ∨ rowToAuditEntry row = .ok entry →
      hashInput lib entry ∈ hashed lib s.table ∪ hashed lib (edited edit s.table) := by
    intro entry hentry
    rcases hentry with hnew | hold
    · exact Or.inr ⟨_, hmem, entry, hnew, rfl⟩
    · exact Or.inl ⟨row, hrow, entry, hold, rfl⟩
  rcases key_of_sealed hfree hsealed (h.rowSealed row hrow) rfl hin (toInt_range key.2)
    (h.seq_range hrow) with ⟨hcommunity, hseq⟩
  cases row with
  | mk community seq hash prevHash action actorPubkey objectId detail createdAt =>
      simp only [Row.rekey] at hcommunity hseq ⊢
      rw [hcommunity, hseq]

theorem Sound.not_verifyChain {s : Service} (h : Sound lib store s) {edit : Edit}
    {c : CommunityId} {lo hi : Int}
    (hfree : CollisionFree lib (hashed lib s.table ∪ hashed lib (edited edit s.table)))
    (hdamages : Damages edit s.table c.uuid lo hi) :
    verifyChain lib (edited edit s.table) c lo hi ≠ .ok true := by
  intro hok
  rcases verifyChain_iff.1 hok with ⟨_, hsealed, hlinked⟩
  -- every row of the range that verifies is there under its own key
  have hown : ∀ row ∈ s.table, ∀ key, edit row = some key → key.1 = c.uuid → lo ≤ key.2.toInt →
      key.2.toInt ≤ hi → row.rekey key = row := by
    intro row hrow key hkey hc hlo hhi
    refine h.rekey_eq_of_sealed hfree hrow hkey (hsealed _ (mem_segment.2 ⟨?_, hc, hlo, hhi⟩))
    exact List.mem_filterMap.2 ⟨row, hrow, by rw [hkey, Option.map_some]⟩
  rcases hdamages with ⟨row, hrow, key, hkey, hc, hlo, hhi, hne⟩ |
    ⟨row, hrow, hgone, before, hbefore, after, hafter, hkb, hka, hlo, hbr, hra, hhi⟩
  · exact hne (hown row hrow key hkey hc hlo hhi)
  · have hchain := h.chain c.uuid
    rcases filter_edited hown with ⟨hsub, hkept⟩
    have hsorted := hchain.pairwise.sublist hsub
    rw [segment_eq hsorted] at hlinked
    -- different rows of the chain have different hashes
    have hinj : ∀ a ∈ rowsOf s.table c.uuid, ∀ b ∈ rowsOf s.table c.uuid, a.hash = b.hash →
        a.seq = b.seq := by
      intro a ha b hb hhash
      have ha' := List.mem_of_mem_filter ha
      have hb' := List.mem_of_mem_filter hb
      refine (key_of_sealed hfree (h.rowSealed a ha') (h.rowSealed b hb') hhash ?_
        (h.seq_range ha') (h.seq_range hb')).2
      intro entry hentry
      rcases hentry with hentry | hentry
      · exact Or.inl ⟨a, ha', entry, hentry, rfl⟩
      · exact Or.inl ⟨b, hb', entry, hentry, rfl⟩
    have hpicked : ∀ row' ∈ rowsOf s.table c.uuid, Kept edit row' → lo ≤ row'.seq → row'.seq ≤ hi →
        row' ∈ (edited edit s.table).filter
          (fun row => row.communityId = c.uuid ∧ lo ≤ row.seq ∧ row.seq ≤ hi) := by
      intro row' hrow' hkept' hlo' hhi'
      rcases List.mem_filter.1 hrow' with ⟨hin, hcommunity⟩
      refine List.mem_filter.2 ⟨List.mem_filterMap.2 ⟨row', hin, hkept'⟩, ?_⟩
      simp only [decide_eq_true_eq] at hcommunity ⊢
      exact ⟨hcommunity, hlo', hhi'⟩
    rcases hchain.mem_of_linked hinj hsub.subset hsorted hlinked
      (hpicked before hbefore hkb hlo (by omega)) (hpicked after hafter hka (by omega) hhi)
      (Int.le_of_lt hbr) (Int.le_of_lt hra) with ⟨found, hfound, hseq⟩
    have heq : found = row := eq_of_seq_eq hchain.pairwise (hsub.subset hfound) hrow hseq
    rw [← heq] at hgone
    exact hgone (hkept found hfound)

/-! ## The audit chain over every interleaving -/

mutual

/-- The value holds no floating-point number. -/
def Value.floatFree : Value → Bool
  | .number (.float _) => false
  | .array values => floatFreeValues values
  | .object members => floatFreeMembers members
  | _ => true

def floatFreeValues : List Value → Bool
  | [] => true
  | value :: values => value.floatFree && floatFreeValues values

def floatFreeMembers : List (String × Value) → Bool
  | [] => true
  | (_, value) :: members => value.floatFree && floatFreeMembers members

end

/-- The details that the relay logs hold texts, integers and nulls. -/
def FloatFreeInput : Service → Input → Prop
  | _, .log _ entry => entry.detail.floatFree = true
  | _, _ => True

/-- The table after a run of interleaved calls. -/
def reachedTable (lib : Libraries) (store : Store) (inputs : List Input) : Table :=
  (Run.run (Service.step lib store) Service.initial inputs).table

/-- Over every interleaving of `log` calls each community's rows are numbered from one without gaps
and linked by their hashes, every non-empty range verifies, and no range that an edit has damaged
verifies. -/
theorem audit_chain (lib : Libraries) (store : Store)
    (hjsonb : ∀ value : Value, value.floatFree = true → StableDetail lib store value)
    (inputs : List Input)
    (hinputs : Run.Along FloatFreeInput (Service.step lib store) Service.initial inputs) :
    (∀ c : CommunityId,
      (rowsOf (reachedTable lib store inputs) c.uuid).map Row.seq =
          (List.range (rowsOf (reachedTable lib store inputs) c.uuid).length).map
            (fun i : Nat => 1 + (i : Int)) ∧
      (∀ row ∈ rowsOf (reachedTable lib store inputs) c.uuid,
        (row.seq = 1 ∧ row.prevHash = none) ∨
          ∃ before ∈ rowsOf (reachedTable lib store inputs) c.uuid,
            row.seq = before.seq + 1 ∧ row.prevHash = some before.hash) ∧
      ∀ lo hi : Int,
        (∃ row ∈ rowsOf (reachedTable lib store inputs) c.uuid, lo ≤ row.seq ∧ row.seq ≤ hi) →
          verifyChain lib (reachedTable lib store inputs) c lo hi = .ok true) ∧
    ∀ (edit : Edit) (c : CommunityId) (lo hi : Int),
      CollisionFree lib (hashed lib (reachedTable lib store inputs) ∪
        hashed lib (edited edit (reachedTable lib store inputs))) →
      Damages edit (reachedTable lib store inputs) c.uuid lo hi →
        verifyChain lib (edited edit (reachedTable lib store inputs)) c lo hi ≠ .ok true := by
  have hstable : Run.Along (StableInput lib store) (Service.step lib store) Service.initial
      inputs := by
    refine hinputs.mono ?_
    intro s input hfloat
    cases input with
    | log id entry => exact hjsonb entry.detail hfloat
    | _ => trivial
  have hsound := sound_run hstable
  unfold reachedTable
  refine ⟨?_, ?_⟩
  · intro c
    have hchain := hsound.chain c.uuid
    refine ⟨?_, ?_, ?_⟩
    · simpa using hchain.map_seq
    · intro row hrow
      simpa using hchain.exists_pred hrow
    · intro lo hi hrow
      exact hsound.verifyChain_ok hrow
  · intro edit c lo hi hfree hdamages
    exact hsound.not_verifyChain hfree hdamages

/-! ## A chain of three rows -/

/-- The libraries on the inputs of the samples below.  The digests are those of SHA-256; the inputs
are told apart by the last byte of the number and the first byte and the length of the detail. -/
def sampleLib : Libraries where
  sha256 := fun bytes =>
    match bytes.getD 23 0, bytes.getD 64 0, bytes.length with
    | 1, 110, _ => beBytes 32 0x3553c0e8d408235c7db31b11afd1c29ec0a2b7f2282d8b2370b9bc8d133c4716
    | 2, 110, _ => beBytes 32 0x5e78068f0221b75cba8f9606b13ffc66a13632ca9a67f5bb565fe3a771b27ec1
    | 3, 110, _ => beBytes 32 0xf258fde37a0461ef8483b1db1e282971183a2c94552e51ba3b037a8864c1ad15
    | 1, 49, 100 => beBytes 32 0x092b25e679baed85895b74583f64c4b2c5914ecf1a49e2f03bfac5e3f14d57a2
    | 1, 49, 113 => beBytes 32 0x78ad87240083c00be677f9627efee8083dacedccec88dde75580a52e59c215ae
    | _, _, _ => []
  toRfc3339 := fun _ => utf8 "1970-01-01T00:00:00+00:00"
  stringText := fun s => utf8 ("\"" ++ s ++ "\"")
  floatText := fun _ => "1e16"

/-- The bits of `1e16`. -/
def bits1e16 : BitVec 64 := 0x4341c37937e08000

/-- A store that prints a number of a `JSONB` value without its exponent, so that a large float
comes back as an integer. -/
def sampleStore : Store where
  jsonb := fun value =>
    match value with
    | .number (.float bits) =>
        if bits = bits1e16 then .number (.int 10000000000000000) else value
    | _ => value
  lockKey := fun c => c.uuid.toNat
  maxRows := 1000
  maxRows_lt := by decide

/-- One call of a community from start to end. -/
def sampleCall (id : Nat) (detail : Value) : List Input :=
  [.log id ⟨⟨1⟩, .eventCreated, none, none, detail⟩, .lock id, .readHead id, .insert id 0,
    .unlock id]

/-- Three calls of one community, one after the other. -/
def sampleInputs : List Input := [1, 2, 3].flatMap fun id => sampleCall id .null

/-- Renumber the last of the three rows. -/
def renumberLast : Edit := fun row =>
  if row.seq = 3 then some (row.communityId, 10)
  else some (row.communityId, BitVec.ofInt 64 row.seq)

/-- Renumbering the last row of a verified range out of the range goes unnoticed there, and a row
whose detail the store gives back with another text does not verify. -/
theorem end_renumbered_and_float_logged :
    (verifyChain sampleLib (reachedTable sampleLib sampleStore sampleInputs) ⟨1⟩ 1 3 = .ok true ∧
      (reachedTable sampleLib sampleStore sampleInputs).map Row.seq = [1, 2, 3] ∧
      (edited renumberLast (reachedTable sampleLib sampleStore sampleInputs)).map Row.seq =
        [1, 2, 10] ∧
      verifyChain sampleLib (edited renumberLast (reachedTable sampleLib sampleStore sampleInputs))
        ⟨1⟩ 1 3 = .ok true) ∧
    (reachedTable sampleLib sampleStore (sampleCall 1 (.number (.float bits1e16)))).map Row.seq =
        [1] ∧
      verifyChain sampleLib
        (reachedTable sampleLib sampleStore (sampleCall 1 (.number (.float bits1e16)))) ⟨1⟩ 1 1 =
          .error (.hashMismatch 1) :=
  ⟨⟨rfl, rfl, rfl, rfl⟩, rfl, rfl⟩

def deleteMiddle : Edit := fun row =>
  if row.seq = 2 then none else some (row.communityId, BitVec.ofInt 64 row.seq)

def sampleRow (seq : Int) (hash : Bytes) (prevHash : Option Bytes) : Row :=
  ⟨1, seq, hash, prevHash, "event_created", none, none, .null, 0⟩

/-- The bytes hashed for a row of the sample. -/
def sampleInput (seq : Int) (prevHash : Option Bytes) : Bytes :=
  hashInput sampleLib ⟨1, seq, [], prevHash, .eventCreated, none, none, .null, 0⟩

def firstHash : Bytes := sampleLib.sha256 (sampleInput 1 none)

def secondHash : Bytes := sampleLib.sha256 (sampleInput 2 (some firstHash))

def thirdHash : Bytes := sampleLib.sha256 (sampleInput 3 (some secondHash))

theorem sampleTable_eq :
    reachedTable sampleLib sampleStore sampleInputs =
      [sampleRow 1 firstHash none, sampleRow 2 secondHash (some firstHash),
        sampleRow 3 thirdHash (some secondHash)] := rfl

theorem editedTable_eq :
    edited deleteMiddle (reachedTable sampleLib sampleStore sampleInputs) =
      [sampleRow 1 firstHash none, sampleRow 3 thirdHash (some secondHash)] := rfl

theorem hashInput_sampleRow {seq : Int} {hash : Bytes} {prevHash : Option Bytes}
    {entry : AuditEntry} (h : rowToAuditEntry (sampleRow seq hash prevHash) = .ok entry) :
    hashInput sampleLib entry = sampleInput seq prevHash := by
  have hentry : rowToAuditEntry (sampleRow seq hash prevHash) =
      .ok ⟨1, seq, hash, prevHash, .eventCreated, none, none, .null, 0⟩ := rfl
  rw [hentry] at h
  cases h
  rfl

theorem hashed_sample {table : Table}
    (htable : table ⊆ reachedTable sampleLib sampleStore sampleInputs) {bytes : Bytes}
    (h : bytes ∈ hashed sampleLib table) :
    bytes = sampleInput 1 none ∨ bytes = sampleInput 2 (some firstHash) ∨
      bytes = sampleInput 3 (some secondHash) := by
  rcases h with ⟨row, hrow, entry, hentry, hbytes⟩
  have hmem := htable hrow
  rw [sampleTable_eq] at hmem
  rw [hbytes]
  simp only [List.mem_cons, List.not_mem_nil, or_false] at hmem
  rcases hmem with rfl | rfl | rfl
  · exact Or.inl (hashInput_sampleRow hentry)
  · exact Or.inr (Or.inl (hashInput_sampleRow hentry))
  · exact Or.inr (Or.inr (hashInput_sampleRow hentry))

theorem collisionFree_sample :
    CollisionFree sampleLib (hashed sampleLib (reachedTable sampleLib sampleStore sampleInputs) ∪
      hashed sampleLib (edited deleteMiddle (reachedTable sampleLib sampleStore sampleInputs))) := by
  have hsub : edited deleteMiddle (reachedTable sampleLib sampleStore sampleInputs) ⊆
      reachedTable sampleLib sampleStore sampleInputs := by
    rw [editedTable_eq, sampleTable_eq]
    intro row hrow
    simp only [List.mem_cons, List.not_mem_nil, or_false] at hrow ⊢
    tauto
  have hcases : ∀ bytes ∈ hashed sampleLib (reachedTable sampleLib sampleStore sampleInputs) ∪
      hashed sampleLib (edited deleteMiddle (reachedTable sampleLib sampleStore sampleInputs)),
      bytes = sampleInput 1 none ∨ bytes = sampleInput 2 (some firstHash) ∨
        bytes = sampleInput 3 (some secondHash) := by
    rintro bytes (hbytes | hbytes)
    · exact hashed_sample (fun _ h => h) hbytes
    · exact hashed_sample hsub hbytes
  have h12 : firstHash ≠ secondHash := by decide
  have h13 : firstHash ≠ thirdHash := by decide
  have h23 : secondHash ≠ thirdHash := by decide
  intro x hx y hy hsha
  rcases hcases x hx with rfl | rfl | rfl
  · rcases hcases y hy with rfl | rfl | rfl
    · rfl
    · exact absurd hsha h12
    · exact absurd hsha h13
  · rcases hcases y hy with rfl | rfl | rfl
    · exact absurd hsha h12.symm
    · rfl
    · exact absurd hsha h23
  · rcases hcases y hy with rfl | rfl | rfl
    · exact absurd hsha h13.symm
    · exact absurd hsha h23.symm
    · rfl

theorem stableDetail_sample (value : Value) (h : value.floatFree = true) :
    StableDetail sampleLib sampleStore value := by
  have hsame : sampleStore.jsonb value = value := by
    unfold sampleStore
    dsimp only
    split
    · cases h
    · rfl
  unfold StableDetail
  rw [hsame]

theorem damages_sample :
    Damages deleteMiddle (reachedTable sampleLib sampleStore sampleInputs) 1 1 3 := by
  have hrow : ∀ row ∈ reachedTable sampleLib sampleStore sampleInputs,
      row ∈ rowsOf (reachedTable sampleLib sampleStore sampleInputs) 1 := by
    rw [sampleTable_eq]
    intro row hrow
    exact hrow
  rw [sampleTable_eq] at hrow ⊢
  refine Or.inr ⟨sampleRow 2 secondHash (some firstHash), hrow _ (by simp), ?_,
    sampleRow 1 firstHash none, hrow _ (by simp), sampleRow 3 thirdHash (some secondHash),
    hrow _ (by simp), rfl, rfl, by decide, by decide, by decide, by decide⟩
  intro hkept
  cases hkept

/-- The rows of the sample verify, and without the row in the middle they do not. -/
theorem audit_chain_sample :
    verifyChain sampleLib (reachedTable sampleLib sampleStore sampleInputs) ⟨1⟩ 1 3 = .ok true ∧
      verifyChain sampleLib
        (edited deleteMiddle (reachedTable sampleLib sampleStore sampleInputs)) ⟨1⟩ 1 3 ≠
          .ok true := by
  have hinputs : Run.Along FloatFreeInput (Service.step sampleLib sampleStore) Service.initial
      sampleInputs := by
    refine ⟨rfl, trivial, trivial, trivial, trivial, rfl, trivial, trivial, trivial, trivial, rfl,
      trivial, trivial, trivial, trivial, trivial⟩
  have h := audit_chain sampleLib sampleStore stableDetail_sample sampleInputs hinputs
  refine ⟨(h.1 ⟨1⟩).2.2 1 3 ⟨sampleRow 1 firstHash none, ?_, by decide, by decide⟩,
    h.2 deleteMiddle ⟨1⟩ 1 3 collisionFree_sample damages_sample⟩
  rw [sampleTable_eq]
  exact List.mem_cons_self

end Audit
end Maju
