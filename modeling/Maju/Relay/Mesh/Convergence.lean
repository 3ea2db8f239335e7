import Maju.Relay.Mesh.Gossip

/-!
# Convergence — gossip brings all tables to the same versions

* `Spread` — which runtimes and messages the record of a source has reached over a chain of
  exchanges: a runtime that was reached answers a digest, and the sender of the digest applies the
  answer;
* `NamesOne` — a runtime and a version name one record; it holds for every run in which no version
  reaches the greatest `u64` (`namesOne_reached`);
* `gossip_convergence` — versions never move back, no table holds a peer entry for its own
  runtime, a delta brings its receiver up to its sender even if the digest is stale, records can be
  applied in any order and any number of times, and after the last update tables agree as soon as
  every runtime is reached from every other.
-/

namespace Maju
namespace Relay
namespace Mesh

open Lib Tunnel

/-! ## Chains of exchanges -/

/-- What the record of a source has reached; `deltas` are the positions of those sent by a runtime
reached before. -/
structure Spread where
  runtimes : List RuntimeId
  deltas : List Nat
  deriving DecidableEq, Repr

namespace Spread

def start (source : RuntimeId) : Spread := ⟨[source], []⟩

def step (s : Spread) (w : World) : Input → Spread
  | .answer runtime digest =>
      if runtime ∈ s.runtimes ∧ (w.answerTo runtime digest).isSome
      then { s with deltas := w.deltas.length :: s.deltas }
      else s
  | .deliver delta =>
      match w.deltas[delta]? with
      | some (runtime, _) =>
          if delta ∈ s.deltas ∧ (w.members.lookup runtime).isSome
          then { s with runtimes := runtime :: s.runtimes }
          else s
      | none => s
  | _ => s

end Spread

/-- One step of the world and of what has been reached in it. -/
def spreadStep (p : World × Spread) (input : Input) : World × Spread :=
  (p.1.step input, p.2.step p.1 input)

def spread (w : World) (source : RuntimeId) (inputs : List Input) : Spread :=
  (Run.run spreadStep (w, .start source) inputs).2

theorem fst_run_spreadStep (p : World × Spread) (inputs : List Input) :
    (Run.run spreadStep p inputs).1 = Run.run World.step p.1 inputs := by
  induction inputs generalizing p with
  | nil => rfl
  | cons input inputs ih => exact ih (spreadStep p input)

/-- The record of the source, at a rank, is where the spread says. -/
structure Carries (source : RuntimeId) (n : Nat) (p : World × Spread) : Prop where
  sound : p.1.Sound
  runtimes : ∀ runtime ∈ p.2.runtimes, n ≤ p.1.rank runtime source
  deltas : ∀ i ∈ p.2.deltas, ∃ delta, p.1.deltas[i]? = some delta ∧
    (n ≤ p.1.rank delta.1 source ∨
      ∃ record ∈ delta.2, record.runtimeId = source ∧ n ≤ record.version + 1)

variable {source : RuntimeId} {n : Nat} {w : World} {s : Spread}

theorem getElem?_deltas_step (w : World) (input : Input) {i : Nat}
    {delta : RuntimeId × List GossipRecord} (h : w.deltas[i]? = some delta) :
    (w.step input).deltas[i]? = some delta := by
  have hlt : i < w.deltas.length := (List.getElem?_eq_some_iff.1 h).1
  cases input with
  | answer runtime digest =>
      simp only [World.step]
      split
      · exact (List.getElem?_append_left hlt).trans h
      · exact h
  | _ =>
      simp only [World.step]
      repeat' split
      all_goals exact h

theorem Carries.of_step (h : Carries source n (w, s)) (input : Input) :
    Carries source n (w.step input, s) := by
  rcases h.sound.step_cases input with ⟨hsound, hrank⟩
  refine ⟨hsound, ?_, ?_⟩
  · intro runtime hruntime
    exact (h.runtimes runtime hruntime).trans (hrank runtime source)
  · intro i hi
    rcases h.deltas i hi with ⟨delta, hdelta, hcarried⟩
    refine ⟨delta, getElem?_deltas_step w input hdelta, ?_⟩
    rcases hcarried with hheld | hrecord
    · exact Or.inl (hheld.trans (hrank delta.1 source))
    · exact Or.inr hrecord

/-- The answer of a runtime that was reached carries the record, unless the digest shows that its
sender holds it already. -/
theorem Carries.answer (h : Carries source n (w, s)) (hn : 0 < n) {runtime : RuntimeId}
    {digest : Nat} {delta : RuntimeId × List GossipRecord} (hreached : runtime ∈ s.runtimes)
    (hanswer : w.answerTo runtime digest = some delta) :
    n ≤ w.rank delta.1 source ∨
      ∃ record ∈ delta.2, record.runtimeId = source ∧ n ≤ record.version + 1 := by
  rcases World.answerTo_eq_some hanswer with ⟨m, entries, hm, hdigest, hrecords⟩
  have hrank : n ≤ Versioned.rank GossipRecord.version (m.recordOf source) := by
    have hruntime := h.runtimes runtime hreached
    rwa [World.rank_of_lookup hm] at hruntime
  cases hheld : m.recordOf source with
  | none =>
      rw [hheld, Versioned.rank_none] at hrank
      exact absurd hn (Nat.not_lt.2 hrank)
  | some record =>
      rw [hheld, Versioned.rank_some] at hrank
      have hwf := (h.sound.members runtime m hm).1
      have hid := hwf.runtimeId_of_recordOf hheld
      have hmem : record ∈ m.records := (hwf.mem_records record).2 (hid ▸ hheld)
      rcases MeshMembership.mem_deltaFor_or entries hmem with
        hin | ⟨entry, hentry, hentryId, hversion⟩
      · exact Or.inr ⟨record, hrecords ▸ hin, hid, hrank⟩
      · have hknown := h.sound.digests _ (List.mem_of_getElem? hdigest) entry hentry
        rw [hentryId, hid] at hknown
        exact Or.inl (hrank.trans ((Nat.succ_le_succ hversion).trans hknown))

theorem Carries.deliver (h : Carries source n (w, s)) {i : Nat} {runtime : RuntimeId}
    {records : List GossipRecord} {m : MeshMembership}
    (hdelta : w.deltas[i]? = some (runtime, records)) (hi : i ∈ s.deltas)
    (hm : w.members.lookup runtime = some m) :
    n ≤ (w.step (.deliver i)).rank runtime source := by
  rcases h.deltas i hi with ⟨delta, hdelta', hcarried⟩
  cases hdelta.symm.trans hdelta'
  rcases hcarried with hheld | ⟨record, hrecord, hid, hversion⟩
  · exact hheld.trans ((h.sound.step_cases (.deliver i)).2 runtime source)
  · have howned := h.sound.owned record
      (h.sound.sent _ (List.mem_of_getElem? hdelta) record hrecord)
    rw [hid] at howned
    by_cases hself : runtime = source
    · -- the source itself holds its record
      rw [hself]
      exact (hversion.trans howned).trans ((h.sound.step_cases (.deliver i)).2 source source)
    · have hlocal : record.runtimeId ≠ m.localRuntimeId := by
        rw [(h.sound.members runtime m hm).2, hid]
        exact fun heq => hself heq.symm
      have happlied := MeshMembership.le_rankOf_applyDelta hrecord hlocal
      simp only [World.step, hdelta, hm]
      rw [World.rank_of_lookup (AList.lookup_insert _), ← hid]
      exact hversion.trans happlied

theorem Carries.step (h : Carries source n (w, s)) (hn : 0 < n) (input : Input) :
    Carries source n (spreadStep (w, s) input) := by
  have hkept := h.of_step input
  cases input with
  | answer runtime digest =>
      simp only [spreadStep, Spread.step]
      split_ifs with hreached
      · rcases Option.isSome_iff_exists.1 hreached.2 with ⟨delta, hanswer⟩
        refine ⟨hkept.sound, hkept.runtimes, ?_⟩
        intro i hi
        rcases List.mem_cons.1 hi with rfl | hold
        · refine ⟨delta, ?_, ?_⟩
          · simp [World.step, hanswer]
          · have hcarried := h.answer hn hreached.1 hanswer
            rcases hcarried with hheld | hrecord
            · exact Or.inl (hheld.trans ((h.sound.step_cases _).2 delta.1 source))
            · exact Or.inr hrecord
        · exact hkept.deltas i hold
      · exact hkept
  | deliver i =>
      simp only [spreadStep, Spread.step]
      split
      · next runtime records hdelta =>
          split_ifs with hreached
          · rcases Option.isSome_iff_exists.1 hreached.2 with ⟨m, hm⟩
            refine ⟨hkept.sound, ?_, hkept.deltas⟩
            intro holder hholder
            rcases List.mem_cons.1 hholder with rfl | hold
            · exact h.deliver hdelta hreached.1 hm
            · exact hkept.runtimes holder hold
          · exact hkept
      · exact hkept
  | _ => exact hkept

theorem rank_le_of_spread (hw : w.Sound) {inputs : List Input} {runtime : RuntimeId}
    (h : runtime ∈ (spread w source inputs).runtimes) :
    w.rank source source ≤ (Run.run World.step w inputs).rank runtime source := by
  rcases Nat.eq_zero_or_pos (w.rank source source) with hzero | hpos
  · rw [hzero]
    exact Nat.zero_le _
  · have hstart : Carries source (w.rank source source) (w, .start source) := by
      refine ⟨hw, ?_, ?_⟩
      · intro holder hholder
        rw [List.mem_singleton.1 hholder]
      · intro i hi
        cases hi
    have hend := Run.invariant_of_step (Carries source (w.rank source source))
      (fun p input hp => hp.step hpos input) hstart inputs
    rw [← fst_run_spreadStep (w, .start source)]
    exact hend.runtimes runtime h

/-! ## After the last update -/

def Input.Quiet : Input → Prop
  | .boot _ => False
  | .update _ _ _ => False
  | _ => True

instance : DecidablePred Input.Quiet := fun input => by
  cases input <;> unfold Input.Quiet <;> infer_instance

theorem issued_quiet {input : Input} (h : input.Quiet) : (w.step input).issued = w.issued := by
  cases input with
  | boot record => cases h
  | update runtime update now => cases h
  | _ =>
      simp only [World.step]
      repeat' split
      all_goals rfl

theorem issued_run_quiet {inputs : List Input} (h : ∀ input ∈ inputs, input.Quiet) :
    (Run.run World.step w inputs).issued = w.issued := by
  induction inputs generalizing w with
  | nil => rfl
  | cons input inputs ih =>
      have htail := ih (w := w.step input) fun i hi => h i (List.mem_cons_of_mem input hi)
      exact htail.trans (issued_quiet (h input List.mem_cons_self))

theorem World.Sound.rank_le (hw : w.Sound) {later : World} (hlater : later.Sound)
    (hissued : later.issued = w.issued) (holder runtime : RuntimeId) :
    later.rank holder runtime ≤ w.rank runtime runtime := by
  cases hm : later.members.lookup holder with
  | none => simp [World.rank, hm]
  | some m =>
      rw [World.rank_of_lookup hm, MeshMembership.rankOf]
      cases hheld : m.recordOf runtime with
      | none => simp
      | some record =>
          have hwf := (hlater.members holder m hm).1
          have hid := hwf.runtimeId_of_recordOf hheld
          have hmem : record ∈ m.records := (hwf.mem_records record).2 (hid ▸ hheld)
          have hin : record ∈ w.issued := hissued ▸ hlater.held holder m hm record hmem
          have howned := hw.owned record hin
          rwa [hid] at howned

/-! ## Records named by runtime and version -/

/-- A runtime and a version name one record. -/
def NamesOne (records : List GossipRecord) : Prop :=
  ∀ a ∈ records, ∀ b ∈ records, a.runtimeId = b.runtimeId → a.version = b.version → a = b

instance (records : List GossipRecord) : Decidable (NamesOne records) := by
  unfold NamesOne
  infer_instance

theorem NamesOne.concat {records : List GossipRecord} (h : NamesOne records) {fresh : GossipRecord}
    (hnew : ∀ record ∈ records, record.runtimeId = fresh.runtimeId →
      record.version < fresh.version) : NamesOne (records ++ [fresh]) := by
  intro a ha b hb hid hversion
  rcases List.mem_append.1 ha with ha | ha
  · rcases List.mem_append.1 hb with hb | hb
    · exact h a ha b hb hid hversion
    · rw [List.mem_singleton.1 hb] at hid hversion
      exact absurd hversion (Nat.ne_of_lt (hnew a ha hid))
  · rcases List.mem_append.1 hb with hb | hb
    · rw [List.mem_singleton.1 ha] at hid hversion
      exact absurd hversion.symm (Nat.ne_of_lt (hnew b hb hid.symm))
    · rw [List.mem_singleton.1 ha, List.mem_singleton.1 hb]

theorem issued_step (w : World) (input : Input) :
    (w.step input).issued = w.issued ∨ ∃ record, (w.step input).issued = w.issued ++ [record] := by
  cases input with
  | boot record =>
      simp only [World.step]
      split_ifs
      · exact Or.inl rfl
      · exact Or.inr ⟨record, rfl⟩
  | update runtime update now =>
      simp only [World.step]
      split
      · exact Or.inr ⟨_, rfl⟩
      · exact Or.inl rfl
  | _ => exact Or.inl (issued_quiet trivial)

theorem NamesOne.step (h : NamesOne w.issued) (hw : w.Sound) (input : Input)
    (hbound : ∀ record ∈ (w.step input).issued, record.version < u64Max) :
    NamesOne (w.step input).issued := by
  cases input with
  | boot record =>
      simp only [World.step] at hbound ⊢
      split_ifs with hknown
      · exact h
      · -- a runtime that is not there has issued nothing
        apply h.concat
        intro old hold hid
        have howned := hw.owned old hold
        rw [hid, World.rank, Option.not_isSome_iff_eq_none.1 hknown] at howned
        exact absurd howned (Nat.not_succ_le_zero _)
  | update runtime update now =>
      simp only [World.step] at hbound ⊢
      split at hbound
      · next m hm =>
          rcases hw.members runtime m hm with ⟨hwf, hlocal⟩
          apply h.concat
          intro old hold hid
          have hid' : old.runtimeId = runtime :=
            hid.trans ((update.keeps_runtimeId _).trans (hwf.localId.trans hlocal))
          have howned := hw.owned old hold
          rw [hid', hw.rankOf_local hm] at howned
          have hnew := hbound _ (List.mem_append_right _ (List.mem_singleton.2 rfl))
          simp only [MeshMembership.updateLocal, update.keeps_version] at hnew ⊢
          split_ifs at hnew ⊢ with hroom
          · omega
          · exact absurd hnew hroom
      · exact h
  | _ =>
      simp only [World.step]
      repeat' split
      all_goals exact h

/-- As long as no version reaches the greatest `u64`, a runtime and a version name one record. -/
theorem namesOne_reached (inputs : List Input)
    (h : ∀ record ∈ (World.reached inputs).issued, record.version < u64Max) :
    NamesOne (World.reached inputs).issued := by
  induction inputs using List.reverseRecOn with
  | nil =>
      intro a ha
      cases ha
  | append_singleton inputs input ih =>
      rw [World.reached_append] at h ⊢
      change ∀ record ∈ ((World.reached inputs).step input).issued, record.version < u64Max at h
      have hbefore : ∀ record ∈ (World.reached inputs).issued, record.version < u64Max := by
        intro record hrecord
        apply h record
        rcases issued_step (World.reached inputs) input with heq | ⟨fresh, heq⟩
        · rwa [heq]
        · rw [heq]
          exact List.mem_append_left _ hrecord
      exact (ih hbefore).step (World.sound_reached inputs) input h

/-! ## The results -/

theorem applyDelta_congr (hw : w.Sound) (hnames : NamesOne w.issued) {runtime : RuntimeId}
    {m : MeshMembership} (hm : w.members.lookup runtime = some m)
    {records records' : List GossipRecord} (hrecords : ∀ record ∈ records, record ∈ w.issued)
    (hsame : ∀ record, record ∈ records ↔ record ∈ records') (peer : RuntimeId) :
    (m.applyDelta records).recordOf peer = (m.applyDelta records').recordOf peer := by
  by_cases hlocal : peer = m.localRuntimeId
  · rw [hlocal, MeshMembership.recordOf_applyDelta_local,
      MeshMembership.recordOf_applyDelta_local]
  · rw [MeshMembership.recordOf_applyDelta hlocal, MeshMembership.recordOf_applyDelta hlocal]
    have hwf := (hw.members runtime m hm).1
    -- the issued records of one runtime are told apart by their versions
    have hinj : Set.InjOn GossipRecord.version
        {record | record ∈ w.issued ∧ record.runtimeId = peer} := by
      rintro a ⟨ha, haid⟩ b ⟨hb, hbid⟩ hversion
      exact hnames a ha b hb (haid.trans hbid.symm) hversion
    apply Versioned.foldl_offer_congr hinj
    · intro record hheld
      have hid := hwf.runtimeId_of_recordOf hheld
      exact ⟨hw.held runtime m hm record ((hwf.mem_records record).2 (hid ▸ hheld)), hid⟩
    · intro record hrecord
      rcases List.mem_filter.1 hrecord with ⟨hmem, hid⟩
      exact ⟨hrecords record hmem, of_decide_eq_true hid⟩
    · intro record
      rw [List.mem_filter, List.mem_filter, hsame record]

theorem delta_covers {before later : List Input} {b : RuntimeId}
    {atDigest atAnswer atDelivery : MeshMembership}
    (hdigest : (World.reached before).members.lookup b = some atDigest)
    (hdelivery : (World.reached (before ++ later)).members.lookup b = some atDelivery)
    {record : GossipRecord} (hrecord : record ∈ atAnswer.records) (hother : record.runtimeId ≠ b) :
    record.version + 1 ≤
      (atDelivery.applyDelta (atAnswer.deltaFor atDigest.digest)).rankOf record.runtimeId := by
  have hsound := World.sound_reached before
  have hlocal := ((World.sound_reached (before ++ later)).members b _ hdelivery).2
  rcases MeshMembership.mem_deltaFor_or atDigest.digest hrecord with hin | ⟨entry, hentry, hid, hle⟩
  · exact MeshMembership.le_rankOf_applyDelta hin (hlocal.symm ▸ hother)
  · -- the receiver held the record, or a newer one, when it took the digest
    rcases MeshMembership.mem_digest.1 hentry with ⟨held, hheld, hheldId, hheldVersion⟩
    have hwf := (hsound.members b atDigest hdigest).1
    calc
      record.version + 1 ≤ held.version + 1 := by
        rw [hheldVersion]
        exact Nat.succ_le_succ hle
      _ = atDigest.rankOf record.runtimeId := by
        rw [MeshMembership.rankOf, ← hid, ← hheldId, (hwf.mem_records held).1 hheld,
          Versioned.rank_some]
      _ = (World.reached before).rank b record.runtimeId :=
        (World.rank_of_lookup hdigest _).symm
      _ ≤ (World.reached (before ++ later)).rank b record.runtimeId := by
        rw [World.reached_append]
        exact hsound.rank_le_run later b record.runtimeId
      _ = atDelivery.rankOf record.runtimeId := World.rank_of_lookup hdelivery _
      _ ≤ _ := MeshMembership.rankOf_le_applyDelta _ _

theorem rank_eq_of_spread {before after : List Input} (hquiet : ∀ input ∈ after, input.Quiet)
    (hspread : ∀ a b, ((World.reached before).members.lookup a).isSome →
      ((World.reached before).members.lookup b).isSome →
      b ∈ (spread (World.reached before) a after).runtimes)
    {holder : RuntimeId} (hholder : ((World.reached before).members.lookup holder).isSome)
    (runtime : RuntimeId) :
    (World.reached (before ++ after)).rank holder runtime =
      (World.reached before).rank runtime runtime := by
  have hsound := World.sound_reached before
  rw [World.reached_append]
  apply Nat.le_antisymm
  · exact hsound.rank_le (hsound.run after) (issued_run_quiet hquiet) holder runtime
  · cases hm : (World.reached before).members.lookup runtime with
    | none =>
        rw [World.rank, hm]
        exact Nat.zero_le _
    | some m => exact rank_le_of_spread hsound (hspread runtime holder (by simp [hm]) hholder)

/-- **Gossip convergence.**  In every run of a mesh, with messages lost, late and repeated:

* what a runtime holds of any runtime never moves back, and no table has a peer entry for its own
  runtime;
* after `b` applies the delta with which `a` answered a digest of `b`, taken at any earlier time,
  `b` holds every record that `a` held at the answer, other than `b`'s own, or a newer one;
* a runtime and a version name one record while no version reaches the greatest `u64`, and where
  they do, issued records leave the same records behind in every order and number;
* when nothing is issued any more and a chain of exchanges leads from every runtime to every other,
  all hold the version of every record that its owner has. -/
theorem gossip_convergence :
    (∀ before after holder runtime, (World.reached before).rank holder runtime ≤
      (World.reached (before ++ after)).rank holder runtime) ∧
    (∀ inputs runtime m, (World.reached inputs).members.lookup runtime = some m →
      m.peers.lookup runtime = none) ∧
    (∀ before between late a b atDigest atAnswer atDelivery,
      (World.reached before).members.lookup b = some atDigest →
      (World.reached (before ++ between)).members.lookup a = some atAnswer →
      (World.reached (before ++ (between ++ late))).members.lookup b = some atDelivery →
      ∀ record ∈ atAnswer.records, record.runtimeId ≠ b →
        record.version + 1 ≤
          (atDelivery.applyDelta (atAnswer.deltaFor atDigest.digest)).rankOf record.runtimeId) ∧
    (∀ inputs, (∀ record ∈ (World.reached inputs).issued, record.version < u64Max) →
      NamesOne (World.reached inputs).issued) ∧
    (∀ inputs runtime m, (World.reached inputs).members.lookup runtime = some m →
      NamesOne (World.reached inputs).issued →
      ∀ records records', (∀ record ∈ records, record ∈ (World.reached inputs).issued) →
        (∀ record, record ∈ records ↔ record ∈ records') →
        ∀ peer, (m.applyDelta records).recordOf peer = (m.applyDelta records').recordOf peer) ∧
    ∀ before after, (∀ input ∈ after, input.Quiet) →
      (∀ a b, ((World.reached before).members.lookup a).isSome →
        ((World.reached before).members.lookup b).isSome →
        b ∈ (spread (World.reached before) a after).runtimes) →
      ∀ holder, ((World.reached before).members.lookup holder).isSome →
        ∀ runtime, (World.reached (before ++ after)).rank holder runtime =
          (World.reached (before ++ after)).rank runtime runtime := by
  refine ⟨?_, ?_, ?_, namesOne_reached, ?_, ?_⟩
  · intro before after holder runtime
    rw [World.reached_append]
    exact (World.sound_reached before).rank_le_run after holder runtime
  · intro inputs runtime m hm
    rcases (World.sound_reached inputs).members runtime m hm with ⟨hwf, hlocal⟩
    rw [← hlocal]
    exact hwf.apart
  · intro before between late a b atDigest atAnswer atDelivery hdigest _ hdelivery record hrecord
    exact delta_covers hdigest hdelivery hrecord
  · intro inputs runtime m hm hnames records records' hrecords hsame peer
    exact applyDelta_congr (World.sound_reached inputs) hnames hm hrecords hsame peer
  · intro before after hquiet hspread holder hholder runtime
    rw [rank_eq_of_spread hquiet hspread hholder]
    cases hm : (World.reached before).members.lookup runtime with
    | none =>
        -- nobody holds a record of a runtime that is not there
        have hzero : (World.reached before).rank runtime runtime = 0 := by rw [World.rank, hm]
        have hle := (World.sound_reached before).rank_le
          ((World.sound_reached before).run after) (issued_run_quiet hquiet) runtime runtime
        rw [← World.reached_append, hzero] at hle
        rw [hzero, Nat.le_zero.1 hle]
    | some m => rw [rank_eq_of_spread hquiet hspread (by simp [hm])]

/-! ## A mesh of three runtimes -/

namespace Sample

def boot (runtime : RuntimeId) : Input := .boot (.new runtime [] 1 0)

/-- Three runtimes start, and the first one drains. -/
def before : List Input := [boot 1, boot 2, boot 3, .update 1 .drain 5]

/-- An exchange: a digest, its answer and the application of the answer. -/
def exchange (i : Nat) (a b : RuntimeId) : List Input := [.announce b, .answer a i, .deliver i]

/-- The record of the first runtime goes over the second to the third, and others come back. -/
def after : List Input := exchange 0 1 2 ++ exchange 1 2 3 ++ exchange 2 3 2 ++ exchange 3 2 1

end Sample

theorem gossip_convergence_sample :
    (∀ input ∈ Sample.after, input.Quiet) ∧ ((World.reached Sample.before).rank 1 1 = 3) ∧
      (World.reached (Sample.before ++ Sample.after)).rank 3 1 =
        (World.reached (Sample.before ++ Sample.after)).rank 1 1 := by
  have hquiet : ∀ input ∈ Sample.after, input.Quiet := by decide
  have hmembers : ∀ a, ((World.reached Sample.before).members.lookup a).isSome →
      a = 1 ∨ a = 2 ∨ a = 3 := by
    intro a ha
    have hkeys : (World.reached Sample.before).members.keys = [1, 3, 2] := by decide
    have hmem : a ∈ (World.reached Sample.before).members.keys :=
      AList.lookup_isSome.1 ha
    rw [hkeys] at hmem
    simp only [List.mem_cons, List.not_mem_nil, or_false] at hmem
    tauto
  have hspread : ([1, 2, 3].all fun a => [1, 2, 3].all fun b =>
      b ∈ (spread (World.reached Sample.before) a Sample.after).runtimes) = true := by
    decide
  simp only [List.all_eq_true, decide_eq_true_eq] at hspread
  refine ⟨hquiet, by decide, ?_⟩
  refine gossip_convergence.2.2.2.2.2 Sample.before Sample.after hquiet ?_ 3 (by decide) 1
  intro a b ha hb
  apply hspread
  · simpa using hmembers a ha
  · simpa using hmembers b hb

end Mesh
end Relay
end Maju
