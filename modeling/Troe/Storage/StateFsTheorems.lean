import Troe.Storage.StateFs
import Troe.Storage.TxSlotReopen

/-!
# What a successful operation of the state filesystem has committed

The unsynced bytes of a run are those of the successful appends since the last successful sync,
write, truncation or removal. They should all be in the committed image when `sync_file` returns
success, and the effect of the other three operations should be committed when they do.

Neither holds in every run. `truncate_file` commits nothing, and every commit drops the pending
buffer first, so that a failed one loses the bytes and the next `sync_file` finds nothing to do. Both
hold in every run in which the file is never truncated and no commit fails while there are pending
bytes.
-/

namespace Troe.Statefs

open Lib Block TxSlot Fs
open TxSlot.Run (readsOnly readsOnly_answer)
open Prog (andThen_done returns_bind returns_pure run_snd runs_run wp_bind wp_mapErr wp_pure
  wp_reject_bind)

/-! ## Commits -/

section

variable {region : BlockRegion} {fs : StateFs} {content : Option Bytes} {m : Media ℕ Bytes}

/-- The committed image holds this file, or its absence. -/
def StateFs.Committed (fs : StateFs) (content : Option Bytes) : Prop :=
  ∃ image, fs.store.payload = some image ∧ parseImage image = .ok content

/-- A store over a region that accepts its requests, with the active record in one of the two
slots. -/
structure Opened (region : BlockRegion) (store : DualSlotStore) : Prop where
  usable : Usable region
  store_eq : store = storeOf region store.active
  slot_lt : ∀ candidate ∈ store.active, candidate.slot < 2

theorem returns_readCandidate (region : BlockRegion) (slot blockBytes : ℕ) :
    (readCandidate region slot blockBytes).Returns fun found => ∀ c ∈ found, c.slot = slot := by
  have hnone : ∀ c ∈ (none : Option Candidate), c.slot = slot := by simp
  refine returns_bind fun _ => returns_bind fun _ => ?_
  refine returns_bind fun data => returns_bind fun commit => ?_
  split
  · exact returns_pure hnone
  · refine returns_bind fun parsed => ?_
    split
    · refine returns_bind fun agrees => ?_
      split
      · exact returns_pure hnone
      · exact returns_pure (by simp)
    · exact returns_pure hnone

theorem mem_of_chooseActive {first second active : Option Candidate} {c : Candidate}
    (h : chooseActive first second = .ok active) (hc : c ∈ active) : c ∈ first ∨ c ∈ second := by
  unfold chooseActive at h
  split at h
  · split at h
    · cases h
    · cases h
      split at hc
      · exact .inl hc
      · exact .inr hc
  all_goals
    cases h
    simp_all

theorem returns_open (hregion : region.Granted) :
    (DualSlotStore.open region).Returns (Opened region) := by
  refine Prog.returns_reject.bind fun _ hsupported => ?_
  refine (returns_readCandidate region 0 _).bind fun first hfirst => ?_
  refine (returns_readCandidate region 1 _).bind fun second hsecond => ?_
  refine (Prog.returns_ofExcept fun active h => h).bind fun active hactive => ?_
  refine returns_pure ⟨usable_of_supported hregion (by simpa using hsupported), rfl, ?_⟩
  intro candidate hcandidate
  rcases mem_of_chooseActive hactive hcandidate with h | h
  · rw [hfirst candidate h]
    omega
  · rw [hsecond candidate h]
    omega

theorem away_lt {active : Option Candidate} (h : ∀ c ∈ active, c.slot < 2) : away active < 2 := by
  cases active with
  | none => exact Nat.zero_lt_two
  | some c => exact Nat.xor_lt_two_pow (n := 1) (h c rfl) Nat.one_lt_two

variable {store : DualSlotStore}

/-- A commit of the store that returns has made its payload the active one. -/
theorem returns_storeCommit (h : Opened region store) (payload : Bytes) :
    (store.commit payload).Returns fun result =>
      Opened region result.2 ∧ result.2.payload = some payload := by
  refine returns_bind fun _ => returns_bind fun generation => ?_
  refine returns_bind fun _ => returns_bind fun data => returns_bind fun sum => ?_
  refine returns_bind fun marker => ?_
  refine returns_bind fun _ => returns_bind fun _ => ?_
  refine returns_bind fun _ => returns_bind fun _ => returns_pure ⟨?_, rfl⟩
  refine ⟨h.usable, ?_, ?_⟩
  · conv_lhs => rw [h.store_eq]
    rfl
  · rintro candidate ⟨⟩
    exact away_lt h.slot_lt

/-- An image that was encoded parses back to its file. -/
theorem returns_encodeImage (content : Option Bytes) :
    (encodeImage content).Returns fun image => parseImage image = .ok content := by
  refine returns_bind fun total => returns_bind fun _ => ?_
  refine Prog.returns_reject.bind fun _ hlength => returns_pure ?_
  exact parseImage_sealImage (not_le.mp hlength)

/-- A commit that returns has committed the file and left the pending buffer alone. -/
theorem returns_commit (h : Opened region fs.store) (content : Option Bytes) :
    (fs.commit content).Returns fun fs' => Opened region fs'.store ∧ fs'.Committed content ∧
      fs'.bytes = content ∧ fs'.pending = fs.pending := by
  refine returns_bind fun _ => (returns_encodeImage content).bind fun image himage => ?_
  refine ((returns_storeCommit h image).mapErr mapPersist).bind ?_
  rintro ⟨generation, store⟩ ⟨hopened, hpayload⟩
  exact returns_pure ⟨hopened, ⟨image, hpayload, himage⟩, rfl, rfl⟩

/-- A commit of this file is accepted, and the device does not fail while it is made. -/
structure StateFs.Accepts (fs : StateFs) (content : Option Bytes) (faults : Bool) : Prop where
  reliable : faults = false
  fits : headerBytes + contentLength content ≤ fs.store.maxPayloadBytes
  generation_lt : fs.generation + 1 < 2 ^ 64

/-- No execution ends in an error. -/
def NoFailure {ε α : Type} (o : Outcome ε α) (_ : Media ℕ Bytes) : Prop := ∀ e, o ≠ .failed e

/-- The device of a region when nothing fails. -/
abbrev sound (region : BlockRegion) : Env Device (Media ℕ Bytes) :=
  deviceEnv region.geometry.logicalBlockBytes false

theorem noFailure_lost {ε α : Type} (m : Media ℕ Bytes) :
    NoFailure (.lost : Outcome ε α) m := fun _ h => nomatch h

theorem noFailure_done {ε α : Type} (a : α) (m : Media ℕ Bytes) :
    NoFailure (.done a : Outcome ε α) m := fun _ h => nomatch h

section

variable {ε β : Type} {Q : Outcome ε β → Media ℕ Bytes → Prop}

theorem wp_sound_reserve {bytes : ℕ} {refused : ε} {f : Unit → Prog Device ε β}
    (hlost : ∀ m, Q .lost m) (h : (f ()).wp (sound region) Q m) :
    (tryReserve bytes refused >>= f).wp (sound region) Q m :=
  wp_tryReserve_bind h (fun h => nomatch h) fun m' _ => hlost m'

end

section

variable {β : Type} {Q : Outcome PersistError β → Media ℕ Bytes → Prop}

variable {f : Bytes → Prog Device PersistError β}

theorem wp_sound_zeroed {bytes : ℕ} (hlost : ∀ m, Q .lost m)
    (h : (f (List.replicate bytes 0)).wp (sound region) Q m) :
    (zeroed bytes >>= f).wp (sound region) Q m :=
  wp_bind.mpr (wp_sound_reserve hlost (wp_pure.mpr h))

theorem wp_sound_encodeData {r : Record} (hr : r.Fits region.geometry.logicalBlockBytes)
    (hlost : ∀ m, Q .lost m)
    (h : (f (dataBlock region.geometry.logicalBlockBytes r)).wp (sound region) Q m) :
    (encodeData region.geometry.logicalBlockBytes r.generation r.payload >>= f).wp
      (sound region) Q m := by
  refine wp_bind.mpr (wp_sound_zeroed hlost ?_)
  exact wp_reject_bind (not_le.mpr hr.payload_lt) (wp_pure.mpr h)

theorem wp_sound_encodeCommit {r : Record} (hlost : ∀ m, Q .lost m)
    (h : (f (commitBlock region.geometry.logicalBlockBytes r)).wp (sound region) Q m) :
    (encodeCommit region.geometry.logicalBlockBytes r.generation
      (recordChecksum region.geometry.logicalBlockBytes r) >>= f).wp (sound region) Q m :=
  wp_bind.mpr (wp_sound_zeroed hlost (wp_pure.mpr h))

theorem wp_sound_write (hu : Usable region) {lba : ℕ} (hlba : lba < 4)
    {source : Bytes} (hsource : source.length = region.geometry.logicalBlockBytes)
    {f : Unit → Prog Device PersistError β} (hlost : ∀ m, Q .lost m)
    (h : ∀ m, (f ()).wp (sound region) Q m) :
    ((region.writeBlocks lba 1 source false).mapErr .block >>= f).wp (sound region) Q m := by
  refine wp_bind.mpr (wp_mapErr.mpr ?_)
  have hvalid : region.validateRequest lba 1 source.length = .ok (region.startBlock + lba) := by
    rw [hsource]
    exact hu.admitted lba hlba
  exact BlockRegion.wp_writeBlocks hu.access hvalid (h _) (fun h => nomatch h) fun m' _ => hlost m'

theorem wp_sound_flush (hu : Usable region) {f : Unit → Prog Device PersistError β}
    (hlost : ∀ m, Q .lost m) (h : ∀ m, (f ()).wp (sound region) Q m) :
    (region.flush.mapErr .block >>= f).wp (sound region) Q m :=
  wp_bind.mpr (wp_mapErr.mpr (BlockRegion.wp_flush hu.access hu.flush (h _)
    (fun h => nomatch h) fun m' _ => hlost m'))

end

/-- A store whose device does not fail commits every payload that fits. -/
theorem wp_noFailure_storeCommit (h : Opened region store) {payload : Bytes}
    (hfits : payload.length ≤ store.maxPayloadBytes) (hgeneration : store.generation + 1 < 2 ^ 64) :
    (store.commit payload).wp (sound region) NoFailure m := by
  obtain ⟨hu, hstore, hslot⟩ := h
  have haway := away_lt hslot
  generalize store.active = active at hstore hslot haway
  subst hstore
  have hr : (attempt active payload).Fits region.geometry.logicalBlockBytes := by
    have hheader := hu.header_le
    simp only [DualSlotStore.maxPayloadBytes, storeOf, dataHeaderBytes] at hfits hheader
    exact ⟨Nat.succ_ne_zero _, hgeneration, by simp only [attempt]; omega, hu.block_le⟩
  refine wp_reject_bind (not_lt.mpr hfits) ?_
  refine Prog.wp_ofOption_bind (checkedAdd_eq_some.mpr ⟨hgeneration, rfl⟩) ?_
  refine wp_sound_reserve noFailure_lost ?_
  refine wp_sound_encodeData hr noFailure_lost ?_
  refine Prog.wp_ofExcept_bind (readU32_dataBlock hr) ?_
  refine wp_sound_encodeCommit (r := attempt active payload) noFailure_lost ?_
  refine wp_sound_write hu (show away active * 2 < 4 by omega) (length_dataBlock hr)
    noFailure_lost fun _ => ?_
  refine wp_sound_flush hu noFailure_lost fun _ => ?_
  refine wp_sound_write hu (show away active * 2 + 1 < 4 by omega) (length_commitBlock hr)
    noFailure_lost fun _ => ?_
  exact wp_sound_flush hu noFailure_lost fun _ => wp_pure.mpr (noFailure_done _ _)

/-- An accepted commit does not fail. -/
theorem wp_noFailure_commit (h : Opened region fs.store) (haccepts : fs.Accepts content false) :
    (fs.commit content).wp (sound region) NoFailure m := by
  obtain ⟨-, hfits, hgeneration⟩ := haccepts
  have hlength : headerBytes + contentLength content < 2 ^ 32 := by
    have hblock := h.usable.block_le
    have hstore : fs.store.blockBytes = region.geometry.logicalBlockBytes := by
      rw [h.store_eq]
      rfl
    rw [DualSlotStore.maxPayloadBytes] at hfits
    rw [maxLogicalBlockBytes] at hblock
    omega
  have hsmall : ¬ (content.any (fs.maxFileBytes < ·.length)) := by
    cases content with
    | none => simp
    | some bytes =>
      simp only [contentLength, Option.elim_some] at hfits
      have hle : bytes.length ≤ fs.maxFileBytes := by
        rw [StateFs.maxFileBytes]
        omega
      simpa using hle
  refine wp_reject_bind hsmall (wp_bind.mpr ?_)
  refine Prog.wp_ofOption_bind (checkedAdd_eq_some.mpr ⟨by omega, rfl⟩) ?_
  refine wp_sound_reserve noFailure_lost ?_
  refine wp_reject_bind (by omega) (wp_pure.mpr (andThen_done ?_))
  refine wp_bind.mpr (wp_mapErr.mpr ?_)
  have hstored : (fs.store.commit (sealImage (fillImage content))).wp (sound region) NoFailure m :=
    wp_noFailure_storeCommit h (by rw [length_sealImage]; exact hfits) hgeneration
  refine Prog.wp_mono hstored fun o t hnever => ?_
  cases o with
  | done result => exact andThen_done (wp_pure.mpr (noFailure_done _ _))
  | failed e => exact absurd rfl (hnever e)
  | lost => exact Prog.andThen_lost (noFailure_lost _)

end

/-! ## Runs -/

/-- The operations that change the file. -/
inductive Operation where
  | write (path : Path) (bytes : Bytes)
  | truncate (path : Path)
  | append (path : Path) (bytes : Bytes)
  | sync (path : Path)
  | remove (path : Path)

/-- The program of an operation. -/
def Operation.program (fs : StateFs) :
    Operation → Prog Device Empty (Except FsError Unit × StateFs)
  | .write path bytes => fs.writeFile path bytes
  | .truncate path => fs.truncateFile path
  | .append path bytes => fs.appendFile path bytes
  | .sync path => fs.syncFile path
  | .remove path => fs.removeFile path

/-- The bytes of the successful appends that no successful operation has committed or discarded
since, after one more operation. -/
def Operation.unsynced (unsynced : Bytes) : Operation → Except FsError Unit → Bytes
  | .append _ bytes, .ok () => unsynced ++ bytes
  | _, .ok () => []
  | _, .error _ => unsynced

/-- What the result of an operation promises about the image committed at its end. -/
def Operation.Durable (fs : StateFs) (unsynced : Bytes) : Operation → Except FsError Unit → Prop
  | .sync _, .ok () =>
    unsynced = [] ∨ ∃ content, fs.Committed (some content) ∧ unsynced <:+: content
  | .write _ bytes, .ok () => fs.Committed (some bytes)
  | .truncate _, .ok () => fs.Committed (some [])
  | .remove _, .ok () => fs.Committed none
  | .append _ _, .ok () => True
  | _, .error _ => True

/-- The state of a run: the mounted filesystem, its device, and the unsynced bytes. -/
structure Run where
  fs : StateFs
  media : Media ℕ Bytes
  unsynced : Bytes

/-- One operation of a run. The device may fail during it when `faults` is set. -/
structure Step (region : BlockRegion) (w : Run) (operation : Operation) (faults : Bool)
    (result : Except FsError Unit) (w' : Run) : Prop where
  runs : (operation.program w.fs).Runs (deviceEnv region.geometry.logicalBlockBytes faults) w.media
    (.done (result, w'.fs)) w'.media
  unsynced_eq : w'.unsynced = operation.unsynced w.unsynced result

/-- The file is not truncated, and an operation that drops pending bytes commits without failing. -/
def Operation.Safe (fs : StateFs) (faults : Bool) : Operation → Prop
  | .write path bytes =>
    path = statePath → fs.pending ≠ none → fs.Accepts (some bytes) faults
  | .truncate path => path ≠ statePath
  | .append _ _ => True
  | .sync path => path = statePath → ∀ pending ∈ fs.pending, fs.Accepts (some pending) faults
  | .remove path =>
    path = statePath → fs.pending ≠ none → fs.bytes ≠ none ∧ fs.Accepts none faults

/-- One operation of a run that meets the condition. -/
def SafeStep (region : BlockRegion) (w w' : Run) : Prop :=
  ∃ operation faults result, Operation.Safe w.fs faults operation ∧
    Step region w operation faults result w'

/-- The pending buffer ends with all unsynced bytes. -/
structure Inv (region : BlockRegion) (w : Run) : Prop where
  opened : Opened region w.fs.store
  none_pending : w.fs.pending = none → w.unsynced = []
  pending : ∀ pending ∈ w.fs.pending, w.unsynced <:+ pending

section

variable {region : BlockRegion} {fs fs' : StateFs} {w w' : Run} {content : Option Bytes}
  {m m' : Media ℕ Bytes} {faults : Bool} {result : Except FsError Unit}
  {W : Env Device (Media ℕ Bytes)}

/-- A program that only returns has nothing else to do. -/
theorem done_of_pure {ε α : Type} {a b : α}
    (hrun : (Pure.pure a : Prog Device ε α).Runs W m (.done b) m') : b = a := by
  cases hrun
  rfl

/-- How an operation ends: with what its program returned, or with an error of it. -/
theorem finish_runs {program : Prog Device FsError StateFs}
    (hrun : (fs.finish program).Runs W m (.done (result, fs')) m') :
    (result = .ok () ∧ program.Runs W m (.done fs') m') ∨
      ∃ e, result = .error e ∧ fs' = fs ∧ program.Runs W m (.failed e) m' := by
  suffices h : (fs.finish program).wp W (fun o t => ∀ result fs', o = .done (result, fs') →
      (result = .ok () ∧ program.Runs W m (.done fs') t) ∨
        ∃ e, result = .error e ∧ fs' = fs ∧ program.Runs W m (.failed e) t) m by
    exact hrun.of_wp h result fs' rfl
  refine wp_bind.mpr (Prog.wp_attempt.mpr ((Prog.wp_iff ..).mpr fun o t hprogram => ?_))
  cases o with
  | done fs'' =>
    refine andThen_done (wp_pure.mpr ?_)
    rintro _ _ ⟨⟩
    exact .inl ⟨rfl, hprogram⟩
  | failed e =>
    refine andThen_done (wp_pure.mpr ?_)
    rintro _ _ ⟨⟩
    exact .inr ⟨e, rfl, rfl, hprogram⟩
  | lost => exact Prog.andThen_lost fun _ _ h => nomatch h

/-- The filesystem with its pending buffer dropped. -/
def StateFs.dropPending (fs : StateFs) : StateFs := { fs with pending := none }

/-- How an operation ends that drops the pending buffer and commits: committed, or with an error
that only an unaccepted commit can give. -/
theorem finish_commit (h : Opened region fs.store)
    (hrun : (fs.dropPending.finish (fs.dropPending.commit content)).Runs
      (deviceEnv region.geometry.logicalBlockBytes faults) m (.done (result, fs')) m') :
    Opened region fs'.store ∧ fs'.pending = none ∧
      ((result = .ok () ∧ fs'.Committed content) ∨
        (∃ e, result = .error e) ∧ ¬ fs.Accepts content faults) := by
  have hdropped : Opened region fs.dropPending.store := h
  rcases finish_runs hrun with ⟨rfl, hcommit⟩ | ⟨e, rfl, rfl, hcommit⟩
  · obtain ⟨hopened, hcommitted, -, hpending⟩ :=
      hcommit.returns (returns_commit hdropped content)
    exact ⟨hopened, hpending, .inl ⟨rfl, hcommitted⟩⟩
  · refine ⟨h, rfl, .inr ⟨⟨e, rfl⟩, fun haccepts => ?_⟩⟩
    obtain ⟨rfl, hfits, hgeneration⟩ := haccepts
    exact hcommit.of_wp (wp_noFailure_commit hdropped ⟨rfl, hfits, hgeneration⟩) e rfl

/-- A successful append has put its bytes at the end of the pending buffer. -/
theorem append_runs {path : Path} {bytes : Bytes}
    (hrun : (fs.appendFile path bytes).Runs W m (.done (result, fs')) m') :
    fs'.store = fs.store ∧
      ((result = .ok () ∧ fs'.pending = some (fs.pending.getD (fs.bytes.getD []) ++ bytes)) ∨
        ∃ e, result = .error e ∧
          (fs' = fs ∨ fs'.pending = some (fs.pending.getD (fs.bytes.getD [])))) := by
  unfold StateFs.appendFile at hrun
  split at hrun
  · cases hrun
    exact ⟨rfl, .inr ⟨_, rfl, .inl rfl⟩⟩
  · rcases finish_runs hrun with ⟨rfl, happend⟩ | ⟨e, rfl, rfl, -⟩
    · have hreturns := happend.returns (P := fun fs' => fs'.store = fs.store ∧
        fs'.pending = some (fs.pending.getD (fs.bytes.getD []) ++ bytes))
        (returns_bind fun _ => returns_bind fun _ => returns_bind fun _ =>
          returns_pure ⟨rfl, rfl⟩)
      exact ⟨hreturns.1, .inl ⟨rfl, hreturns.2⟩⟩
    · exact ⟨rfl, .inr ⟨e, rfl, .inr rfl⟩⟩

/-- Nothing is known to be pending when nothing is unsynced. -/
theorem Inv.of_dropped (hopened : Opened region w.fs.store) (hpending : w.fs.pending = none)
    (hunsynced : w.unsynced = []) : Inv region w :=
  ⟨hopened, fun _ => hunsynced, by simp [hpending]⟩

/-- A run goes on as it was when an operation fails without touching the filesystem. -/
theorem Inv.of_unchanged (h : Inv region w) (hfs : w'.fs = w.fs)
    (hunsynced : w'.unsynced = w.unsynced) : Inv region w' := by
  obtain ⟨hopened, hnone, hpending⟩ := h
  exact ⟨hfs ▸ hopened, by rwa [hfs, hunsynced], by rwa [hfs, hunsynced]⟩

section

variable {path : Path} {bytes : Bytes}

variable (h : Inv region w)
include h

theorem Inv.write (hsafe : (Operation.write path bytes).Safe w.fs faults)
    (hstep : Step region w (.write path bytes) faults result w') :
    Inv region w' ∧ (Operation.write path bytes).Durable w'.fs w.unsynced result := by
  obtain ⟨hrun, hunsynced⟩ := hstep
  simp only [Operation.program, StateFs.writeFile] at hrun
  split at hrun
  next hpath =>
    obtain ⟨rfl, hfs⟩ := Prod.mk.inj (done_of_pure hrun)
    exact ⟨h.of_unchanged hfs hunsynced, trivial⟩
  next hpath =>
    obtain ⟨hopened, hdropped, ⟨rfl, hcommitted⟩ | ⟨⟨e, rfl⟩, hrefused⟩⟩ :=
      finish_commit h.opened hrun
    · exact ⟨.of_dropped hopened hdropped hunsynced, hcommitted⟩
    · -- a failed write has dropped the pending buffer, so there was none
      have hnone : w.fs.pending = none :=
        by_contra fun hsome => hrefused (hsafe (not_not.mp hpath) hsome)
      exact ⟨.of_dropped hopened hdropped (hunsynced.trans (h.none_pending hnone)), trivial⟩

theorem Inv.remove (hsafe : (Operation.remove path).Safe w.fs faults)
    (hstep : Step region w (.remove path) faults result w') :
    Inv region w' ∧ (Operation.remove path).Durable w'.fs w.unsynced result := by
  obtain ⟨hrun, hunsynced⟩ := hstep
  simp only [Operation.program, StateFs.removeFile] at hrun
  split at hrun
  next hpath =>
    obtain ⟨rfl, hfs⟩ := Prod.mk.inj (done_of_pure hrun)
    exact ⟨h.of_unchanged hfs hunsynced, trivial⟩
  next hpath =>
    have hpath : path = statePath := not_not.mp hpath
    split at hrun
    next habsent =>
      have hnone : w.fs.pending = none :=
        by_contra fun hsome => (hsafe hpath hsome).1 habsent
      obtain ⟨fs', media, unsynced⟩ := w'
      cases hrun
      exact ⟨.of_dropped h.opened rfl (hunsynced.trans (h.none_pending hnone)), trivial⟩
    next hfile =>
      obtain ⟨hopened, hdropped, ⟨rfl, hcommitted⟩ | ⟨⟨e, rfl⟩, hrefused⟩⟩ :=
        finish_commit h.opened hrun
      · exact ⟨.of_dropped hopened hdropped hunsynced, hcommitted⟩
      · have hnone : w.fs.pending = none :=
          by_contra fun hsome => hrefused (hsafe hpath hsome).2
        exact ⟨.of_dropped hopened hdropped (hunsynced.trans (h.none_pending hnone)), trivial⟩

theorem Inv.sync (hsafe : (Operation.sync path).Safe w.fs faults)
    (hstep : Step region w (.sync path) faults result w') :
    Inv region w' ∧ (Operation.sync path).Durable w'.fs w.unsynced result := by
  obtain ⟨hrun, hunsynced⟩ := hstep
  simp only [Operation.program, StateFs.syncFile] at hrun
  split at hrun
  next hpath =>
    obtain ⟨rfl, hfs⟩ := Prod.mk.inj (done_of_pure hrun)
    exact ⟨h.of_unchanged hfs hunsynced, trivial⟩
  next hpath =>
    split at hrun
    next hnone =>
      obtain ⟨fs', media, unsynced⟩ := w'
      cases hrun
      exact ⟨.of_dropped h.opened hnone hunsynced, .inl (h.none_pending hnone)⟩
    next pending hsome =>
      obtain ⟨hopened, hdropped, ⟨rfl, hcommitted⟩ | ⟨⟨e, rfl⟩, hrefused⟩⟩ :=
        finish_commit h.opened hrun
      · exact ⟨.of_dropped hopened hdropped hunsynced,
          .inr ⟨pending, hcommitted, (h.pending pending hsome).isInfix⟩⟩
      · exact absurd (hsafe (not_not.mp hpath) pending hsome) hrefused

theorem Inv.append (hstep : Step region w (.append path bytes) faults result w') :
    Inv region w' := by
  obtain ⟨hrun, hunsynced⟩ := hstep
  -- the buffer that the append starts from ends with the unsynced bytes
  have hstart : w.unsynced <:+ w.fs.pending.getD (w.fs.bytes.getD []) := by
    cases hpending : w.fs.pending with
    | none =>
      rw [h.none_pending hpending]
      exact List.nil_suffix
    | some pending => exact h.pending pending hpending
  obtain ⟨hstore, ⟨rfl, hended⟩ | ⟨e, rfl, hfs | hended⟩⟩ := append_runs hrun
  · refine ⟨hstore ▸ h.opened, by simp [hended], ?_⟩
    rw [hended, hunsynced]
    rintro _ ⟨⟩
    obtain ⟨front, hfront⟩ := hstart
    exact ⟨front, by rw [← hfront, List.append_assoc]; rfl⟩
  · exact h.of_unchanged hfs hunsynced
  · refine ⟨hstore ▸ h.opened, by simp [hended], ?_⟩
    rw [hended, hunsynced]
    rintro _ ⟨⟩
    exact hstart

end

/-- An operation that meets the condition keeps what is known of the pending buffer, and its result
is durable. -/
theorem Inv.step (h : Inv region w) {operation : Operation} (hsafe : operation.Safe w.fs faults)
    (hstep : Step region w operation faults result w') :
    Inv region w' ∧ operation.Durable w'.fs w.unsynced result := by
  cases operation with
  | write path bytes => exact h.write hsafe hstep
  | truncate path =>
    obtain ⟨hrun, hunsynced⟩ := hstep
    simp only [Operation.program, StateFs.truncateFile, if_pos (show path ≠ statePath from hsafe)]
      at hrun
    obtain ⟨rfl, hfs⟩ := Prod.mk.inj (done_of_pure hrun)
    exact ⟨h.of_unchanged hfs hunsynced, trivial⟩
  | append path bytes =>
    refine ⟨h.append hstep, ?_⟩
    cases result <;> trivial
  | sync path => exact h.sync hsafe hstep
  | remove path => exact h.remove hsafe hstep

/-- A filesystem that was just mounted has nothing pending. -/
theorem inv_mount (hregion : region.Granted)
    (hmount : (StateFs.mount region).Runs W m (.done fs) m') : Inv region ⟨fs, m', []⟩ := by
  have hreturns := hmount.returns (P := fun fs => Opened region fs.store ∧ fs.pending = none)
    (((returns_open hregion).mapErr mapPersist).bind fun store hopened =>
      returns_bind fun bytes => returns_pure ⟨hopened, rfl⟩)
  exact .of_dropped hreturns.1 hreturns.2 rfl

theorem inv_of_run (hrun : Relation.ReflTransGen (SafeStep region) w w') (h : Inv region w) :
    Inv region w' := by
  induction hrun with
  | refl => exact h
  | tail _ hstep ih =>
    obtain ⟨operation, faults, result, hsafe, hstep⟩ := hstep
    exact (ih.step hsafe hstep).1

/-- Durability. In a run from mounting on whose operations all meet the condition, every operation
that returns success has committed what it stands for: `sync_file` all bytes that were successfully
appended since the last success, the other operations their effect. -/
theorem durable_of_safe (hregion : region.Granted) {W : Env Device (Media ℕ Bytes)}
    (hmount : (StateFs.mount region).Runs W m (.done fs) m')
    (hrun : Relation.ReflTransGen (SafeStep region) ⟨fs, m', []⟩ w) {operation : Operation}
    (hsafe : operation.Safe w.fs faults) (hstep : Step region w operation faults result w') :
    operation.Durable w'.fs w.unsynced result :=
  ((inv_of_run hrun (inv_mount hregion hmount)).step hsafe hstep).2

end

/-! ### Runs on the blank region -/

/-- What mounting the zeroed media gives. -/
def blankFs : StateFs := { store := storeOf smallRegion none, bytes := none, pending := none }

/-- The filesystem after one successful append of one byte. -/
def appendedFs : StateFs := { blankFs with pending := some [1] }

/-- The filesystem after the byte was synced. -/
def syncedFs : StateFs where
  store := storeOf smallRegion (some ⟨0, 1, sealImage (fillImage (some [1]))⟩)
  bytes := some [1]
  pending := none

theorem readsOnly_snd (c : DeviceCall) (m : Media ℕ Bytes) : (readsOnly c m).2 = m := by
  cases c <;> rfl

theorem blankFs_mounted : (StateFs.mount smallRegion).Runs (faulty smallRegion) blankMedia
    (.done blankFs) blankMedia := by
  have hdone : ((StateFs.mount smallRegion).run readsOnly blankMedia).1 = .done blankFs := by
    decide +kernel
  have hrun := runs_run (W := faulty smallRegion) readsOnly_answer
    (StateFs.mount smallRegion) blankMedia
  rwa [hdone, run_snd _ readsOnly_snd] at hrun

variable {result : Except FsError Unit}

/-- What a handler computes is a step. -/
theorem step_of_run {faults : Bool}
    {handle : (c : DeviceCall) → Media ℕ Bytes → c.Answer × Media ℕ Bytes}
    (hhandle : ∀ c m, (deviceEnv 512 faults).answer m c (handle c m).1 (handle c m).2) (w : Run)
    (operation : Operation) {fs' : StateFs}
    (h : ((operation.program w.fs).run handle w.media).1 = .done (result, fs')) :
    Step smallRegion w operation faults result
      ⟨fs', ((operation.program w.fs).run handle w.media).2,
        operation.unsynced w.unsynced result⟩ := by
  refine ⟨?_, rfl⟩
  rw [← h]
  exact runs_run hhandle _ _

/-- The same for a device that answers reads only: its media stay as they are. -/
theorem step_of_readsOnly {w : Run} {operation : Operation} {fs' : StateFs}
    (h : ((operation.program w.fs).run readsOnly w.media).1 = .done (result, fs')) :
    Step smallRegion w operation true result
      ⟨fs', w.media, operation.unsynced w.unsynced result⟩ := by
  have hstep := step_of_run readsOnly_answer w operation h
  rwa [run_snd _ readsOnly_snd] at hstep

theorem append_first : Step smallRegion ⟨blankFs, blankMedia, []⟩ (.append statePath [1]) true
    (.ok ()) ⟨appendedFs, blankMedia, [1]⟩ :=
  step_of_readsOnly (by decide +kernel)

/-- A sync whose writes fail returns an error and loses the appended byte; the next sync returns
success with nothing committed. A truncation returns success with nothing committed either. -/
theorem sync_loses_appended : ∃ w₁ w₂ w₃ w₄,
    (StateFs.mount smallRegion).Runs (faulty smallRegion) blankMedia (.done blankFs) blankMedia ∧
    Step smallRegion ⟨blankFs, blankMedia, []⟩ (.append statePath [1]) true (.ok ()) w₁ ∧
    Step smallRegion w₁ (.sync statePath) true (.error .io) w₂ ∧
    Step smallRegion w₂ (.sync statePath) true (.ok ()) w₃ ∧
    ¬ (Operation.sync statePath).Durable w₃.fs w₂.unsynced (.ok ()) ∧
    Step smallRegion w₃ (.truncate statePath) true (.ok ()) w₄ ∧
    ¬ (Operation.truncate statePath).Durable w₄.fs w₃.unsynced (.ok ()) := by
  have hfailed : Step smallRegion ⟨appendedFs, blankMedia, [1]⟩ (.sync statePath) true
      (.error .io) ⟨blankFs, blankMedia, [1]⟩ := step_of_readsOnly (by decide +kernel)
  have hretried : Step smallRegion ⟨blankFs, blankMedia, [1]⟩ (.sync statePath) true (.ok ())
      ⟨blankFs, blankMedia, []⟩ := step_of_readsOnly (by decide +kernel)
  have htruncated : Step smallRegion ⟨blankFs, blankMedia, []⟩ (.truncate statePath) true (.ok ())
      ⟨{ blankFs with pending := some [] }, blankMedia, []⟩ := step_of_readsOnly (by decide +kernel)
  refine ⟨_, _, _, _, blankFs_mounted, append_first, hfailed, hretried, ?_, htruncated, ?_⟩
  · rintro (hnone | ⟨content, ⟨image, ⟨⟩, -⟩, -⟩)
    exact List.cons_ne_nil 1 [] hnone
  · rintro ⟨image, ⟨⟩, -⟩

/-- An append and a sync on a device that does not fail: the byte is committed. -/
theorem durable_of_safe_first : ∃ w w',
    Relation.ReflTransGen (SafeStep smallRegion) ⟨blankFs, blankMedia, []⟩ w ∧ w.unsynced = [1] ∧
    Step smallRegion w (.sync statePath) false (.ok ()) w' ∧
    ∃ content, w'.fs.Committed (some content) ∧ [1] <:+: content := by
  have hrun : Relation.ReflTransGen (SafeStep smallRegion) ⟨blankFs, blankMedia, []⟩
      ⟨appendedFs, blankMedia, [1]⟩ :=
    .single ⟨.append statePath [1], true, .ok (), trivial, append_first⟩
  have hsafe : (Operation.sync statePath).Safe appendedFs false := by
    rintro - _ ⟨⟩
    exact ⟨rfl, by decide, by decide⟩
  have hsynced : ((appendedFs.syncFile statePath).run (reliable 512) blankMedia).1
      = .done (.ok (), syncedFs) := by
    decide +kernel
  have hstep := step_of_run (reliable_answer 512 false) ⟨appendedFs, blankMedia, [1]⟩
    (.sync statePath) hsynced
  refine ⟨_, _, hrun, rfl, hstep, ?_⟩
  rcases durable_of_safe smallRegion_granted blankFs_mounted hrun hsafe hstep with hnone | hcontent
  · exact absurd hnone (List.cons_ne_nil 1 [])
  · exact hcontent

end Troe.Statefs
