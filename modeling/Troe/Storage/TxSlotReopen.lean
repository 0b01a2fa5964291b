import Troe.Storage.TxSlotCrash

/-!
# Reopening the dual-slot store

`open` may be called at any time, also while the device still caches block writes. It reads through
the cache. As long as nothing is cached when the store is opened, the slot that a commit does not
write always holds, in durable storage, the last acknowledged record or a newer one. When something is
cached, `open` may take a record for the active one that is not durable.
-/

namespace Troe.TxSlot

open Lib Block

/-- The slot shows the record of a candidate in these block contents. -/
def Shows (region : BlockRegion) (contents : ℕ → Bytes) (slot : ℕ) (c : Candidate) : Prop :=
  ∃ data marker, Holds region contents slot data marker ∧
    visible region.geometry.logicalBlockBytes slot data marker = some c

/-- The candidate is the acknowledged record or a newer one. -/
def Covers (c : Candidate) (acked : Record) : Prop :=
  c.record = acked ∨ acked.generation < c.generation

namespace Run

/-- One step of a run in which `open` is called at any time that meets a condition on the device. An
`open` takes the region, so the store object there was is gone. -/
inductive Reopening (condition : Media ℕ Bytes → Prop) (region : BlockRegion) : Run → Run → Prop
  | opened {w : Run} {o : Outcome PersistError DualSlotStore} {m : Media ℕ Bytes}
      (met : condition w.media)
      (runs : (DualSlotStore.open region).Runs (faulty region) w.media o m) :
      Reopening condition region w (w.afterOpen o m)
  | committed {w : Run} {store : DualSlotStore} {payload : Bytes}
      {o : Outcome PersistError (ℕ × DualSlotStore)} {m : Media ℕ Bytes}
      (up : w.store = some store)
      (runs : (store.commit payload).Runs (faulty region) w.media o m) :
      Reopening condition region w (w.afterCommit store payload o m)
  | powerLoss {w : Run} {m : Media ℕ Bytes} (survives : w.media.Survives m) :
      Reopening condition region w { w with media := m, store := none }

/-- The last acknowledged record is safe: the slot that a commit through the store does not write
holds it or a newer record in durable storage, and whatever a power loss keeps of the cache, some slot
does. -/
structure Protected (region : BlockRegion) (w : Run) : Prop where
  spared : ∀ store, w.store = some store → ∀ r ∈ w.acked, ∃ slot < 2, slot ≠ away store.active ∧
    ∃ c, Shows region w.media.durable slot c ∧ Covers c r
  survives : ∀ m', w.media.Survives m' → ∀ r ∈ w.acked, ∃ slot < 2,
    ∃ c, Shows region m'.durable slot c ∧ Covers c r

/-- The invariant of such runs. -/
structure Guarded (region : BlockRegion) (w : Run) (active : Option Candidate) : Prop where
  consistent : Consistent region active w.since w.media
  covers : ∀ r ∈ w.acked, ∃ c, active = some c ∧ Covers c r
  store : w.store = none ∨ w.store = some (storeOf region active) ∧ Usable region

section

variable {region : BlockRegion} {m : Media ℕ Bytes} {w w' : Run} {active : Option Candidate}

/-- The home slot shows the active record, also after a power loss. -/
theorem shows_home (hcons : Consistent region active w.since m) {c : Candidate}
    (hactive : active = some c) : Shows region m.durable (home active) c := by
  obtain ⟨data, marker, hholds, hvisible, -⟩ := hcons.home_slot
  exact ⟨data, marker, hholds, hvisible.trans hactive⟩

theorem Guarded.protected (h : Guarded region w active) : Protected region w := by
  refine ⟨fun store hstore r hr => ?_, fun m' hm' r hr => ?_⟩
  · obtain ⟨c, hactive, hcovers⟩ := h.covers r hr
    obtain hdown | ⟨hup, -⟩ := h.store
    · cases hdown.symm.trans hstore
    · obtain rfl := Option.mem_unique hstore hup
      refine ⟨home active, h.consistent.home_lt, ?_, c, shows_home h.consistent hactive, hcovers⟩
      show home active ≠ away active
      have := h.consistent.home_lt
      rw [away_eq this]
      omega
  · obtain ⟨c, hactive, hcovers⟩ := h.covers r hr
    exact ⟨home active, h.consistent.home_lt, c,
      shows_home (h.consistent.survives hm') hactive, hcovers⟩

/-- A recovered record covers what the active one covers. -/
theorem covers_recovered {found : Option Candidate} {acked : Record}
    (hcovers : ∃ c, active = some c ∧ Covers c acked)
    (hfound : Recovered region active w.since found) : ∃ c, found = some c ∧ Covers c acked := by
  obtain rfl | ⟨c', rfl, hc'⟩ := hfound
  · exact hcovers
  · obtain ⟨c, rfl, hc⟩ := hcovers
    have hnext : c'.generation = c.generation + 1 := hc'.next
    refine ⟨c', rfl, .inr ?_⟩
    rcases hc with rfl | hlt
    · exact hnext ▸ Nat.lt_succ_self c.generation
    · omega

theorem Guarded.step (hregion : region.Granted) (h : Guarded region w active)
    (hstep : Reopening (fun m => m.pending = []) region w w') :
    ∃ active', Guarded region w' active' := by
  have ⟨hcons, hcovers, hstore⟩ := h
  cases hstep with
  | @opened o m met runs =>
    apply runs.of_wp
    refine wp_open hregion hcons met ?_ ?_ ?_
    · intro found hu hrecovered hfound
      exact ⟨found, hfound, fun r hr => covers_recovered (hcovers r hr) hrecovered, .inr ⟨rfl, hu⟩⟩
    · exact fun e _ => ⟨active, hcons, hcovers, .inl rfl⟩
    · exact ⟨active, hcons, hcovers, .inl rfl⟩
  | @committed store payload o m up runs =>
    obtain hdown | ⟨hup, hu⟩ := hstore
    · cases hdown.symm.trans up
    obtain rfl : store = storeOf region active := Option.mem_unique up hup
    apply runs.of_wp
    refine wp_commit hu hcons payload ?_ ?_ ?_
    · intro c m' hc hm'
      refine ⟨some c, hm', ?_, .inr ⟨rfl, hu⟩⟩
      rintro r ⟨⟩
      exact ⟨c, rfl, .inl (congrArg (Record.mk c.generation) (congrArg Record.payload hc))⟩
    · exact fun e m' hm' => ⟨active, hm', hcovers, .inr ⟨up, hu⟩⟩
    · exact fun m' _ hm' => ⟨active, hm', hcovers, .inl rfl⟩
  | powerLoss survives => exact ⟨active, hcons.survives survives, hcovers, .inl rfl⟩

/-- In every run from zeroed media in which the store is opened only while nothing is cached, the last
acknowledged record is protected in every state. -/
theorem protected_of_settled_open (hregion : region.Granted) (hblank : Blank region m)
    (hrun : Relation.ReflTransGen (Reopening (fun m => m.pending = []) region) (fresh m) w) :
    Protected region w := by
  suffices h : ∃ active, Guarded region w active by
    obtain ⟨active, h⟩ := h
    exact h.protected
  induction hrun with
  | refl => exact ⟨none, hblank.consistent, by simp [fresh], .inl rfl⟩
  | tail _ hstep ih =>
    obtain ⟨active, h⟩ := ih
    exact h.step hregion hstep

end

/-! ### A first commit -/

section

variable {condition : Media ℕ Bytes → Prop} {region : BlockRegion} {m m1 m2 m3 m4 : Media ℕ Bytes}
  {store store1 store2 : DualSlotStore} {generation : ℕ} {payload : Bytes} {e : PersistError}

/-- The run of an `open` and a commit that both succeed. -/
theorem reopening_commit (hmet : condition m)
    (hopen : (DualSlotStore.open region).Runs (faulty region) m (.done store) m1)
    (hcommit : (store.commit payload).Runs (faulty region) m1 (.done (generation, store1)) m2) :
    Relation.ReflTransGen (Reopening condition region) (fresh m)
      ⟨m2, some store1, some ⟨generation, payload⟩, []⟩ := by
  have hopened : Reopening condition region (fresh m) (afterOpen (fresh m) (.done store) m1) :=
    .opened hmet hopen
  have hcommitted : Reopening condition region ⟨m1, some store, none, []⟩
      (afterCommit ⟨m1, some store, none, []⟩ store payload (.done (generation, store1)) m2) :=
    .committed rfl hcommit
  exact (Relation.ReflTransGen.single hopened).tail hcommitted

/-- The run goes on with a commit that fails and another `open`. -/
theorem reopening_failed {acked : Option Record}
    (hrun : Relation.ReflTransGen (Reopening condition region) (fresh m)
      ⟨m2, some store1, acked, []⟩)
    (hcommit : (store1.commit payload).Runs (faulty region) m2 (.failed e) m3) (hmet : condition m3)
    (hopen : (DualSlotStore.open region).Runs (faulty region) m3 (.done store2) m4) :
    Relation.ReflTransGen (Reopening condition region) (fresh m)
      ⟨m4, some store2, acked, [attempt store1.active payload]⟩ := by
  have hfailed : Reopening condition region ⟨m2, some store1, acked, []⟩
      (afterCommit ⟨m2, some store1, acked, []⟩ store1 payload (.failed e) m3) :=
    .committed rfl hcommit
  have hopened : Reopening condition region
      ⟨m3, some store1, acked, [attempt store1.active payload]⟩
      (afterOpen ⟨m3, some store1, acked, [attempt store1.active payload]⟩ (.done store2) m4) :=
    .opened hmet hopen
  exact (hrun.tail hfailed).tail hopened

end

theorem protected_first_commit : ∃ w : Run,
    Relation.ReflTransGen (Reopening (fun m => m.pending = []) smallRegion) (fresh blankMedia) w ∧
      w.acked = some ⟨1, [7]⟩ ∧ Protected smallRegion w := by
  obtain ⟨_, _, -, -, hopen, hcommit⟩ := first_commit_runs
  have hrun : Relation.ReflTransGen (Reopening (fun m => m.pending = []) smallRegion)
      (fresh blankMedia) _ := reopening_commit rfl hopen hcommit
  exact ⟨_, hrun, rfl, protected_of_settled_open smallRegion_granted blankMedia_blank hrun⟩

/-! ### Opening while a marker is cached -/

/-- The device, when flushes fail while the second slot's marker is cached. -/
def markerStuck : (c : DeviceCall) → Media ℕ Bytes → c.Answer × Media ℕ Bytes
  | .flush, m => if m.pending.any (·.1 = 3) then (.error .device, m) else (.ok (), m.flush)
  | .readBlocks start count, m => reliable 512 (.readBlocks start count) m
  | .writeBlocks start count source fua, m => reliable 512 (.writeBlocks start count source fua) m
  | .tryReserve bytes, m => reliable 512 (.tryReserve bytes) m

theorem markerStuck_answer (c : DeviceCall) (m : Media ℕ Bytes) :
    (deviceEnv 512 true).answer m c (markerStuck c m).1 (markerStuck c m).2 := by
  cases c with
  | flush =>
    by_cases hstuck : m.pending.any (·.1 = 3)
    · rw [markerStuck, if_pos hstuck]
      exact .inr ⟨rfl, rfl, _, rfl⟩
    · rw [markerStuck, if_neg hstuck]
      exact .inl ⟨rfl, rfl⟩
  | _ => exact reliable_answer 512 true _ m

/-- The second commit; its last flush fails. -/
def committedSecond : Outcome PersistError (ℕ × DualSlotStore) × Media ℕ Bytes :=
  ((storeOf smallRegion (some ⟨0, 1, [7]⟩)).commit [8]).run markerStuck committedFirst.2

/-- The device, when it answers reads only. -/
def readsOnly : (c : DeviceCall) → Media ℕ Bytes → c.Answer × Media ℕ Bytes
  | .readBlocks start count, m => (.ok (readBack m.view start count), m)
  | .writeBlocks _ _ _ _, m => (.error .device, m)
  | .flush, m => (.error .device, m)
  | .tryReserve _, m => (true, m)

theorem readsOnly_answer (c : DeviceCall) (m : Media ℕ Bytes) :
    (deviceEnv 512 true).answer m c (readsOnly c m).1 (readsOnly c m).2 := by
  cases c with
  | readBlocks start count => exact ⟨rfl, .inl rfl⟩
  | writeBlocks start count source fua =>
    refine .inr ⟨rfl, .device, [], rfl, List.nil_sublist _, ?_⟩
    rw [Media.write, List.append_nil]
    rfl
  | flush => exact .inr ⟨rfl, rfl, _, rfl⟩
  | tryReserve bytes => exact ⟨rfl, .inl rfl⟩

/-- How the store is opened again. -/
def reopened : Outcome PersistError DualSlotStore :=
  ((DualSlotStore.open smallRegion).run readsOnly committedSecond.2).1

theorem reopened_eq : reopened = .done (storeOf smallRegion (some ⟨1, 2, [8]⟩)) := by
  decide +kernel

theorem reopened_runs : (DualSlotStore.open smallRegion).Runs (faulty smallRegion) committedSecond.2
    reopened committedSecond.2 := by
  have hruns := Prog.runs_run (W := faulty smallRegion) readsOnly_answer
    (DualSlotStore.open smallRegion) committedSecond.2
  have hstill := Prog.run_snd readsOnly (fun c m => by cases c <;> rfl)
    (DualSlotStore.open smallRegion) committedSecond.2
  rwa [hstill] at hruns

/-- A slot whose marker block is zeroed shows nothing. -/
theorem not_shows_of_zeroed {region : BlockRegion} {contents : ℕ → Bytes} {slot : ℕ} {c : Candidate}
    (hzero : contents (region.startBlock + (slot * 2 + 1))
      = List.replicate region.geometry.logicalBlockBytes 0) : ¬ Shows region contents slot c := by
  rintro ⟨data, marker, hholds, hvisible⟩
  obtain _ | data := data
  · simp [visible] at hvisible
  obtain _ | marker := marker
  · simp [visible] at hvisible
  have hfits := hholds.marker_fits marker rfl
  obtain ⟨checksum, -, hlayout, -⟩ := commitBlock_layout hfits
  have hmagic := congrArg (fun block => slice block 0 8) (hzero.symm.trans hholds.marker_eq)
  simp only [commitCell, hlayout, slice_magic_layout (show commitMagic.length = 8 from rfl)] at hmagic
  have hbytes := hfits.payload_le
  rw [slice_eq_some (by rw [List.length_replicate]; omega), List.drop_zero, List.take_replicate,
    Nat.min_eq_left (by omega)] at hmagic
  exact absurd (Option.some.inj hmagic) (by decide)

/-- After a commit whose last flush failed, `open` finds the record of that commit in the cache and
takes its slot for the active one. The marker of that slot is not durable, and the next commit writes
the slot of the acknowledged record. -/
theorem reopened_unprotected : ∃ w : Run,
    Relation.ReflTransGen (Reopening (fun _ => True) smallRegion) (fresh blankMedia) w ∧
      w.acked = some ⟨1, [7]⟩ ∧ w.store = some (storeOf smallRegion (some ⟨1, 2, [8]⟩)) ∧
      ¬ Protected smallRegion w := by
  have hfailed : committedSecond.1 = .failed (.block .device) := by decide +kernel
  have hzeroed : committedSecond.2.durable (smallRegion.startBlock + (1 * 2 + 1))
      = List.replicate smallRegion.geometry.logicalBlockBytes 0 := by decide +kernel
  obtain ⟨_, _, -, hfirst, hopen, hcommit⟩ := first_commit_runs
  rw [hfirst] at hcommit
  have hcommit' := Prog.runs_run (W := faulty smallRegion) markerStuck_answer
    ((storeOf smallRegion (some ⟨0, 1, [7]⟩)).commit [8]) committedFirst.2
  have hopen' := reopened_runs
  rw [← committedSecond, hfailed] at hcommit'
  rw [reopened_eq] at hopen'
  have hrun : Relation.ReflTransGen (Reopening (fun _ => True) smallRegion) (fresh blankMedia) _ :=
    reopening_failed (reopening_commit trivial hopen hcommit) hcommit' trivial hopen'
  refine ⟨_, hrun, rfl, rfl, fun hprotected => ?_⟩
  obtain ⟨slot, hslot, haway, c, hshows, -⟩ := hprotected.spared _ rfl ⟨1, [7]⟩ rfl
  obtain rfl : slot = 1 := by
    have haway : slot ≠ 0 := haway
    omega
  generalize committedSecond.2 = m at hshows hzeroed
  exact not_shows_of_zeroed hzeroed hshows

end Run

end Troe.TxSlot
