import Mathlib.Algebra.Order.Ring.Nat
import Troe.Task.Sync

/-!
# Paired capacities of the thread tables (`troe-task::thread::admission`)

An admission plan fixes the capacities of a thread table and a synchronization table before either
is built. `maximumCapacity` computes the largest thread count in closed form.
-/

namespace Troe.Task

open Lib

/-- Layout of a compiled record type. The tests of both tables require that `maxTasks` records can
be laid out. -/
structure RecordLayout where
  size : ℕ
  align : ℕ
  fits : size * maxTasks ≤ 2 ^ 63 - align

/-- Size of `Layout::array`. -/
def RecordLayout.array (record : RecordLayout) (count : ℕ) : Option ℕ :=
  if record.size * count ≤ 2 ^ 63 - record.align then some (record.size * count) else none

/-- The sizes of a table's arrays and of the whole table. -/
structure TableMetadata where
  buffers : List ℕ
  bytes : ℕ

/-- `TableMetadata::new` on the layouts of the arrays; the owner of a table is smaller than the
largest `isize`, as every type is. -/
def TableMetadata.new (owner : Fin (2 ^ 63)) (arrays : List (RecordLayout × ℕ)) :
    Option TableMetadata := do
  let buffers ← arrays.mapM fun array => array.1.array array.2
  let bytes ← buffers.foldlM (checkedAdd 64) owner.val
  return { buffers, bytes }

/-- The owners and records of both tables, as one compilation lays them out. -/
structure RecordLayouts where
  threadTable : Fin (2 ^ 63)
  threadProcess : RecordLayout
  threadSlot : RecordLayout
  syncTable : Fin (2 ^ 63)
  syncProcess : RecordLayout
  syncObject : RecordLayout
  syncWaiter : RecordLayout
  /-- A thread slot holds its generation. -/
  slot_pos : 0 < threadSlot.size

/-- The arrays of a thread table. -/
def RecordLayouts.threadArrays (layouts : RecordLayouts) (processes threads : ℕ) :
    List (RecordLayout × ℕ) :=
  [(layouts.threadProcess, processes), (layouts.threadSlot, threads)]

/-- The arrays of a synchronization table. -/
def RecordLayouts.syncArrays (layouts : RecordLayouts) (processes objects waits : ℕ) :
    List (RecordLayout × ℕ) :=
  [(layouts.syncProcess, processes), (layouts.syncObject, objects), (layouts.syncWaiter, waits)]

/-- `ThreadTable::metadata_layout`. -/
def ThreadTable.metadataLayout (layouts : RecordLayouts) (processes threads : ℕ) :
    Except ThreadError TableMetadata := do
  rejectIf (processes = 0 ∨ threads < processes ∨ maxTasks < threads) .invalidLimit
  okOr (TableMetadata.new layouts.threadTable (layouts.threadArrays processes threads)) .invalidLimit

/-- `SyncTable::metadata_layout`. -/
def SyncTable.metadataLayout (layouts : RecordLayouts) (processes objects waits : ℕ) :
    Except SyncError TableMetadata := do
  rejectIf (processes = 0 ∨ objects < processes ∨ maxTasks < objects ∨ waits = 0 ∨
    maxTasks < waits) .invalidLimit
  okOr (TableMetadata.new layouts.syncTable (layouts.syncArrays processes objects waits))
    .invalidLimit

structure ThreadAdmissionLimits where
  processes : ℕ
  threads : ℕ
  objects : ℕ
  threadsPerProcess : ℕ

/-- `ThreadAdmissionBudget`; the byte count is a machine word. -/
structure ThreadAdmissionBudget where
  taskIpcPairs : ℕ
  reservedTaskIpcPairs : ℕ
  metadataBytes : ℕ
  metadataBytes_lt : metadataBytes < 2 ^ 64

inductive ThreadAdmissionError where
  | invalidLimit
  | contextBudget
  | metadataBudget
  | thread (error : ThreadError)
  | sync (error : SyncError)

/-- A checked capacity configuration. -/
structure ThreadAdmissionPlan where
  limits : ThreadAdmissionLimits
  metadataBytes : ℕ
  syncMetadataBytes : ℕ
  maxMetadataBytes : ℕ
  availableContexts : ℕ

namespace ThreadAdmissionPlan

/-- `ThreadAdmissionPlan::new`. -/
def new (layouts : RecordLayouts) (limits : ThreadAdmissionLimits)
    (budget : ThreadAdmissionBudget) : Except ThreadAdmissionError ThreadAdmissionPlan := do
  rejectIf (limits.threadsPerProcess = 0 ∨ limits.threads ≤ limits.threadsPerProcess ∨
    (∀ maximum ∈ checkedMul 64 limits.processes limits.threadsPerProcess,
      maximum < limits.threads) ∨ budget.reservedTaskIpcPairs = 0) .invalidLimit
  let availableContexts ←
    okOr (checkedSub budget.taskIpcPairs budget.reservedTaskIpcPairs) .contextBudget
  rejectIf (availableContexts < limits.threads) .contextBudget
  let threads ← (ThreadTable.metadataLayout layouts limits.processes limits.threads).mapError .thread
  let sync ← (SyncTable.metadataLayout layouts limits.processes limits.objects
    limits.threads).mapError .sync
  let metadataBytes ← okOr (checkedAdd 64 threads.bytes sync.bytes) .metadataBudget
  rejectIf (budget.metadataBytes < metadataBytes) .metadataBudget
  return { limits, metadataBytes, syncMetadataBytes := sync.bytes,
           maxMetadataBytes := budget.metadataBytes, availableContexts }

/-- `ThreadAdmissionPlan::maximum_capacity`. -/
def maximumCapacity (layouts : RecordLayouts) (processes objects threadsPerProcess : ℕ)
    (budget : ThreadAdmissionBudget) : Except ThreadAdmissionError ThreadAdmissionPlan := do
  let beyond ← okOr (checkedAdd 64 threadsPerProcess 1) .invalidLimit
  let minimum := max processes beyond
  let limits := { processes, threads := minimum, objects, threadsPerProcess }
  let baseline ← new layouts limits budget
  let thread ← (ThreadTable.metadataLayout layouts 1 1).mapError .thread
  let wait ← (SyncTable.metadataLayout layouts 1 1 1).mapError .sync
  let perThread ← okOr ((checkedAdd 64 (thread.buffers.getD 1 0) (wait.buffers.getD 2 0)).filter
    (· ≠ 0)) .metadataBudget
  let extra := (budget.metadataBytes - baseline.metadataBytes) / perThread
  let aggregate ← okOr (checkedMul 64 processes threadsPerProcess) .invalidLimit
  -- the addition saturates
  let maximum := min (min (min (min (minimum + extra) (2 ^ 64 - 1)) baseline.availableContexts)
    aggregate) maxTasks
  new layouts { limits with threads := maximum } budget

end ThreadAdmissionPlan

/-! ## What the layouts accept -/

/-- The bytes of the arrays. -/
def arrayBytes (arrays : List (RecordLayout × ℕ)) : List ℕ :=
  arrays.map fun array => array.1.size * array.2

theorem RecordLayout.array_of_le (record : RecordLayout) {count : ℕ} (h : count ≤ maxTasks) :
    record.array count = some (record.size * count) :=
  if_pos ((Nat.mul_le_mul_left _ h).trans record.fits)

theorem mapM_array : ∀ {arrays : List (RecordLayout × ℕ)}, (∀ array ∈ arrays, array.2 ≤ maxTasks) →
    arrays.mapM (fun array => array.1.array array.2) = some (arrayBytes arrays)
  | [], _ => rfl
  | array :: rest, h => by
    obtain ⟨hhead, hrest⟩ := List.forall_mem_cons.mp h
    rw [List.mapM_cons, array.1.array_of_le hhead, mapM_array hrest]
    rfl

theorem foldlM_checkedAdd {bytes : ℕ} : ∀ (buffers : List ℕ) {start : ℕ}, start < 2 ^ 64 →
    (buffers.foldlM (checkedAdd 64) start = some bytes ↔
      start + buffers.sum < 2 ^ 64 ∧ start + buffers.sum = bytes)
  | [], start, h => by
    simp only [List.foldlM_nil, pure, Option.some.injEq, List.sum_nil, Nat.add_zero, h, true_and]
  | buffer :: rest, start, _ => by
    rw [List.foldlM_cons, List.sum_cons, ← Nat.add_assoc]
    simp only [bind, Option.bind_eq_some_iff, checkedAdd_eq_some]
    constructor
    · rintro ⟨_, ⟨hlt, rfl⟩, hrest⟩
      exact (foldlM_checkedAdd rest hlt).mp hrest
    · intro hrest
      exact ⟨_, ⟨by omega, rfl⟩, (foldlM_checkedAdd rest (by omega)).mpr hrest⟩

/-- The bytes of a table. -/
def tableBytes (owner : Fin (2 ^ 63)) (arrays : List (RecordLayout × ℕ)) : ℕ :=
  owner + (arrayBytes arrays).sum

theorem TableMetadata.new_eq_some {owner : Fin (2 ^ 63)} {arrays : List (RecordLayout × ℕ)}
    {metadata : TableMetadata} (h : ∀ array ∈ arrays, array.2 ≤ maxTasks) :
    TableMetadata.new owner arrays = some metadata ↔ tableBytes owner arrays < 2 ^ 64 ∧
      metadata = ⟨arrayBytes arrays, tableBytes owner arrays⟩ := by
  have howner : owner.val < 2 ^ 64 := owner.isLt.trans (by decide)
  simp only [TableMetadata.new, mapM_array h, bind, Option.bind_some, Option.bind_eq_some_iff,
    foldlM_checkedAdd _ howner, pure, Option.some.injEq]
  constructor
  · rintro ⟨_, ⟨hlt, rfl⟩, rfl⟩
    exact ⟨hlt, rfl⟩
  · rintro ⟨hlt, rfl⟩
    exact ⟨_, ⟨hlt, rfl⟩, rfl⟩

namespace RecordLayouts

variable (layouts : RecordLayouts) {processes objects threads : ℕ} {metadata : TableMetadata}

/-- The thread table. -/
def threadBytes (processes threads : ℕ) : ℕ :=
  tableBytes layouts.threadTable (layouts.threadArrays processes threads)

/-- The synchronization table. -/
def syncBytes (processes objects threads : ℕ) : ℕ :=
  tableBytes layouts.syncTable (layouts.syncArrays processes objects threads)

theorem threads_eq_ok : ThreadTable.metadataLayout layouts processes threads = .ok metadata ↔
    (processes ≠ 0 ∧ processes ≤ threads ∧ threads ≤ maxTasks) ∧
      layouts.threadBytes processes threads < 2 ^ 64 ∧
      metadata = ⟨arrayBytes (layouts.threadArrays processes threads),
        layouts.threadBytes processes threads⟩ := by
  simp only [ThreadTable.metadataLayout, ok_rules, not_or, not_lt, ← ne_eq, exists_const]
  refine and_congr_right fun hlimits => TableMetadata.new_eq_some ?_
  obtain ⟨-, hle, hmax⟩ := hlimits
  simp [threadArrays, hle.trans hmax, hmax]

theorem sync_eq_ok : SyncTable.metadataLayout layouts processes objects threads = .ok metadata ↔
    (processes ≠ 0 ∧ processes ≤ objects ∧ objects ≤ maxTasks ∧ threads ≠ 0 ∧ threads ≤ maxTasks) ∧
      layouts.syncBytes processes objects threads < 2 ^ 64 ∧
      metadata = ⟨arrayBytes (layouts.syncArrays processes objects threads),
        layouts.syncBytes processes objects threads⟩ := by
  simp only [SyncTable.metadataLayout, ok_rules, not_or, not_lt, ← ne_eq, exists_const]
  refine and_congr_right fun hlimits => TableMetadata.new_eq_some ?_
  obtain ⟨-, hle, hobjects, -, hmax⟩ := hlimits
  simp [syncArrays, hle.trans hobjects, hobjects, hmax]

/-- What one more thread costs: a thread slot and a wait slot. -/
def stride : ℕ := layouts.threadSlot.size + layouts.syncWaiter.size

/-- Both tables without the slots of threads. -/
def base (limits : ThreadAdmissionLimits) : ℕ :=
  layouts.threadBytes limits.processes 0 + layouts.syncBytes limits.processes limits.objects 0

theorem bytes_eq (limits : ThreadAdmissionLimits) (threads : ℕ) :
    layouts.threadBytes limits.processes threads +
      layouts.syncBytes limits.processes limits.objects threads =
        layouts.base limits + threads * layouts.stride := by
  rw [Nat.mul_comm threads]
  simp only [base, threadBytes, syncBytes, tableBytes, arrayBytes, threadArrays, syncArrays, stride,
    List.map_cons, List.map_nil, List.sum_cons, List.sum_nil, Nat.mul_zero, Nat.add_mul]
  omega

/-- The smallest tables have layouts, which give the strides. -/
theorem single_fits : layouts.threadBytes 1 1 < 2 ^ 64 ∧ layouts.syncBytes 1 1 1 < 2 ^ 64 := by
  have hsize : ∀ record : RecordLayout, record.size ≤ 2 ^ 47 := by
    intro record
    have := record.fits
    simp only [maxTasks] at this
    omega
  have := hsize layouts.threadProcess
  have := hsize layouts.threadSlot
  have := hsize layouts.syncProcess
  have := hsize layouts.syncObject
  have := hsize layouts.syncWaiter
  simp only [threadBytes, syncBytes, tableBytes, arrayBytes, threadArrays, syncArrays, List.map_cons,
    List.map_nil, List.sum_cons, List.sum_nil]
  omega

end RecordLayouts

namespace ThreadAdmissionPlan

variable {layouts : RecordLayouts} {limits : ThreadAdmissionLimits}
  {budget : ThreadAdmissionBudget} {plan : ThreadAdmissionPlan} {threads : ℕ}

/-- What `new` checks whatever the thread count. -/
structure Admits (budget : ThreadAdmissionBudget) (limits : ThreadAdmissionLimits) : Prop where
  perProcess : limits.threadsPerProcess ≠ 0
  aggregate_lt : limits.processes * limits.threadsPerProcess < 2 ^ 64
  reserved : budget.reservedTaskIpcPairs ≠ 0
  reserved_le : budget.reservedTaskIpcPairs ≤ budget.taskIpcPairs
  processes_pos : limits.processes ≠ 0
  processes_le : limits.processes ≤ limits.objects
  objects_le : limits.objects ≤ maxTasks

/-- The smallest thread count. -/
def minimum (limits : ThreadAdmissionLimits) : ℕ :=
  max limits.processes (limits.threadsPerProcess + 1)

/-- The bounds on the thread count other than the metadata. -/
def ceiling (budget : ThreadAdmissionBudget) (limits : ThreadAdmissionLimits) : ℕ :=
  min (min (budget.taskIpcPairs - budget.reservedTaskIpcPairs)
    (limits.processes * limits.threadsPerProcess)) maxTasks

/-- The thread counts that `new` accepts. -/
structure Fits (layouts : RecordLayouts) (budget : ThreadAdmissionBudget)
    (limits : ThreadAdmissionLimits) (threads : ℕ) : Prop extends Admits budget limits where
  minimum_le : minimum limits ≤ threads
  le_ceiling : threads ≤ ceiling budget limits
  metadata : layouts.base limits + threads * layouts.stride ≤ budget.metadataBytes

/-- The plan `new` returns. -/
def planFor (layouts : RecordLayouts) (budget : ThreadAdmissionBudget)
    (limits : ThreadAdmissionLimits) (threads : ℕ) : ThreadAdmissionPlan where
  limits := { limits with threads }
  metadataBytes := layouts.base limits + threads * layouts.stride
  syncMetadataBytes := layouts.syncBytes limits.processes limits.objects threads
  maxMetadataBytes := budget.metadataBytes
  availableContexts := budget.taskIpcPairs - budget.reservedTaskIpcPairs

theorem new_eq_ok : new layouts { limits with threads } budget = .ok plan ↔
    Fits layouts budget limits threads ∧ plan = planFor layouts budget limits threads := by
  simp only [new, ok_rules, mapError_eq_ok, layouts.threads_eq_ok, layouts.sync_eq_ok, pure,
    Except.pure, Except.ok.injEq, Option.mem_def, not_or, not_lt, not_le, not_forall]
  constructor
  · rintro ⟨_, ⟨hper, hbeyond, ⟨_, ⟨hword, rfl⟩, haggregate⟩, hreserved⟩, _, ⟨hpairs, rfl⟩, _,
      hcontexts, _, ⟨⟨hpos, hprocesses, htasks⟩, -, rfl⟩, _, ⟨⟨-, hobjects, hmax, -⟩, -, rfl⟩, _,
      ⟨-, rfl⟩, _, hmetadata, rfl⟩
    rw [layouts.bytes_eq] at hmetadata
    refine ⟨⟨⟨hper, hword, hreserved, hpairs, hpos, hobjects, hmax⟩, max_le hprocesses hbeyond,
      le_min (le_min hcontexts haggregate) htasks, hmetadata⟩, ?_⟩
    simp only [planFor, layouts.bytes_eq]
  · rintro ⟨h, rfl⟩
    obtain ⟨hprocesses, hbeyond⟩ := max_le_iff.mp h.minimum_le
    obtain ⟨hbounds, htasks⟩ := le_min_iff.mp h.le_ceiling
    obtain ⟨hcontexts, haggregate⟩ := le_min_iff.mp hbounds
    have hbytes := layouts.bytes_eq limits threads
    have hmetadata := h.metadata
    have hword := hmetadata.trans_lt budget.metadataBytes_lt
    refine ⟨(), ⟨h.perProcess, hbeyond, ⟨_, ⟨h.aggregate_lt, rfl⟩, haggregate⟩, h.reserved⟩, _,
      ⟨h.reserved_le, rfl⟩, (), hcontexts, _, ⟨⟨h.processes_pos, hprocesses, htasks⟩, by omega,
        rfl⟩, _, ⟨⟨h.processes_pos, h.processes_le, h.objects_le, by omega, htasks⟩, by omega,
        rfl⟩, _, ⟨hbytes.trans_lt hword, rfl⟩, (), hbytes.trans_le hmetadata, ?_⟩
    simp only [planFor, layouts.bytes_eq]

/-- The count that `maximumCapacity` computes. -/
def largest (layouts : RecordLayouts) (budget : ThreadAdmissionBudget)
    (limits : ThreadAdmissionLimits) : ℕ :=
  min (minimum limits + (budget.metadataBytes -
    (layouts.base limits + minimum limits * layouts.stride)) / layouts.stride)
    (ceiling budget limits)

/-- Once the smallest count fits, those above it fit up to the closed form. -/
theorem Fits.iff_le_largest (h : Fits layouts budget limits (minimum limits)) :
    Fits layouts budget limits threads ↔
      minimum limits ≤ threads ∧ threads ≤ largest layouts budget limits := by
  have hpos : 0 < layouts.stride := Nat.add_pos_left layouts.slot_pos _
  have hminimum := h.metadata
  have hmetadata : layouts.base limits + threads * layouts.stride ≤ budget.metadataBytes ↔
      threads ≤ minimum limits + (budget.metadataBytes -
        (layouts.base limits + minimum limits * layouts.stride)) / layouts.stride := by
    rw [← Nat.sub_le_iff_le_add', Nat.le_div_iff_mul_le hpos, Nat.sub_mul]
    omega
  constructor
  · intro hfits
    exact ⟨hfits.minimum_le, le_min (hmetadata.mp hfits.metadata) hfits.le_ceiling⟩
  · rintro ⟨hle, hlargest⟩
    obtain ⟨hbytes, hceiling⟩ := le_min_iff.mp hlargest
    exact ⟨h.toAdmits, hle, hceiling, hmetadata.mpr hbytes⟩

/-- Once the smallest count is accepted, `new` is asked for the closed form. -/
theorem maximumCapacity_of_minimum (h : Fits layouts budget limits (minimum limits)) :
    maximumCapacity layouts limits.processes limits.objects limits.threadsPerProcess budget =
      new layouts { limits with threads := largest layouts budget limits } budget := by
  have hslot := layouts.threadSlot.fits
  have hwaiter := layouts.syncWaiter.fits
  have hceiling : ceiling budget limits ≤ maxTasks := min_le_right _ _
  have hminimum : limits.threadsPerProcess + 1 ≤ minimum limits := le_max_right _ _
  have hle := h.le_ceiling
  simp only [maxTasks] at hslot hwaiter hceiling
  have hbeyond : checkedAdd 64 limits.threadsPerProcess 1 = some (limits.threadsPerProcess + 1) :=
    checkedAdd_eq_some.mpr ⟨by omega, rfl⟩
  have hbaseline := new_eq_ok.mpr ⟨h, rfl⟩
  have hthread := layouts.threads_eq_ok.mpr ⟨by decide, layouts.single_fits.1, rfl⟩
  have hsync := layouts.sync_eq_ok.mpr ⟨by decide, layouts.single_fits.2, rfl⟩
  have hstride : (checkedAdd 64 (layouts.threadSlot.size * 1) (layouts.syncWaiter.size * 1)).filter
      (· ≠ 0) = some layouts.stride := by
    rw [Nat.mul_one, Nat.mul_one, checkedAdd, if_pos (by omega), Option.filter_some, if_pos]
    · rfl
    · exact decide_eq_true (Nat.add_pos_left layouts.slot_pos _).ne'
  have hmul := checkedMul_eq_some.mpr ⟨h.aggregate_lt, rfl⟩
  simp only [minimum] at hbaseline
  simp only [maximumCapacity, hbeyond, okOr, Option.elim, bind, Except.bind, hbaseline, hthread,
    hsync, Except.mapError, arrayBytes, RecordLayouts.threadArrays, RecordLayouts.syncArrays,
    List.map_cons, List.getD_cons_succ, List.getD_cons_zero, hstride, hmul]
  congr 2
  simp only [largest, ceiling, planFor, minimum, maxTasks]
  omega

/-- `maximumCapacity` returns the largest thread count `new` accepts, and fails only when `new`
accepts none. -/
theorem maximumCapacity_largest (layouts : RecordLayouts) (limits : ThreadAdmissionLimits)
    (budget : ThreadAdmissionBudget) :
    (∀ plan, maximumCapacity layouts limits.processes limits.objects limits.threadsPerProcess
        budget = .ok plan →
      new layouts { limits with threads := plan.limits.threads } budget = .ok plan ∧
      ∀ threads, plan.limits.threads < threads →
        ∃ e, new layouts { limits with threads } budget = .error e) ∧
    ∀ e, maximumCapacity layouts limits.processes limits.objects limits.threadsPerProcess budget =
        .error e →
      ∀ threads, ∃ e', new layouts { limits with threads } budget = .error e' := by
  have hrejects : ∀ threads, ¬ Fits layouts budget limits threads →
      ∃ e, new layouts { limits with threads } budget = .error e := by
    intro threads hnot
    cases hnew : new layouts { limits with threads } budget with
    | error e => exact ⟨e, rfl⟩
    | ok plan => exact absurd (new_eq_ok.mp hnew).1 hnot
  by_cases hminimum : Fits layouts budget limits (minimum limits)
  · -- the closed form lies above the smallest count, so it fits and nothing above it does
    have hle := (hminimum.iff_le_largest.mp hminimum).2
    have hnew := new_eq_ok.mpr ⟨hminimum.iff_le_largest.mpr ⟨hle, le_rfl⟩, rfl⟩
    rw [maximumCapacity_of_minimum hminimum, hnew]
    refine ⟨fun plan hplan => ?_, fun e he => by cases he⟩
    cases hplan
    refine ⟨hnew, fun threads hlt => hrejects threads fun hfits => ?_⟩
    exact absurd (hminimum.iff_le_largest.mp hfits).2 (Nat.not_le.mpr hlt)
  · -- a count that `new` accepts would make the smallest one acceptable
    refine ⟨fun plan hplan => ?_, fun _ _ threads => hrejects threads fun hfits => hminimum ?_⟩
    · simp only [maximumCapacity, ok_rules] at hplan
      obtain ⟨_, ⟨-, rfl⟩, _, hbaseline, -⟩ := hplan
      exact absurd (new_eq_ok.mp hbaseline).1 hminimum
    · have hbytes := Nat.mul_le_mul_right layouts.stride hfits.minimum_le
      exact ⟨hfits.toAdmits, le_rfl, hfits.minimum_le.trans hfits.le_ceiling,
        (Nat.add_le_add_left hbytes _).trans hfits.metadata⟩

def sampleLayouts : RecordLayouts where
  threadTable := 136
  threadProcess := ⟨64, 8, by decide⟩
  threadSlot := ⟨200, 8, by decide⟩
  syncTable := 88
  syncProcess := ⟨24, 8, by decide⟩
  syncObject := ⟨80, 8, by decide⟩
  syncWaiter := ⟨120, 8, by decide⟩
  slot_pos := by decide

/-- Two processes of at most three threads: the aggregate quota is the bound that is reached. -/
theorem maximumCapacity_largest_quota :
    (maximumCapacity sampleLayouts 2 2 3 ⟨10, 2, 4096, by decide⟩).map (·.limits.threads) = .ok 6 ∧
      ∃ e, new sampleLayouts ⟨2, 7, 2, 3⟩ ⟨10, 2, 4096, by decide⟩ = .error e :=
  ⟨rfl, ((maximumCapacity_largest sampleLayouts ⟨2, 0, 2, 3⟩ ⟨10, 2, 4096, by decide⟩).1 _ rfl).2 7
    (by decide)⟩

end ThreadAdmissionPlan

end Troe.Task
