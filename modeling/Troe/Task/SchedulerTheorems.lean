import Mathlib.Data.List.InsertIdx
import Troe.Task.Scheduler

/-!
# Bounded waiting in the round-robin scheduler

A ready task is reached after the records between the cursor and it. Every call leaves that distance
alone or shortens it, a selection of another task by at least one, with one exception: a record that
is appended while the cursor is already past the task comes before it in the rotation.
-/

namespace Troe.Task

open Lib

namespace Scheduler

variable {found : ℕ × TaskSnapshot} {snapshot : TaskSnapshot} {wait : WaitKey}
  {replacement : IsolationResource} {status n cursor count : ℕ} {fault : TaskFault} {ρ : Type}

/-! ## What calls do to the vector and the cursor -/

/-- The identities in the order of the vector. -/
def ids (s : Scheduler) : List TaskId := s.records.map (·.id)

@[simp] theorem length_ids (s : Scheduler) : s.ids.length = s.records.length := List.length_map _

/-- Neither the vector nor the cursor moved. -/
structure Kept (s s' : Scheduler) : Prop where
  ids : s'.ids = s.ids
  cursor : s'.cursor = s.cursor
  nextId : s'.nextId = s.nextId
  capacity : s'.capacity = s.capacity

/-- A record was appended. -/
structure Grown (s s' : Scheduler) : Prop where
  room : s.records.length ≠ s.capacity
  ids : s'.ids = s.ids ++ [s.nextId]
  cursor : s'.cursor = s.cursor
  nextId : s'.nextId = s.nextId + 1
  capacity : s'.capacity = s.capacity

/-- The record at the index was selected. -/
structure Chosen (s s' : Scheduler) (index : ℕ) : Prop where
  inside : index < s.records.length
  ids : s'.ids = s.ids
  cursor : s'.cursor = (index + 1) % s.records.length
  nextId : s'.nextId = s.nextId
  capacity : s'.capacity = s.capacity

/-- The record at the index was removed. -/
structure Shrunk (s s' : Scheduler) (index : ℕ) : Prop where
  inside : index < s.records.length
  ids : s'.ids = s.ids.eraseIdx index
  cursor : s'.cursor = cursorAfter s.cursor index (s.records.length - 1)
  nextId : s'.nextId = s.nextId
  capacity : s'.capacity = s.capacity

variable {s s' : Scheduler} {id : TaskId} {index : ℕ}

@[simp] theorem Kept.refl (s : Scheduler) : Kept s s := ⟨rfl, rfl, rfl, rfl⟩

theorem getElem?_of_find (h : s.find id = some found) : s.records[found.1]? = some found.2 := by
  obtain ⟨index, -, h⟩ := Option.bind_eq_some_iff.mp h
  obtain ⟨snapshot, hsnapshot, rfl⟩ := Option.map_eq_some_iff.mp h
  exact hsnapshot

/-- A record that is changed in place keeps its identity. -/
theorem ids_put {old : TaskSnapshot} (h : s.records[index]? = some old)
    (hid : snapshot.id = old.id) : (s.put index snapshot).ids = s.ids := by
  have hget : s.ids[index]? = some snapshot.id := by
    rw [ids, List.getElem?_map, h, Option.map_some, hid]
  obtain ⟨hlt, hget⟩ := List.getElem?_eq_some_iff.mp hget
  unfold put
  rw [ids, List.map_set, ← ids, ← hget, List.set_getElem_self]

/-- The operation neither moves records nor the cursor, whichever way it ends. -/
def Keeps {ε α : Type} (x : Act Scheduler ε α) : Prop :=
  ∀ s, x.always (Kept s) s

/-- Another state for a task that keeps its identity. -/
theorem kept_put (h : s.find id = some found)
    (hrecords : s'.records = (s.put found.1 snapshot).records) (hid : snapshot.id = found.2.id)
    (hcursor : s'.cursor = s.cursor) (hnextId : s'.nextId = s.nextId)
    (hcapacity : s'.capacity = s.capacity) : Kept s s' := by
  refine ⟨?_, hcursor, hnextId, hcapacity⟩
  rw [ids, hrecords, ← ids, ids_put (getElem?_of_find h) hid]

theorem keeps_yieldCurrent : Keeps (yieldCurrent id) := by
  intro s
  simp only [yieldCurrent, requireCurrent, bump, recordMut, wp_quiet, Kept.refl]
  intro _ _ _ found hfound _ _ _
  exact kept_put hfound rfl rfl rfl rfl rfl

theorem keeps_preemptCurrent : Keeps (preemptCurrent id) := by
  intro s
  simp only [preemptCurrent, requireCurrent, bump, recordMut, wp_quiet, Kept.refl]
  intro _ _ _ found hfound _ _ _
  exact kept_put hfound rfl rfl rfl rfl rfl

theorem keeps_blockCurrent : Keeps (blockCurrent id wait) := by
  intro s
  simp only [blockCurrent, requireCurrent, bump, recordMut, wp_quiet, Kept.refl]
  intro _ _ _ found hfound _
  exact kept_put hfound rfl rfl rfl rfl rfl

theorem keeps_wakeBlocked : Keeps (wakeBlocked id wait) := by
  intro s
  simp only [wakeBlocked, bump, recordMut, wp_quiet, Kept.refl]
  intro _ _ found hfound _
  exact kept_put hfound rfl rfl rfl rfl rfl

theorem keeps_resizeCurrentIsolation : Keeps (resizeCurrentIsolation id replacement) := by
  intro s
  simp only [resizeCurrentIsolation, resizeIsolation, requireCurrent, recordMut, wp_quiet,
    Kept.refl]
  intro _ found hfound _ _ _ _
  exact kept_put hfound rfl rfl rfl rfl rfl

theorem keeps_resizeReadyIsolation : Keeps (resizeReadyIsolation id replacement) := by
  intro s
  simp only [resizeReadyIsolation, resizeIsolation, recordMut, wp_quiet, Kept.refl]
  intro _ found hfound _ _ _ _
  exact kept_put hfound rfl rfl rfl rfl rfl

theorem keeps_exitCurrent : Keeps (exitCurrent id status) := by
  intro s
  simp only [exitCurrent, requireCurrent, recordMut, wp_quiet, Kept.refl]
  intro _ found hfound _
  exact kept_put hfound rfl rfl rfl rfl rfl

theorem keeps_cancel {inState : TaskState → Bool} : Keeps (cancel inState id status) := by
  intro s
  simp only [cancel, recordMut, wp_quiet, Kept.refl]
  intro found hfound _
  exact kept_put hfound rfl rfl rfl rfl rfl

theorem keeps_cancelReady : Keeps (cancelReady id status) := keeps_cancel

theorem keeps_cancelBlocked : Keeps (cancelBlocked id status) := keeps_cancel

theorem keeps_faultCurrent : Keeps (faultCurrent id fault) := by
  intro s
  simp only [faultCurrent, requireCurrent, bump, recordMut, wp_quiet, Kept.refl]
  intro _ _ _ found hfound _
  exact kept_put hfound rfl rfl rfl rfl rfl

theorem keeps_faultBlocked : Keeps (faultBlocked id fault) := by
  intro s
  simp only [faultBlocked, bump, recordMut, wp_quiet, Kept.refl]
  intro _ _ found hfound _
  exact kept_put hfound rfl rfl rfl rfl rfl

/-- The records moved as a removal moves them, or not at all. -/
def KeptOrShrunk (s s' : Scheduler) : Prop := Kept s s' ∨ ∃ index, Shrunk s s' index

/-- A reap removes one record, or nothing happens. -/
theorem wp_reap (s : Scheduler) : (reap id).always (KeptOrShrunk s) s := by
  have hkept : KeptOrShrunk s s := .inl (Kept.refl s)
  simp only [reap, bump, recordMut, wp_quiet, hkept]
  intro found hfound _ _ _
  have hshrunk : ∀ s' : Scheduler, s'.records = s.records.eraseIdx found.1 →
      s'.cursor = cursorAfter s.cursor found.1 (s.records.length - 1) → s'.nextId = s.nextId →
      s'.capacity = s.capacity → KeptOrShrunk s s' := by
    intro s' hrecords hcursor hnextId hcapacity
    obtain ⟨hlt, -⟩ := List.getElem?_eq_some_iff.mp (getElem?_of_find hfound)
    refine .inr ⟨found.1, hlt, ?_, hcursor, hnextId, hcapacity⟩
    rw [ids, hrecords, ids, List.eraseIdx_map]
  exact ⟨fun _ _ => hshrunk _ rfl rfl rfl rfl, fun _ => hshrunk _ rfl rfl rfl rfl⟩

theorem Kept.trans_keptOrShrunk {t : Scheduler} (h : Kept s s') (h' : KeptOrShrunk s' t) :
    KeptOrShrunk s t := by
  have hlength : s'.records.length = s.records.length := by
    rw [← length_ids, h.ids, length_ids]
  obtain h' | ⟨index, h'⟩ := h'
  · exact .inl ⟨h'.ids.trans h.ids, h'.cursor.trans h.cursor, h'.nextId.trans h.nextId,
      h'.capacity.trans h.capacity⟩
  · refine .inr ⟨index, hlength ▸ h'.inside, ?_, ?_, h'.nextId.trans h.nextId,
      h'.capacity.trans h.capacity⟩
    · rw [h'.ids, h.ids]
    · rw [h'.cursor, h.cursor, hlength]

/-- A scheduler error becomes an error of the teardown. -/
theorem wp_asTeardown {α : Type} {x : Sched α} {Q : α → Scheduler → Prop}
    {R : TeardownError ρ → Scheduler → Prop} :
    (asTeardown x : Act Scheduler (TeardownError ρ) α).wp Q R s ↔
      x.wp Q (fun e s' => R (.task e) s') s := by
  unfold Act.wp asTeardown
  rcases x s with ⟨e | a, s'⟩
  · rfl
  · rfl

theorem keeps_terminalize {state : TaskState} : Keeps (terminalize id state status) := by
  cases state with
  | ready => exact keeps_cancelReady
  | running => exact keeps_exitCurrent
  | blocked wait => exact keeps_cancelBlocked
  | exited => exact fun s => Kept.refl s
  | faulted => exact fun s => Kept.refl s

/-- A teardown keeps the table, or removes one record from it. -/
theorem wp_terminateRevokeAndReap {revoke : TaskSnapshot → Except ρ Unit} (s : Scheduler) :
    (terminateRevokeAndReap id status revoke).always (KeptOrShrunk s) s := by
  have hkept : KeptOrShrunk s s := .inl (Kept.refl s)
  simp only [terminateRevokeAndReap, wp_rules, wp_asTeardown]
  -- The first lookup leaves the state as it is; the transition after it keeps the vector.
  simp only [recordMut, wp_quiet, hkept]
  intro found _ _
  refine Act.wp_mono (keeps_terminalize s) (fun _ t ht => ?_) fun _ t ht => .inl ht
  have hkept' : KeptOrShrunk s t := .inl ht
  simp only [wp_quiet, hkept']
  intro _ _ _ _
  exact Act.always_mono (wp_reap t) fun _ h => ht.trans_keptOrShrunk h

/-- A new task goes to the end of the table. -/
theorem wp_spawnWithIsolation (capabilities : Capabilities) (stack : StackResource)
    (isolation : Option IsolationResource) (reserves : Bool) (s : Scheduler) :
    (spawnWithIsolation capabilities stack isolation reserves).wp (fun _ s' => Grown s s')
      (fun _ s' => Kept s s') s := by
  simp only [spawnWithIsolation, bump, wp_quiet, Kept.refl, ok_rules]
  rintro hroom _ _ _ ⟨-, rfl⟩ _ _ _
  exact ⟨hroom, by simp [ids], rfl, rfl, rfl⟩

/-! ## Selection -/

/-- Making a record the running one moves the cursor behind it. -/
theorem wp_select (hsnapshot : s.records[index]? = some snapshot) :
    (select index snapshot).wp (fun id s' => id = snapshot.id ∧ Chosen s s' index)
      (fun _ s' => Kept s s') s := by
  simp only [select, bump, wp_quiet, Kept.refl]
  intro _ _
  refine ⟨(List.getElem?_eq_some_iff.mp hsnapshot).1, ?_, rfl, rfl, rfl⟩
  exact ids_put hsnapshot rfl

/-- A dispatch by name moves the cursor behind the task. -/
theorem wp_dispatch (id : TaskId) (required : Capabilities) (s : Scheduler) :
    (dispatch id required).wp (fun _ s' => ∃ index, Chosen s s' index) (fun _ s' => Kept s s') s := by
  simp only [dispatch, recordMut, wp_quiet, Kept.refl]
  intro _ found hfound _
  exact Act.wp_ok_mono (wp_select (getElem?_of_find hfound)) fun _ _ h => ⟨_, h.2⟩

/-- The first index at which something is found. -/
theorem findSome?_range {β : Type} {f : ℕ → Option β} {b : β}
    (h : (List.range n).findSome? f = some b) :
    ∃ i < n, f i = some b ∧ ∀ j < i, f j = none := by
  obtain ⟨passed, i, rest, hrange, hi, hpassed⟩ := List.findSome?_eq_some_iff.mp h
  have hmem : i ∈ List.range n := by simp [hrange]
  exact ⟨i, List.mem_range.mp hmem, hi, fun j hj => hpassed j (mem_of_range_eq_append hrange hj)⟩

/-- The search stops at the first eligible record in the order of the rotation. -/
theorem firstEligible_eq_some {required : Capabilities}
    (h : s.firstEligible required = some found) :
    s.records[found.1]? = some found.2 ∧ ∃ offset < s.records.length,
      found.1 = (s.cursor + offset) % s.records.length ∧
      ∀ earlier < offset, ∀ snapshot,
        s.records[(s.cursor + earlier) % s.records.length]? = some snapshot →
          eligible required snapshot = false := by
  obtain ⟨offset, hoffset, hfound, hearlier⟩ := findSome?_range h
  obtain ⟨snapshot, hsnapshot, rfl⟩ := Option.map_eq_some_iff.mp hfound
  obtain ⟨hget, -⟩ := Option.filter_eq_some_iff.mp hsnapshot
  refine ⟨hget, offset, hoffset, rfl, fun earlier hlt snapshot' hget' => ?_⟩
  have hnone := hearlier earlier hlt
  dsimp only at hnone
  rw [hget', Option.map_eq_none_iff, Option.filter_eq_none_iff] at hnone
  simpa using hnone snapshot' rfl

/-- The first eligible task from the cursor on is dispatched. -/
theorem wp_dispatchNext (required : Capabilities) (s : Scheduler) :
    (dispatchNext required).wp
      (fun r s' => r = none ∧ Kept s s' ∨ ∃ found, s.firstEligible required = some found ∧
        r = some found.2.id ∧ Chosen s s' found.1)
      (fun _ s' => Kept s s') s := by
  simp only [dispatchNext, wp_quiet, Kept.refl]
  intro _
  split
  · exact .inl ⟨rfl, Kept.refl s⟩
  next found hfound =>
    rw [Act.wp_bind]
    refine Act.wp_ok_mono (wp_select (firstEligible_eq_some hfound).1) fun id s' h => ?_
    exact .inr ⟨found, hfound, by rw [h.1], h.2⟩

/-! ## The invariant -/

/-- Identities are unique and below the next one, and the cursor is inside the vector. -/
structure Inv (s : Scheduler) : Prop where
  nodup : s.ids.Nodup
  fresh : ∀ id ∈ s.ids, id < s.nextId
  cursor : s.cursor < s.records.length ∨ s.records.length = 0 ∧ s.cursor = 0
  size : s.records.length ≤ s.capacity

theorem Kept.length (h : Kept s s') : s'.records.length = s.records.length := by
  rw [← length_ids, h.ids, length_ids]

theorem Grown.length (h : Grown s s') : s'.records.length = s.records.length + 1 := by
  rw [← length_ids, h.ids, List.length_append, length_ids, List.length_singleton]

theorem Chosen.length (h : Chosen s s' index) : s'.records.length = s.records.length := by
  rw [← length_ids, h.ids, length_ids]

theorem Shrunk.length (h : Shrunk s s' index) : s'.records.length = s.records.length - 1 := by
  have hinside := h.inside
  rw [← length_ids] at hinside
  rw [← length_ids, h.ids, List.length_eraseIdx_of_lt hinside, length_ids]

theorem Inv.kept (hinv : s.Inv) (h : Kept s s') : s'.Inv where
  nodup := h.ids ▸ hinv.nodup
  fresh := by
    rw [h.ids, h.nextId]
    exact hinv.fresh
  cursor := by
    rw [h.length, h.cursor]
    exact hinv.cursor
  size := by
    rw [h.length, h.capacity]
    exact hinv.size

/-- Identities grow, so that a new one is not in the table. -/
theorem Inv.grown (hinv : s.Inv) (h : Grown s s') : s'.Inv where
  nodup := by
    rw [h.ids]
    refine List.nodup_append.mpr ⟨hinv.nodup, List.pairwise_singleton _ _, ?_⟩
    rintro id hid _ hnext rfl
    have hlt := hinv.fresh id hid
    rw [List.mem_singleton.mp hnext] at hlt
    exact Nat.lt_irrefl _ hlt
  fresh := by
    rw [h.ids, h.nextId]
    intro id hid
    obtain hid | hid := List.mem_append.mp hid
    · exact Nat.lt_succ_of_lt (hinv.fresh id hid)
    · rw [List.mem_singleton.mp hid]
      exact Nat.lt_succ_self _
  cursor := by
    have := hinv.cursor
    rw [h.length, h.cursor]
    omega
  size := by
    have := hinv.size
    have := h.room
    rw [h.length, h.capacity]
    omega

theorem Inv.chosen (hinv : s.Inv) (h : Chosen s s' index) : s'.Inv where
  nodup := h.ids ▸ hinv.nodup
  fresh := by
    rw [h.ids, h.nextId]
    exact hinv.fresh
  cursor := by
    have hinside := h.inside
    rw [h.length, h.cursor]
    exact .inl (Nat.mod_lt _ (by omega))
  size := by
    rw [h.length, h.capacity]
    exact hinv.size

/-- The other records stay in their order when one is removed. -/
theorem Inv.shrunk (hinv : s.Inv) (h : Shrunk s s' index) : s'.Inv where
  nodup := by
    rw [h.ids]
    exact hinv.nodup.sublist (List.eraseIdx_sublist _ _)
  fresh := by
    rw [h.ids, h.nextId]
    exact fun id hid => hinv.fresh id (List.mem_of_mem_eraseIdx hid)
  cursor := by
    have hcursor := hinv.cursor
    rw [h.length, h.cursor, cursorAfter]
    split
    · omega
    · split
      · omega
      · split <;> omega
  size := by
    have := hinv.size
    rw [h.length, h.capacity]
    omega

/-! ## The way to a task -/

/-- The records the search passes before the one at `position`. -/
def rotation (cursor position count : ℕ) : ℕ :=
  if cursor ≤ position then position - cursor else position + count - cursor

theorem mod_of_lt_two_mul {x : ℕ} (h : x < 2 * n) : x % n = if x < n then x else x - n := by
  split
  case isTrue hlt => exact Nat.mod_eq_of_lt hlt
  case isFalse hge =>
    rw [Nat.mod_eq_sub_mod (by omega), Nat.mod_eq_of_lt (by omega)]

/-- The distance from the cursor leads to the position. -/
theorem add_rotation {position : ℕ} (hcursor : cursor < count)
    (hposition : position < count) : (cursor + rotation cursor position count) % count = position := by
  unfold rotation
  rw [mod_of_lt_two_mul (by split <;> omega)]
  split <;> split <;> omega

/-- Behind a selected record the way is shorter by all that was passed. -/
theorem rotation_select {position offset : ℕ} (hcursor : cursor < count)
    (hposition : position < count) (hoffset : offset < rotation cursor position count) :
    rotation (((cursor + offset) % count + 1) % count) position count + (offset + 1) =
      rotation cursor position count := by
  have hsmall : rotation cursor position count < count := by
    unfold rotation
    split <;> omega
  rw [Nat.mod_add_mod, mod_of_lt_two_mul (by omega)]
  unfold rotation at *
  split at hoffset <;> split <;> split <;> omega

/-- A removed record shortens the way or leaves it. -/
theorem rotation_remove {position : ℕ} (hcursor : cursor < count)
    (hposition : position < count) (hindex : index < count) (hne : index ≠ position) :
    rotation (cursorAfter cursor index (count - 1))
      (if index < position then position - 1 else position) (count - 1) ≤
      rotation cursor position count := by
  unfold rotation cursorAfter
  repeat' split
  all_goals omega

/-! ## Waiting -/

/-- The place of a task in the vector. -/
def position (s : Scheduler) (task : TaskId) : ℕ := s.ids.idxOf task

/-- The task is ready and holds the capabilities. -/
def waits (s : Scheduler) (task : TaskId) (required : Capabilities) : Bool :=
  s.records.any fun snapshot => snapshot.id = task && eligible required snapshot

/-- The records the next search passes before the task. -/
def distance (s : Scheduler) (task : TaskId) : ℕ :=
  rotation s.cursor (s.position task) s.records.length

variable {task : TaskId} {required : Capabilities}

theorem getElem?_position (h : task ∈ s.ids) : s.ids[s.position task]? = some task :=
  List.getElem?_idxOf h

theorem position_lt (h : task ∈ s.ids) : s.position task < s.records.length := by
  rw [← length_ids]
  exact List.idxOf_lt_length_of_mem h

theorem position_eq (hinv : s.Inv) (h : s.ids[index]? = some task) : s.position task = index := by
  obtain ⟨hlt, hget⟩ := List.getElem?_eq_some_iff.mp h
  rw [position, ← hget, hinv.nodup.idxOf_getElem]

theorem mem_ids_of_waits (h : s.waits task required = true) : task ∈ s.ids := by
  obtain ⟨snapshot, hmem, h⟩ := List.any_eq_true.mp h
  rw [Bool.and_eq_true, decide_eq_true_eq] at h
  exact List.mem_map.mpr ⟨snapshot, hmem, h.1⟩

/-- The record of a waiting task is eligible. -/
theorem eligible_of_waits (hinv : s.Inv) (h : s.waits task required = true) :
    ∃ snapshot, s.records[s.position task]? = some snapshot ∧ snapshot.id = task ∧
      eligible required snapshot = true := by
  obtain ⟨snapshot, hmem, h⟩ := List.any_eq_true.mp h
  rw [Bool.and_eq_true, decide_eq_true_eq] at h
  obtain ⟨index, hget⟩ := List.getElem?_of_mem hmem
  have hid : s.ids[index]? = some task := by rw [ids, List.getElem?_map, hget, ← h.1]; rfl
  exact ⟨snapshot, position_eq hinv hid ▸ hget, h⟩

/-- The cursor points into the table while it has a task. -/
theorem Inv.cursor_lt (hinv : s.Inv) (h : task ∈ s.ids) : s.cursor < s.records.length := by
  have := position_lt h
  have := hinv.cursor
  omega

theorem distance_lt (h : task ∈ s.ids) : s.distance task < s.records.length := by
  have := position_lt h
  unfold distance rotation
  split <;> omega

theorem Kept.distance (h : Kept s s') : s'.distance task = s.distance task := by
  unfold Scheduler.distance position
  rw [h.ids, h.cursor, h.length]

/-- A record that is appended at or behind the task comes after it. -/
theorem Grown.distance (h : Grown s s') (htask : task ∈ s.ids) (hcursor : s.cursor ≤ s.position task) :
    s'.distance task = s.distance task := by
  have hposition : s'.position task = s.position task := by
    unfold position
    rw [h.ids, List.idxOf_append_of_mem htask]
  unfold Scheduler.distance rotation
  rw [hposition, h.cursor, if_pos hcursor, if_pos hcursor]

/-- A task that leaves brings no other further from the cursor. -/
theorem Shrunk.distance (hinv : s.Inv) (h : Shrunk s s' index) (htask : task ∈ s.ids)
    (htask' : task ∈ s'.ids) : s'.distance task ≤ s.distance task := by
  have hget := getElem?_position htask
  have hne : index ≠ s.position task := by
    -- The removed identity is unique, so the task would be gone.
    rintro rfl
    rw [h.ids] at htask'
    obtain ⟨other, hother⟩ := List.getElem?_of_mem htask'
    rw [List.getElem?_eraseIdx] at hother
    split at hother
    · have := position_eq hinv hother
      omega
    · have := position_eq hinv hother
      omega
  have hposition : s'.position task =
      if index < s.position task then s.position task - 1 else s.position task := by
    refine position_eq (hinv.shrunk h) ?_
    rw [h.ids, List.getElem?_eraseIdx]
    split
    · rw [if_neg (by omega), Nat.sub_add_cancel (by omega), hget]
    · rw [if_pos (by omega), hget]
  unfold Scheduler.distance
  rw [hposition, h.cursor, h.length]
  exact rotation_remove (hinv.cursor_lt htask) (position_lt htask) h.inside hne

/-- A selection of another task brings the cursor closer to a waiting one. -/
theorem Chosen.distance (hinv : s.Inv)
    (hfound : s.firstEligible required = some found) (h : Chosen s s' found.1)
    (hwaits : s.waits task required = true) (hother : found.2.id ≠ task) :
    s'.distance task + 1 ≤ s.distance task := by
  have htask := mem_ids_of_waits hwaits
  have hcursor := hinv.cursor_lt htask
  have hposition := position_lt htask
  obtain ⟨snapshot, hget, hid, heligible⟩ := eligible_of_waits hinv hwaits
  obtain ⟨hfoundAt, offset, -, hoffset, hearlier⟩ := firstEligible_eq_some hfound
  have hreach := add_rotation hcursor hposition
  have hbefore : offset < s.distance task := by
    refine Nat.lt_of_le_of_ne (Nat.le_of_not_lt fun hlt => ?_) fun heq => ?_
    · -- The task itself would have been found earlier.
      have := hearlier _ hlt snapshot (by rw [Scheduler.distance, hreach, hget])
      rw [heligible] at this
      cases this
    · rw [heq, Scheduler.distance, hreach] at hoffset
      rw [hoffset, hget] at hfoundAt
      cases hfoundAt
      exact hother hid
  have hsame : s'.position task = s.position task := by
    unfold position
    rw [h.ids]
  have hshorter := rotation_select hcursor hposition hbefore
  unfold Scheduler.distance at *
  rw [hsame, h.cursor, h.length, hoffset]
  omega

end Scheduler

/-! ## Runs -/

namespace SchedulerCall

open Scheduler

variable {s : Scheduler} {task : TaskId} {required : Capabilities}

/-- The call adds a record. -/
def isSpawn : SchedulerCall → Bool
  | spawn .. => true
  | _ => false

/-- The call selects with the given capabilities, or does not select. -/
def isFair (required : Capabilities) : SchedulerCall → Bool
  | dispatchNext required' => required' = required
  | dispatch .. => false
  | _ => true

theorem keptOrShrunk_of_keeps {ε α : Type} {x : Act Scheduler ε α} (h : Keeps x) :
    KeptOrShrunk s (x s).2 :=
  .inl (Act.snd_of_wp (h s))

/-- Everything a call can do to the vector and the cursor, with the task it selects. -/
theorem perform_cases (s : Scheduler) (call : SchedulerCall) :
    (KeptOrShrunk s (call.perform s) ∧ call.selected s = none) ∨
      (call.isSpawn = true ∧ Grown s (call.perform s) ∧ call.selected s = none) ∨
      (∃ required found, call = dispatchNext required ∧ s.firstEligible required = some found ∧
        call.selected s = some found.2.id ∧ Chosen s (call.perform s) found.1) ∨
      ∃ id required index, call = dispatch id required ∧ Chosen s (call.perform s) index := by
  cases call with
  | spawn capabilities stack isolation reserves =>
    have h := wp_spawnWithIsolation capabilities stack isolation reserves s
    unfold Act.wp at h
    split at h
    next heq =>
      refine .inr (.inl ⟨rfl, ?_, rfl⟩)
      rw [perform, heq]
      exact h
    next heq =>
      refine .inl ⟨.inl ?_, rfl⟩
      rw [perform, heq]
      exact h
  | dispatchNext required =>
    have h := wp_dispatchNext required s
    unfold Act.wp at h
    split at h
    next r s' heq =>
      obtain ⟨rfl, hkept⟩ | ⟨found, hfound, rfl, hchosen⟩ := h
      · refine .inl ⟨.inl ?_, ?_⟩
        · rwa [perform, heq]
        · rw [selected, heq]
          rfl
      · refine .inr (.inr (.inl ⟨required, found, rfl, hfound, ?_, ?_⟩))
        · rw [selected, heq]
          rfl
        · rwa [perform, heq]
    next heq =>
      refine .inl ⟨.inl ?_, ?_⟩
      · rwa [perform, heq]
      · rw [selected, heq]
        rfl
  | dispatch id required =>
    have h := wp_dispatch id required s
    unfold Act.wp at h
    split at h
    next heq =>
      obtain ⟨index, hchosen⟩ := h
      refine .inr (.inr (.inr ⟨id, required, index, rfl, ?_⟩))
      rwa [perform, heq]
    next heq =>
      refine .inl ⟨.inl ?_, ?_⟩
      · rwa [perform, heq]
      · rw [selected, heq]
        rfl
  | yieldCurrent => exact .inl ⟨keptOrShrunk_of_keeps keeps_yieldCurrent, rfl⟩
  | preemptCurrent => exact .inl ⟨keptOrShrunk_of_keeps keeps_preemptCurrent, rfl⟩
  | blockCurrent => exact .inl ⟨keptOrShrunk_of_keeps keeps_blockCurrent, rfl⟩
  | wakeBlocked => exact .inl ⟨keptOrShrunk_of_keeps keeps_wakeBlocked, rfl⟩
  | resizeCurrentIsolation =>
    exact .inl ⟨keptOrShrunk_of_keeps keeps_resizeCurrentIsolation, rfl⟩
  | resizeReadyIsolation => exact .inl ⟨keptOrShrunk_of_keeps keeps_resizeReadyIsolation, rfl⟩
  | exitCurrent => exact .inl ⟨keptOrShrunk_of_keeps keeps_exitCurrent, rfl⟩
  | cancelReady => exact .inl ⟨keptOrShrunk_of_keeps keeps_cancelReady, rfl⟩
  | cancelBlocked => exact .inl ⟨keptOrShrunk_of_keeps keeps_cancelBlocked, rfl⟩
  | faultCurrent => exact .inl ⟨keptOrShrunk_of_keeps keeps_faultCurrent, rfl⟩
  | faultBlocked => exact .inl ⟨keptOrShrunk_of_keeps keeps_faultBlocked, rfl⟩
  | reap => exact .inl ⟨Act.snd_of_wp (wp_reap s), rfl⟩
  | terminateRevokeAndReap =>
    exact .inl ⟨Act.snd_of_wp (wp_terminateRevokeAndReap s), rfl⟩

/-- Every call keeps the invariant. -/
theorem inv_perform (hinv : s.Inv) (call : SchedulerCall) : (call.perform s).Inv := by
  obtain ⟨hkept | ⟨index, hshrunk⟩, -⟩ | ⟨-, hgrown, -⟩ | ⟨_, _, -, -, -, hchosen⟩ |
    ⟨_, _, _, -, hchosen⟩ := perform_cases s call
  · exact hinv.kept hkept
  · exact hinv.shrunk hshrunk
  · exact hinv.grown hgrown
  · exact hinv.chosen hchosen
  · exact hinv.chosen hchosen

/-- One call brings the cursor closer to a waiting task by the selections it makes. -/
theorem distance_perform (hinv : s.Inv) {call : SchedulerCall} (hfair : call.isFair required = true)
    (hspawn : call.isSpawn = true → s.cursor ≤ s.position task)
    (hwaits : s.waits task required = true) (hother : call.selected s ≠ some task)
    (htask : task ∈ (call.perform s).ids) :
    (call.perform s).distance task + (call.selected s).toList.length ≤ s.distance task := by
  have hmem := mem_ids_of_waits hwaits
  obtain ⟨hkept | ⟨index, hshrunk⟩, hnone⟩ | ⟨hisSpawn, hgrown, hnone⟩ |
    ⟨_, found, rfl, hfound, hselected, hchosen⟩ | ⟨_, _, _, rfl, -⟩ := perform_cases s call
  · rw [hkept.distance, hnone]
    simp
  · rw [hnone]
    simpa using hshrunk.distance hinv hmem htask
  · rw [hgrown.distance hmem (hspawn hisSpawn), hnone]
    simp
  · obtain rfl := of_decide_eq_true hfair
    rw [hselected, Ne, Option.some_inj] at hother
    rw [hselected]
    simpa using hchosen.distance hinv hfound hwaits hother
  · cases hfair

end SchedulerCall

namespace Scheduler

variable {s : Scheduler} {task : TaskId} {required : Capabilities}

/-- The task is ready and holds the capabilities in every state until it is selected. -/
def waitsThrough (task : TaskId) (required : Capabilities) :
    Scheduler → List SchedulerCall → Bool
  | s, [] => s.waits task required
  | s, call :: calls =>
    s.waits task required &&
      (call.selected s = some task || waitsThrough task required (call.perform s) calls)

/-- Until the task is selected, records are only appended while the cursor is not past it. -/
def spawnsBehind (task : TaskId) : Scheduler → List SchedulerCall → Bool
  | _, [] => true
  | s, call :: calls =>
    (!call.isSpawn || decide (s.cursor ≤ s.position task)) &&
      (call.selected s = some task || spawnsBehind task (call.perform s) calls)

/-- The invariant in every state of a run. -/
theorem Reached.inv (h : s.Reached) : s.Inv := by
  obtain ⟨capacity, start, calls, hstart, rfl⟩ := h
  have hinv : start.Inv := by
    unfold new at hstart
    split at hstart
    · cases hstart
    · cases hstart
      exact ⟨.nil, by simp [ids], .inr ⟨rfl, rfl⟩, Nat.zero_le _⟩
  clear hstart
  induction calls generalizing start with
  | nil => exact hinv
  | cons call calls ih => exact ih (call.perform start) (SchedulerCall.inv_perform hinv call)

/-- The selections made while a task waits are paid for by its distance. -/
theorem selections_le (hinv : s.Inv) {calls : List SchedulerCall}
    (hfair : ∀ call ∈ calls, call.isFair required = true)
    (hwaits : waitsThrough task required s calls = true)
    (hspawns : spawnsBehind task s calls = true) (hnot : task ∉ s.selections calls) :
    (s.selections calls).length ≤ s.distance task := by
  induction calls generalizing s with
  | nil => simp [selections]
  | cons call calls ih =>
    rw [waitsThrough, Bool.and_eq_true, Bool.or_eq_true, decide_eq_true_eq] at hwaits
    simp only [spawnsBehind, Bool.and_eq_true, Bool.or_eq_true, decide_eq_true_eq] at hspawns
    rw [selections, List.mem_append, not_or] at hnot
    have hother : call.selected s ≠ some task := by
      intro heq
      exact hnot.1 (by simp [heq])
    have hwaits' := hwaits.2.resolve_left hother
    have hrest := ih (SchedulerCall.inv_perform hinv call)
      (fun call hcall => hfair call (List.mem_cons_of_mem _ hcall)) hwaits'
      (hspawns.2.resolve_left hother) hnot.2
    have htask : task ∈ (call.perform s).ids := by
      cases calls with
      | nil => exact mem_ids_of_waits hwaits'
      | cons next calls =>
        rw [waitsThrough, Bool.and_eq_true] at hwaits'
        exact mem_ids_of_waits hwaits'.1
    have hstep := SchedulerCall.distance_perform hinv (hfair call List.mem_cons_self)
      (fun hspawn => by simpa [hspawn] using hspawns.1) hwaits.1 hother htask
    rw [selections, List.length_append]
    omega

/-- A waiting task is selected within as many selections as there are records at most, if no record
is appended in front of it. -/
theorem selected_within_capacity (hreached : s.Reached) {calls : List SchedulerCall}
    (hfair : ∀ call ∈ calls, call.isFair required = true)
    (hwaits : waitsThrough task required s calls = true)
    (hspawns : spawnsBehind task s calls = true) :
    task ∈ s.selections calls ∨ (s.selections calls).length < s.capacity := by
  by_cases hmem : task ∈ s.selections calls
  · exact .inl hmem
  · have hinv := hreached.inv
    have htask : task ∈ s.ids := by
      cases calls with
      | nil => exact mem_ids_of_waits hwaits
      | cons call calls =>
        rw [waitsThrough, Bool.and_eq_true] at hwaits
        exact mem_ids_of_waits hwaits.1
    have hbound := selections_le hinv hfair hwaits hspawns hmem
    have hdistance := distance_lt htask
    have hsize := hinv.size
    right
    omega

/-- The authority of a service. -/
def service : Capabilities := ⟨8⟩

/-- A service with the given stack slot is spawned. -/
def spawnService (slot : ℕ) : SchedulerCall := .spawn service ⟨slot, 1⟩ none true

/-- A new service is spawned, and the one selected next exits and is reaped. -/
def overtake (slot selected : ℕ) : List SchedulerCall :=
  [spawnService slot, .dispatchNext service, .exitCurrent selected 0, .reap selected]

/-- Two of three records are taken, and task 1 has run once and is ready again. -/
def waitingFirst : Scheduler :=
  after ⟨[], 3, 0, none, 1, 0, 0, 0, 0, 0, 0, 0⟩
    [spawnService 0, spawnService 1, .dispatchNext service, .yieldCurrent 1]

theorem waitingFirst_reached : waitingFirst.Reached :=
  ⟨3, ⟨[], 3, 0, none, 1, 0, 0, 0, 0, 0, 0, 0⟩, _, rfl, rfl⟩

/-- Every new record is put in front of task 1, which stays ready while four others are selected. -/
theorem overtaken_beyond_capacity : ∃ (s : Scheduler) (calls : List SchedulerCall),
    s.Reached ∧ (∀ call ∈ calls, call.isFair service = true) ∧
      waitsThrough 1 service s calls = true ∧ s.selections calls = [2, 3, 4, 5] ∧
      s.capacity = 3 := by
  refine ⟨waitingFirst, overtake 2 2 ++ overtake 1 3 ++ overtake 2 4 ++ overtake 1 5,
    waitingFirst_reached, ?_, ?_, ?_, ?_⟩ <;> decide +kernel

/-- A record that is appended once the cursor has come round is behind task 1, which is selected
next. -/
theorem selected_within_capacity_pair :
    1 ∈ waitingFirst.selections
        [.dispatchNext service, .yieldCurrent 2, spawnService 2, .dispatchNext service] ∨
      (waitingFirst.selections
        [.dispatchNext service, .yieldCurrent 2, spawnService 2, .dispatchNext service]).length
          < 3 := by
  have hfair : ∀ call ∈ [.dispatchNext service, .yieldCurrent 2, spawnService 2,
      .dispatchNext service], call.isFair service = true := by decide +kernel
  exact selected_within_capacity waitingFirst_reached hfair (by decide +kernel) (by decide +kernel)

end Scheduler

end Troe.Task
