import Mathlib.Data.List.Perm.Subperm
import Troe.Lib.LinkedQueue
import Troe.Task.Sync
import Troe.Task.ThreadSpec

/-!
# What the synchronization table means

A `View` is the table without its links: every object has a list of waits, every wait the facts it
was admitted with. `Represents` relates a state to its view. The primitives of the table are
specified here by what they do to the view; everything after this module reasons about views.
-/

namespace Troe.Task

open Lib
open Function (update update_apply update_of_ne update_self)
open Option (filter_some isSome_map map_eq_some_iff map_id' map_map map_some)

/-- A wait without the links of the queue it is on. -/
structure WaitInfo where
  token : SyncWait
  source : ObjectId
  mutex : Option MutexId
  phase : Phase
  options : WaitOptions

/-- What a waiter slot says beside its links. -/
def Waiter.info (w : Waiter) : WaitInfo where
  token := w.token
  source := w.source
  mutex := w.mutex
  phase := w.phase
  options := w.options

/-- The owner of a mutex. -/
def Kind.owner : Kind → Option ThreadId
  | .mutex owner _ _ => owner
  | _ => none

/-- The table without its links. -/
structure View where
  wait : ℕ → Option WaitInfo
  queue : ObjectId → List ℕ
  kind : ObjectId → Option Kind
  thread : ThreadId → Option Record
  owned : ThreadId → ℕ
  history : List SyncEvent
  waitSlots : ℕ
  objectSlots : ℕ
  objectGeneration : ℕ → ℕ
  threadGeneration : ℕ → ℕ

namespace SyncState

variable {s s' s'' : SyncState}

/-- The predecessor a waiter slot records. -/
def previous (s : SyncState) (i : ℕ) : Option ℕ := (s.sync.waiter i).bind Waiter.previous

/-- The successor a waiter slot records. -/
def next (s : SyncState) (i : ℕ) : Option ℕ := (s.sync.waiter i).bind Waiter.next

/-- The object a waiter slot records as its queue. -/
def queuedOn (s : SyncState) (i : ℕ) : Option ObjectId := (s.sync.waiter i).bind Waiter.queuedOn

/-- The links a waiter slot holds. -/
theorem links_eq {i : ℕ} {w : Waiter} (hw : s.sync.waiter i = some w) :
    s.previous i = w.previous ∧ s.next i = w.next ∧ s.queuedOn i = w.queuedOn := by
  simp [previous, next, queuedOn, hw]

/-- The number of mutexes whose owner is the thread. -/
def ownedCount (s : SyncState) (t : ThreadId) : ℕ :=
  s.sync.objects.count fun o => o.kind.owner = some t

/-- The view of a state whose queues spell out the given lists. -/
structure Represents (s : SyncState) (v : View) : Prop where
  wait : ∀ i, v.wait i = (s.sync.waiter i).map Waiter.info
  kind : ∀ id, v.kind id = (s.sync.find id).map Object.kind
  thread : ∀ t, v.thread t = s.threads.find t
  owned : ∀ t, v.owned t = s.ownedCount t
  history : v.history = s.history
  waitSlots : v.waitSlots = s.sync.waits.length
  objectSlots : v.objectSlots = s.sync.objects.length
  objectGeneration : ∀ k, v.objectGeneration k = s.sync.objects.generation k
  threadGeneration : ∀ k, v.threadGeneration k = s.threads.slots.generation k
  slot : ∀ k o, s.sync.objects.value k = some o → o.id.slot = k
  linked : ∀ id o, s.sync.find id = some o →
    Linked s.previous s.next o.queue.head o.queue.tail (v.queue id)
  dead : ∀ id, s.sync.find id = none → v.queue id = []
  member : ∀ id i, i ∈ v.queue id ↔ s.queuedOn i = some id

variable {v : View} {i : ℕ} {id : ObjectId}

namespace Represents

variable (h : Represents s v)
include h

theorem waiter_eq {w : WaitInfo} (hw : v.wait i = some w) :
    ∃ w0, s.sync.waiter i = some w0 ∧ w0.info = w := by
  rw [h.wait, map_eq_some_iff] at hw
  exact hw

theorem find_eq {k : Kind} (hk : v.kind id = some k) :
    ∃ o, s.sync.find id = some o ∧ o.kind = k := by
  rw [h.kind, map_eq_some_iff] at hk
  exact hk

theorem lt_waitSlots {w : WaitInfo} (hw : v.wait i = some w) : i < v.waitSlots := by
  obtain ⟨w0, hw0, -⟩ := h.waiter_eq hw
  rw [h.waitSlots]
  exact lt_length_of_slotAt hw0

/-- An object is found under its own identity. -/
theorem find_of_slot {k : ℕ} {o : Object} (hvalue : s.sync.objects.value k = some o) :
    s.sync.find o.id = some o := by
  rw [SyncTable.find, h.slot k o hvalue, hvalue]
  simp

section

variable (hi : i ∈ v.queue id)
include hi

theorem waiter_of_mem : ∃ w0, s.sync.waiter i = some w0 := by
  obtain ⟨w0, hw0, -⟩ := Option.bind_eq_some_iff.mp ((h.member id i).mp hi)
  exact ⟨w0, hw0⟩

theorem wait_of_mem : ∃ w, v.wait i = some w := by
  obtain ⟨w0, hw0⟩ := h.waiter_of_mem hi
  exact ⟨w0.info, by rw [h.wait, hw0]; rfl⟩

theorem kind_of_mem : ∃ k, v.kind id = some k := by
  cases hfind : s.sync.find id with
  | none =>
    rw [h.dead id hfind] at hi
    cases hi
  | some o => exact ⟨o.kind, by rw [h.kind, hfind]; rfl⟩

/-- A wait is on one queue at most. -/
theorem eq_of_mem {id' : ObjectId} (hi' : i ∈ v.queue id') : id = id' :=
  Option.some.inj (((h.member id i).mp hi).symm.trans ((h.member id' i).mp hi'))

end

theorem queue_nodup (id : ObjectId) : (v.queue id).Nodup := by
  cases hfind : s.sync.find id with
  | none =>
    rw [h.dead id hfind]
    exact List.nodup_nil
  | some o => exact (h.linked id o hfind).nodup

/-- A queue fits into the wait slab. -/
theorem queue_length_le (id : ObjectId) : (v.queue id).length ≤ v.waitSlots := by
  have hsub : v.queue id ⊆ List.range v.waitSlots := by
    intro i hi
    obtain ⟨w, hw⟩ := h.wait_of_mem hi
    exact List.mem_range.mpr (h.lt_waitSlots hw)
  have := ((h.queue_nodup id).subperm hsub).length_le
  rwa [List.length_range] at this

/-- A counted mutex is one of the objects. -/
theorem exists_owner {t : ThreadId} (ht : 0 < v.owned t) :
    ∃ id k, v.kind id = some k ∧ k.owner = some t := by
  rw [h.owned] at ht
  obtain ⟨k, o, hvalue, howner⟩ := GenSlab.count_pos ht
  refine ⟨o.id, o.kind, ?_, of_decide_eq_true howner⟩
  rw [h.kind, h.find_of_slot hvalue, map_some]

end Represents

/-! ## Single writes -/

/-- Write a wait slot. -/
def setWaiter (s : SyncState) (i : ℕ) (w : Option Waiter) : SyncState :=
  { s with sync := { s.sync with waits := s.sync.waits.set i w } }

/-- Write an object slot. -/
def setObject (s : SyncState) (k : ℕ) (o : Option Object) : SyncState :=
  { s with sync := { s.sync with objects := s.sync.objects.put k o } }

theorem waiter_setWaiter (hi : i < s.sync.waits.length) (w : Option Waiter) (j : ℕ) :
    (s.setWaiter i w).sync.waiter j = if j = i then w else s.sync.waiter j :=
  slotAt_set hi w j

theorem find_eq_some {o : Object} (h : s.sync.find id = some o) :
    s.sync.objects.value id.slot = some o ∧ o.id = id := by
  rw [SyncTable.find, Option.filter_eq_some_iff] at h
  exact ⟨h.1, of_decide_eq_true h.2⟩

/-- What the lookup finds after the slot of an object was written. -/
theorem find_of_value {sync : SyncTable} {new : Option Object}
    (hvalue : ∀ n, sync.objects.value n = if n = id.slot then new else s.sync.objects.value n)
    (hnew : ∀ o, new = some o → o.id = id)
    (hold : ∀ o, s.sync.objects.value id.slot = some o → o.id = id) (id' : ObjectId) :
    sync.find id' = if id' = id then new else s.sync.find id' := by
  rw [SyncTable.find, hvalue]
  by_cases heq : id' = id
  · rw [if_pos heq, heq, if_pos rfl]
    cases new with
    | none => rfl
    | some o => rw [filter_some, if_pos (decide_eq_true (hnew o rfl))]
  · rw [if_neg heq]
    by_cases hslot : id'.slot = id.slot
    · -- the slot holds another generation, before and after
      have hnone {x : Option Object} (hx : ∀ o, x = some o → o.id = id) :
          x.filter (·.id = id') = none :=
        Option.filter_eq_none_iff.mpr fun o ho heq' => heq (of_decide_eq_true heq' ▸ hx o ho)
      rw [if_pos hslot, SyncTable.find, hslot, hnone hnew, hnone hold]
    · rw [if_neg hslot]
      rfl

theorem find_setObject {o o' : Object} (h : s.sync.find id = some o) (ho' : o'.id = id)
    (id' : ObjectId) : (s.setObject id.slot (some o')).sync.find id'
      = if id' = id then some o' else s.sync.find id' := by
  obtain ⟨hvalue, hid⟩ := find_eq_some h
  refine find_of_value (GenSlab.value_put (GenSlab.lt_length_of_value hvalue) _)
    (fun o ho => Option.some.inj ho ▸ ho') (fun o ho => ?_) id'
  rw [hvalue] at ho
  exact Option.some.inj ho ▸ hid

section

variable {Q : Unit → SyncState → Prop} {R : SyncError → SyncState → Prop}

theorem wp_waiter {Q : Waiter → SyncState → Prop} {w : Waiter} (hw : s.sync.waiter i = some w) :
    (waiter i).wp Q R s ↔ Q w s := by
  simp [waiter, hw]

variable {f : Waiter → Waiter}

theorem wp_updateWaiter {w : Waiter} (hw : s.sync.waiter i = some w) :
    (updateWaiter i f).wp Q R s ↔ Q () (s.setWaiter i (some (f w))) := by
  rw [updateWaiter, Act.wp_bind, wp_waiter hw]
  rfl

theorem wp_updateObject {o : Object} {f : Object → Object} (ho : s.sync.find id = some o) :
    (updateObject id f).wp Q R s ↔ Q () (s.setObject id.slot (some (f o))) := by
  simp [updateObject, ho, setObject]

/-! ## Writes to links

`Relinks` collects writes that touch links only, so that the writes of `push` and `unlink` compose
to one function on waiters and one on objects. -/

/-- The state after link writes: `f` on waiters and `g` on objects. -/
structure Relinks (s s' : SyncState) (f : ℕ → Waiter → Waiter) (g : ObjectId → Object → Object) :
    Prop where
  waiter : ∀ i, s'.sync.waiter i = (s.sync.waiter i).map (f i)
  find : ∀ id, s'.sync.find id = (s.sync.find id).map (g id)
  info : ∀ i w, (f i w).info = w.info
  kind : ∀ id o, (g id o).kind = o.kind
  value : ∀ k, (s'.sync.objects.value k).map (fun o => (o.id, o.kind))
    = (s.sync.objects.value k).map fun o => (o.id, o.kind)
  threads : s'.threads = s.threads
  history : s'.history = s.history
  waits : s'.sync.waits.length = s.sync.waits.length
  objects : s'.sync.objects.length = s.sync.objects.length
  generation : ∀ k, s'.sync.objects.generation k = s.sync.objects.generation k

namespace Relinks

variable {f f' : ℕ → Waiter → Waiter} {g g' : ObjectId → Object → Object}

variable (h : Relinks s s' f g)
include h

theorem trans (h' : Relinks s' s'' f' g') :
    Relinks s s'' (fun i w => f' i (f i w)) (fun id o => g' id (g id o)) where
  waiter i := by rw [h'.waiter, h.waiter, map_map]; rfl
  find id := by rw [h'.find, h.find, map_map]; rfl
  info i w := (h'.info i _).trans (h.info i w)
  kind id o := (h'.kind id _).trans (h.kind id o)
  value k := (h'.value k).trans (h.value k)
  threads := h'.threads.trans h.threads
  history := h'.history.trans h.history
  waits := h'.waits.trans h.waits
  objects := h'.objects.trans h.objects
  generation k := (h'.generation k).trans (h.generation k)

theorem isSome_waiter (i : ℕ) : (s'.sync.waiter i).isSome = (s.sync.waiter i).isSome := by
  rw [h.waiter, isSome_map]

theorem isSome_find (id : ObjectId) : (s'.sync.find id).isSome = (s.sync.find id).isSome := by
  rw [h.find, isSome_map]

theorem links {w : Waiter} (hw : s.sync.waiter i = some w) :
    s'.previous i = (f i w).previous ∧ s'.next i = (f i w).next ∧
      s'.queuedOn i = (f i w).queuedOn :=
  links_eq (by rw [h.waiter, hw, map_some])

theorem queuedOn_eq (hf : ∀ w, (f i w).queuedOn = w.queuedOn) : s'.queuedOn i = s.queuedOn i := by
  rw [queuedOn, h.waiter, queuedOn]
  cases s.sync.waiter i with
  | none => rfl
  | some w => exact hf w

end Relinks

/-- One link write of a waiter. -/
theorem wp_relinkWaiter (hi : (s.sync.waiter i).isSome) (hf : ∀ w, (f w).info = w.info)
    (hQ : ∀ s', Relinks s s' (fun j w => if j = i then f w else w) (fun _ o => o) → Q () s') :
    (updateWaiter i f).wp Q R s := by
  obtain ⟨w, hw⟩ := Option.isSome_iff_exists.mp hi
  rw [wp_updateWaiter hw]
  apply hQ
  refine ⟨fun j => ?_, fun id => ?_, fun j w' => ?_, fun _ _ => rfl, fun _ => rfl, rfl, rfl, ?_, rfl,
    fun _ => rfl⟩
  · rw [waiter_setWaiter (lt_length_of_slotAt hw)]
    by_cases hj : j = i
    · simp [hj, hw]
    · simp [hj]
  · rw [map_id']
    rfl
  · by_cases hj : j = i
    · rw [if_pos hj, hf]
    · rw [if_neg hj]
  · simp [setWaiter]

/-- One link write of an object. -/
theorem wp_relinkObject {g : Object → Object} (hid : (s.sync.find id).isSome)
    (hg : ∀ o, (g o).id = o.id ∧ (g o).kind = o.kind)
    (hQ : ∀ s', Relinks s s' (fun _ w => w) (fun id' o => if id' = id then g o else o) → Q () s') :
    (updateObject id g).wp Q R s := by
  obtain ⟨o, ho⟩ := Option.isSome_iff_exists.mp hid
  obtain ⟨hvalue, hoid⟩ := find_eq_some ho
  rw [wp_updateObject ho]
  apply hQ
  refine ⟨fun j => ?_, fun id' => ?_, fun _ _ => rfl, fun id' o' => ?_, fun k => ?_, rfl, rfl, rfl,
    GenSlab.length_put _, fun _ => GenSlab.generation_put _ _⟩
  · rw [map_id']
    rfl
  · rw [find_setObject ho ((hg o).1.trans hoid)]
    by_cases hid' : id' = id
    · simp [hid', ho]
    · simp [hid']
  · by_cases hid' : id' = id
    · rw [if_pos hid', (hg o').2]
    · rw [if_neg hid']
  · show ((s.sync.objects.put id.slot (some (g o))).value k).map _ = _
    rw [GenSlab.value_put (GenSlab.lt_length_of_value hvalue)]
    by_cases hk : k = id.slot
    · simp [hk, hvalue, hg o]
    · simp [hk]

/-- Link writes that spell out a new list for one queue. -/
theorem Represents.relink {f : ℕ → Waiter → Waiter} {g : ObjectId → Object → Object}
    (h : Represents s v) (hr : Relinks s s' f g) {o : Object} (ho : s.sync.find id = some o)
    {q : List ℕ} (hlinked : Linked s'.previous s'.next (g id o).queue.head (g id o).queue.tail q)
    (hothers : ∀ id' ≠ id, (∀ o, (g id' o).queue = o.queue) ∧
      ∀ j ∈ v.queue id', s'.previous j = s.previous j ∧ s'.next j = s.next j)
    (hmember : ∀ id' j, j ∈ update v.queue id q id' ↔ s'.queuedOn j = some id') :
    Represents s' { v with queue := update v.queue id q } where
  wait i := by
    rw [h.wait, hr.waiter, map_map]
    congr 1
    funext w
    exact (hr.info i w).symm
  kind id := by
    rw [h.kind, hr.find, map_map]
    congr 1
    funext o
    exact (hr.kind id o).symm
  thread t := by rw [h.thread, hr.threads]
  owned t := by
    rw [h.owned]
    refine (GenSlab.count_congr hr.objects fun k => ?_).symm
    have hvalue := hr.value k
    cases hs : s.sync.objects.value k <;> cases hs' : s'.sync.objects.value k <;> simp_all
  history := by rw [h.history, hr.history]
  waitSlots := by rw [h.waitSlots, hr.waits]
  objectSlots := by rw [h.objectSlots, hr.objects]
  objectGeneration k := by rw [h.objectGeneration, hr.generation]
  threadGeneration k := by rw [h.threadGeneration, hr.threads]
  slot k o hvalue' := by
    have hvalue := hr.value k
    cases hs : s.sync.objects.value k with
    | none => simp_all
    | some o0 =>
      rw [hs, hvalue', map_some, map_some, Option.some.injEq, Prod.mk.injEq] at hvalue
      rw [hvalue.1]
      exact h.slot k o0 hs
  linked id' o' ho' := by
    rw [hr.find, map_eq_some_iff] at ho'
    obtain ⟨o', ho', rfl⟩ := ho'
    show Linked _ _ _ _ (update v.queue id q id')
    by_cases heq : id' = id
    · subst heq
      rw [update_self, Option.mem_unique ho' ho]
      exact hlinked
    · obtain ⟨hqueue, hlinks⟩ := hothers id' heq
      rw [update_of_ne heq, hqueue]
      exact (h.linked id' o' ho').congr hlinks
  dead id' hnone := by
    rw [hr.find, Option.map_eq_none_iff] at hnone
    have heq : id' ≠ id := fun heq => by simp [heq, ho] at hnone
    exact (update_of_ne heq _ _).trans (h.dead id' hnone)
  member := hmember

end

end SyncState

/-! ## Primitives

What `push`, `unlink`, `pop`, `set_owner` and `complete_wait` do to the view of a state. -/

open Option (any_some)

namespace View

/-- A wait joins a queue at the end. -/
def push (v : View) (id : ObjectId) (i : ℕ) (token : SyncWait) : View :=
  { v with
    queue := update v.queue id (v.queue id ++ [i])
    history := v.history ++ [.queued id token] }

/-- A wait leaves a queue. -/
def leave (v : View) (id : ObjectId) (i : ℕ) : View :=
  { v with queue := update v.queue id ((v.queue id).erase i) }

/-- Replace what a wait slot holds. -/
def setWait (v : View) (i : ℕ) (w : Option WaitInfo) : View :=
  { v with wait := update v.wait i w }

/-- Replace a thread's record. -/
def setThread (v : View) (t : ThreadId) (r : Record) : View :=
  { v with thread := update v.thread t (some r) }

/-- Replace an object's kind by one with the same owner. -/
def setKind (v : View) (id : ObjectId) (k : Kind) : View :=
  { v with kind := update v.kind id (some k) }

/-- Append to the history. -/
def emit (v : View) (e : SyncEvent) : View := { v with history := v.history ++ [e] }

/-- A mutex changes hands: its kind, and the counter of the thread that gets or gives it. -/
def reown (v : View) (id : ObjectId) (k : Kind) (t : ThreadId) (r : Record) (f : ℕ → ℕ) : View :=
  { v with
    kind := update v.kind id (some k)
    thread := update v.thread t (some { r with ownedMutexes := f r.ownedMutexes })
    owned := update v.owned t (f (v.owned t)) }

/-- A wait completes and its thread becomes ready. -/
def complete (v : View) (i : ℕ) (w : WaitInfo) (r : Record) (outcome : SyncOutcome) : View :=
  (v.setWait i (some { w with phase := .complete outcome })).setThread w.token.thread
    { r with snapshot := { r.snapshot with state := .ready } }

end View

namespace SyncState

variable {s s' : SyncState} {v : View} {i : ℕ} {id : ObjectId}

/-! ## The view under single writes -/

namespace Represents

theorem emit (h : Represents s v) (e : SyncEvent) :
    Represents { s with history := s.history ++ [e] } (v.emit e) :=
  { h with history := by rw [View.emit, h.history] }

variable {threads : ThreadTable} {owned : ThreadId → ℕ}

variable (h : Represents s v)
include h

/-- Another thread table with the same generations. -/
theorem setThreads {thread : ThreadId → Option Record} (hfind : ∀ t, threads.find t = thread t)
    (hgeneration : threads.slots.generation = s.threads.slots.generation) :
    Represents { s with threads } { v with thread } :=
  { h with
    thread := fun t => (hfind t).symm
    threadGeneration := fun k => by rw [h.threadGeneration, hgeneration] }

theorem setThread {t : ThreadId} {r : Record}
    (hfind : ∀ t', threads.find t' = if t' = t then some r else s.threads.find t')
    (hgeneration : threads.slots.generation = s.threads.slots.generation) :
    Represents { s with threads } (v.setThread t r) := by
  refine h.setThreads (fun t' => ?_) hgeneration
  rw [hfind, update_apply, h.thread]

/-- A waiter on no queue has no mark of one. -/
theorem queuedOn_eq_none (hout : ∀ id, i ∉ v.queue id) : s.queuedOn i = none := by
  rw [Option.eq_none_iff_forall_ne_some]
  intro id hid
  exact hout id ((h.member id i).mpr hid)

/-- A write to a wait slot that is on no queue, before and after. -/
theorem setWaiter (hi : i < s.sync.waits.length) (hout : ∀ id, i ∉ v.queue id) {w : Option Waiter}
    (hw : w.bind Waiter.queuedOn = none) :
    Represents (s.setWaiter i w) (v.setWait i (w.map Waiter.info)) := by
  have hne : ∀ id j, j ∈ v.queue id → j ≠ i := fun id j hj heq => hout id (heq ▸ hj)
  exact
    { h with
      wait := fun j => by
        show update v.wait i _ j = _
        rw [update_apply, waiter_setWaiter hi]
        by_cases hj : j = i
        · rw [if_pos hj, if_pos hj]
        · rw [if_neg hj, if_neg hj, h.wait]
      waitSlots := by
        rw [SyncState.setWaiter, List.length_set]
        exact h.waitSlots
      linked := fun id o ho => by
        refine (h.linked id o ho).congr fun j hj => ?_
        rw [previous, next, waiter_setWaiter hi, if_neg (hne id j hj)]
        exact ⟨rfl, rfl⟩
      member := fun id j => by
        show j ∈ v.queue id ↔ _
        rw [queuedOn, waiter_setWaiter hi, h.member]
        by_cases hj : j = i
        · rw [if_pos hj, hw, hj, h.queuedOn_eq_none hout]
        · rw [if_neg hj]
          rfl }

/-- The slot of an object is written: the object comes, goes or changes. -/
theorem replace {objects : GenSlab Object} {new : Option Object} {history history' : List SyncEvent}
    {objectGeneration : ℕ → ℕ}
    (hvalue : ∀ n, objects.value n = if n = id.slot then new else s.sync.objects.value n)
    (hlength : objects.length = s.sync.objects.length) (hhistory : history' = history)
    (hgeneration : ∀ n, objectGeneration n = objects.generation n)
    (hnew : ∀ o, new = some o → o.id = id)
    (hold : ∀ o, s.sync.objects.value id.slot = some o → o.id = id)
    (howned : ∀ t, owned t = objects.count fun o => o.kind.owner = some t)
    (hlinked : ∀ o, new = some o → Linked s.previous s.next o.queue.head o.queue.tail (v.queue id))
    (hdead : new = none → v.queue id = []) :
    Represents { s with sync := { s.sync with objects }, history }
      { v with
        kind := update v.kind id (new.map Object.kind)
        owned
        history := history'
        objectGeneration } := by
  have hfind : ∀ id', SyncTable.find { s.sync with objects } id'
      = if id' = id then new else s.sync.find id' := find_of_value hvalue hnew hold
  exact
    { h with
      kind := fun id' => by
        show update v.kind id _ id' = _
        rw [hfind, update_apply, h.kind]
        split <;> rfl
      owned := howned
      history := hhistory
      objectSlots := h.objectSlots.trans hlength.symm
      objectGeneration := hgeneration
      slot := fun n o hn => by
        rw [hvalue] at hn
        split at hn
        next heq => rw [heq, hnew o hn]
        · exact h.slot n o hn
      linked := fun id' o ho => by
        rw [hfind] at ho
        split at ho
        next heq => exact heq ▸ hlinked o ho
        · exact h.linked id' o ho
      dead := fun id' hnone => by
        rw [hfind] at hnone
        split at hnone
        next heq => exact heq ▸ hdead hnone
        · exact h.dead id' hnone }

/-- A write to the kind of an object. -/
theorem setObject {o : Object} {k : Kind} (ho : s.sync.find id = some o)
    (howned : ∀ t, owned t + (if o.kind.owner = some t then 1 else 0)
      = v.owned t + if k.owner = some t then 1 else 0) :
    Represents (s.setObject id.slot (some { o with kind := k }))
      { v with kind := update v.kind id (some k), owned } := by
  obtain ⟨hvalue, hid⟩ := find_eq_some ho
  have hlt := GenSlab.lt_length_of_value hvalue
  refine h.replace (GenSlab.value_put hlt _) (GenSlab.length_put _) h.history
    (fun n => (h.objectGeneration n).trans (GenSlab.generation_put _ _).symm)
    (fun o' ho' => Option.some.inj ho' ▸ hid)
    (fun o' ho' => Option.mem_unique hvalue ho' ▸ hid) (fun t => ?_)
    (fun o' ho' => Option.some.inj ho' ▸ h.linked id o ho) fun hnone => by cases hnone
  have hcount := GenSlab.count_put hlt (some { o with kind := k })
    fun o => decide (o.kind.owner = some t)
  rw [hvalue] at hcount
  simp only [any_some, decide_eq_true_eq] at hcount
  have hsum := howned t
  have hv := h.owned t
  simp only [ownedCount] at hv
  omega

end Represents

section

variable {Q : Unit → SyncState → Prop} {R : SyncError → SyncState → Prop} {w : WaitInfo} {k : Kind}
  {t : ThreadId} {r : Record} {f : Object → Object} {poisoned : Bool} {policy : OwnerDeath}
  {mutex : MutexId}

/-- An operation of the thread table, with its errors wrapped. -/
theorem wp_onThreads {α : Type} {x : ThreadAct α} {Q : α → SyncState → Prop} :
    (onThreads x).wp Q R s ↔ x.wp (fun a threads => Q a { s with threads })
        (fun e threads => R (.thread e) { s with threads }) s.threads := by
  simp only [onThreads, Act.wp]
  rcases x s.threads with ⟨e | a, threads⟩
  · rfl
  · rfl

/-! ## Queues -/

/-- A link write to a neighbour, or to the queue where there is none. -/
theorem wp_relinkNeighbour {neighbour : Option ℕ} {f : Waiter → Waiter} {g : Object → Object}
    (hid : (s.sync.find id).isSome)
    (hneighbour : ∀ j, neighbour = some j → (s.sync.waiter j).isSome)
    (hf : ∀ w, (f w).info = w.info) (hg : ∀ o, (g o).id = o.id ∧ (g o).kind = o.kind)
    (hQ : ∀ s', Relinks s s' (fun j w => if neighbour = some j then f w else w)
      (fun id' o => if id' = id ∧ neighbour = none then g o else o) → Q () s') :
    (neighbour.elim (updateObject id g) (updateWaiter · f)).wp Q R s := by
  cases neighbour with
  | some j =>
    refine wp_relinkWaiter (hneighbour j rfl) hf fun s' h => hQ s' ?_
    simpa [eq_comm] using h
  | none =>
    refine wp_relinkObject hid hg fun s' h => hQ s' ?_
    simpa using h

theorem linkTail_eq {tail : Option ℕ} : linkTail id tail i =
    tail.elim (updateObject id fun o => { o with queue := { o.queue with head := some i } })
      (updateWaiter · fun w => { w with next := some i }) := by
  cases tail <;> rfl

theorem unlink_eq (w : Waiter) :
    unlinkPrevious id w = w.previous.elim
        (updateObject id fun o => { o with queue := { o.queue with head := w.next } })
        (updateWaiter · fun x => { x with next := w.next }) ∧
      unlinkNext id w = w.next.elim
        (updateObject id fun o => { o with queue := { o.queue with tail := w.previous } })
        (updateWaiter · fun x => { x with previous := w.previous }) := by
  rw [unlinkPrevious, unlinkNext]
  constructor
  · cases w.previous <;> rfl
  · cases w.next <;> rfl

/-- `push` appends a wait that is on no queue. -/
theorem Represents.wp_push (h : Represents s v)
    (hw : v.wait i = some w) (hout : ∀ id, i ∉ v.queue id) (hk : v.kind id = some k)
    (hQ : ∀ s', Represents s' (v.push id i w.token) → Q () s') : (push id i).wp Q R s := by
  obtain ⟨w0, hw0, rfl⟩ := h.waiter_eq hw
  obtain ⟨o, ho, -⟩ := h.find_eq hk
  have hlinked := h.linked id o ho
  have hnone : w0.queuedOn = none := by simpa [queuedOn, hw0] using h.queuedOn_eq_none hout
  have htail : ∀ t, o.queue.tail = some t → t ∈ v.queue id := by
    intro t ht
    rw [ht] at hlinked
    exact hlinked.tail_mem
  have hne : ∀ id j, j ∈ v.queue id → j ≠ i := fun id j hj heq => hout id (heq ▸ hj)
  unfold push
  simp only [wp_known, wp_waiter hw0, hnone, Option.isSome_none, Bool.false_eq_true,
    not_false_eq_true, true_and, forall_const, ho, linkTail_eq]
  refine wp_relinkNeighbour (Option.isSome_of_mem ho)
    (fun t ht => Option.isSome_iff_exists.mpr (h.waiter_of_mem (htail t ht)))
    (fun _ => rfl) (fun _ => ⟨rfl, rfl⟩) fun s1 h1 => ?_
  refine wp_relinkObject (by simp [h1.isSome_find, ho]) (fun o => ⟨rfl, rfl⟩) fun s2 h2 => ?_
  refine wp_relinkWaiter (by simp [h2.isSome_waiter, h1.isSome_waiter, hw0]) (fun w => rfl)
    fun s3 h3 => ?_
  apply hQ
  have hr := (h1.trans h2).trans h3
  -- the links of this queue, those of the others, and who is queued where
  refine (h.relink hr ho ?_ (fun id' heq => ⟨fun o => by simp [heq], fun j hj => ?_⟩)
    fun id' j => ?_).emit (.queued id w0.token)
  · have hpush : Linked s3.previous s3.next
        (if o.queue.tail = none then some i else o.queue.head) (some i) (v.queue id ++ [i]) := by
      refine hlinked.push (hout id) (fun j hj => ?_) ?_ (fun j hj => ?_) ?_ rfl
      · obtain ⟨wj, hwj⟩ := h.waiter_of_mem hj
        rw [(hr.links hwj).1, (links_eq hwj).1, if_neg (hne id j hj)]
        split <;> rfl
      · rw [(hr.links hw0).1]
        simp
      · obtain ⟨wj, hwj⟩ := h.waiter_of_mem hj
        rw [(hr.links hwj).2.1, (links_eq hwj).2.1, if_neg (hne id j hj)]
        split <;> rfl
      · rw [(hr.links hw0).2.1]
        simp
    convert hpush using 1
    · by_cases ht : o.queue.tail = none <;> simp [ht]
    · simp
  · obtain ⟨wj, hwj⟩ := h.waiter_of_mem hj
    have hj' : o.queue.tail ≠ some j := fun ht => heq (h.eq_of_mem hj (htail j ht))
    obtain ⟨hp, hn, -⟩ := hr.links hwj
    obtain ⟨hp', hn', -⟩ := links_eq hwj
    simp [hp, hn, hp', hn', hne id' j hj, hj']
  · rw [update_apply]
    by_cases hj : j = i
    · subst hj
      rw [(hr.links hw0).2.2]
      by_cases heq : id' = id
      · simp [heq]
      · simp [heq, hout, Ne.symm heq]
    · rw [hr.queuedOn_eq (i := j) fun w => by simp only [if_neg hj]; split <;> rfl, ← h.member]
      by_cases heq : id' = id
      · simp [heq, hj]
      · simp [heq]

variable (h : Represents s v)
include h

/-- `unlink` takes a wait off its queue. -/
theorem Represents.wp_unlink (hi : i ∈ v.queue id)
    (hQ : ∀ s', Represents s' (v.leave id i) → Q () s') : (unlink id i).wp Q R s := by
  obtain ⟨w0, hw0, hqueued⟩ := Option.bind_eq_some_iff.mp ((h.member id i).mp hi)
  obtain ⟨k, hk⟩ := h.kind_of_mem hi
  obtain ⟨o, ho, -⟩ := h.find_eq hk
  have hlinked := h.linked id o ho
  obtain ⟨hprevious, hnext, -⟩ := links_eq hw0
  -- the neighbours are members of the same queue
  obtain ⟨l, r, hsplit, -, -, hpl, hnr⟩ := hlinked.split hi
  have hp : ∀ p, w0.previous = some p → p ∈ v.queue id := by
    intro p hp
    have hmem : p ∈ l := List.mem_of_getLast? (by rw [← hpl, hprevious, hp])
    simp [hsplit, hmem]
  have hn : ∀ n, w0.next = some n → n ∈ v.queue id := by
    intro n hn
    have hmem : n ∈ r := List.mem_of_head? (by rw [← hnr, hnext, hn])
    simp [hsplit, hmem]
  have hkeep : ∀ j ∈ v.queue id, (s.sync.waiter j).isSome := fun j hj =>
    Option.isSome_iff_exists.mpr (h.waiter_of_mem hj)
  unfold unlink
  simp only [wp_rules, wp_waiter hw0, hqueued, ne_eq, not_true_eq_false, not_false_eq_true,
    false_imp_iff, true_and, forall_const, unlink_eq]
  refine wp_relinkNeighbour (Option.isSome_of_mem ho) (fun p hp' => hkeep p (hp p hp'))
    (fun _ => rfl) (fun _ => ⟨rfl, rfl⟩) fun s1 h1 => ?_
  refine wp_relinkNeighbour (by simp [h1.isSome_find, ho])
    (fun n hn' => by simpa [h1.isSome_waiter] using hkeep n (hn n hn'))
    (fun _ => rfl) (fun _ => ⟨rfl, rfl⟩) fun s2 h2 => ?_
  refine wp_relinkWaiter (by simp [h2.isSome_waiter, h1.isSome_waiter, hw0]) (fun w => rfl)
    fun s3 h3 => hQ s3 ?_
  have hr := (h1.trans h2).trans h3
  refine h.relink hr ho ?_ (fun id' heq => ⟨fun o => by simp [heq], fun j hj => ?_⟩) fun id' j => ?_
  · refine hlinked.unlink hi (fun j hj hji => ?_) (fun j hj hji => ?_) ?_ ?_
    · obtain ⟨wj, hwj⟩ := h.waiter_of_mem hj
      rw [(hr.links hwj).1, (links_eq hwj).1, hnext, hprevious, if_neg hji]
      split <;> split <;> rfl
    · obtain ⟨wj, hwj⟩ := h.waiter_of_mem hj
      rw [(hr.links hwj).2.1, (links_eq hwj).2.1, hnext, hprevious, if_neg hji]
      split <;> split <;> rfl
    · rw [hprevious, hnext]
      by_cases hp0 : w0.previous = none <;> by_cases hn0 : w0.next = none <;> simp [hp0, hn0]
    · rw [hprevious, hnext]
      by_cases hp0 : w0.previous = none <;> by_cases hn0 : w0.next = none <;> simp [hp0, hn0]
  · obtain ⟨wj, hwj⟩ := h.waiter_of_mem hj
    have hpj : w0.previous ≠ some j := fun hp' => heq (h.eq_of_mem hj (hp j hp'))
    have hnj : w0.next ≠ some j := fun hn' => heq (h.eq_of_mem hj (hn j hn'))
    have hji : j ≠ i := fun hji => heq (h.eq_of_mem hj (hji ▸ hi))
    obtain ⟨hp', hn', -⟩ := hr.links hwj
    obtain ⟨hp₀, hn₀, -⟩ := links_eq hwj
    simp [hp', hn', hp₀, hn₀, hpj, hnj, hji]
  · have hmem : j ∈ update v.queue id ((v.queue id).erase i) id' ↔ j ∈ v.queue id' ∧ j ≠ i := by
      by_cases heq : id' = id
      · rw [heq, update_self, (h.queue_nodup id).mem_erase_iff, and_comm]
      · rw [update_of_ne heq]
        refine ⟨fun hj => ⟨hj, fun hji => heq (h.eq_of_mem hj (hji ▸ hi))⟩, fun hj => hj.1⟩
    rw [hmem]
    by_cases hj : j = i
    · subst hj
      simp [(hr.links hw0).2.2]
    · rw [hr.queuedOn_eq (i := j) fun w => by simp only [if_neg hj]; split <;> split <;> rfl,
        ← h.member]
      simp [hj]

/-- `pop` takes the first wait off a queue, if there is one. -/
theorem Represents.wp_pop {Q : Option ℕ → SyncState → Prop} (hk : v.kind id = some k)
    (hempty : v.queue id = [] → Q none s)
    (hQ : ∀ i q s', v.queue id = i :: q → Represents s' (v.leave id i) → Q (some i) s') :
    (pop id).wp Q R s := by
  obtain ⟨o, ho, -⟩ := h.find_eq hk
  have hlinked := h.linked id o ho
  unfold pop
  simp only [wp_known, ho]
  cases hhead : o.queue.head with
  | none =>
    rw [hhead] at hlinked
    exact hempty hlinked.eq_nil_of_head
  | some i =>
    rw [hhead] at hlinked
    obtain ⟨q, hq⟩ := hlinked.eq_cons_of_head
    simp only [wp_rules]
    exact h.wp_unlink (by simp [hq]) fun s' h' => hQ i q s' hq h'

/-! ## Ownership and completion -/

/-- A write to the record of a thread. -/
theorem Represents.wp_updateRecord {f : Record → Record} (hr : v.thread t = some r)
    (hf : (f r).snapshot.id = r.snapshot.id)
    (hQ : ∀ s', Represents s' (v.setThread t (f r)) → Q () s') :
    (onThreads (ThreadTable.updateRecord t.process t f)).wp Q R s := by
  rw [wp_onThreads]
  rw [h.thread] at hr
  refine ThreadTable.wp_updateRecord hr hf fun threads hfind hgeneration => ?_
  exact hQ _ (h.setThread hfind hgeneration)

/-- A write to the kind of an object. -/
theorem Represents.wp_updateKind {k' : Kind} (hk : v.kind id = some k)
    (hf : ∀ o, o.kind = k → f o = { o with kind := k' }) (owned : ThreadId → ℕ)
    (howned : ∀ t, owned t + (if k.owner = some t then 1 else 0)
      = v.owned t + if k'.owner = some t then 1 else 0)
    (hQ : ∀ s', Represents s' { v with kind := update v.kind id (some k'), owned } → Q () s') :
    (updateObject id f).wp Q R s := by
  obtain ⟨o, ho, rfl⟩ := h.find_eq hk
  rw [wp_updateObject ho, hf o rfl]
  exact hQ _ (h.setObject ho howned)

/-- A write to the kind of an object that leaves its owner alone. -/
theorem Represents.wp_setKind (k' : Kind) (hk : v.kind id = some k)
    (hf : ∀ o, o.kind = k → f o = { o with kind := k' }) (howner : k'.owner = k.owner)
    (hQ : ∀ s', Represents s' (v.setKind id k') → Q () s') : (updateObject id f).wp Q R s :=
  h.wp_updateKind hk hf v.owned (fun t => by rw [howner]) hQ

/-- An owned mutex is counted. -/
theorem Represents.owned_pos (hk : v.kind id = some k) (howner : k.owner = some t) :
    0 < v.owned t := by
  obtain ⟨o, ho, rfl⟩ := h.find_eq hk
  obtain ⟨hvalue, -⟩ := find_eq_some ho
  have hcount := GenSlab.count_put (GenSlab.lt_length_of_value hvalue) none
    fun o => decide (o.kind.owner = some t)
  rw [h.owned, ownedCount]
  simp only [hvalue, any_some, howner, decide_true, if_true, Option.any_none,
    Bool.false_eq_true, if_false] at hcount
  omega

/-- An unowned mutex gets an owner. -/
theorem Represents.wp_setOwner_some (hk : v.kind mutex.object = some (.mutex none poisoned policy))
    (hr : v.thread t = some r)
    (hQ : ∀ s', Represents s'
      (v.reown mutex.object (.mutex (some t) poisoned policy) t r (· + 1)) → Q () s') :
    (setOwner mutex (some t)).wp Q R s := by
  obtain ⟨o, ho, hkind⟩ := h.find_eq hk
  unfold setOwner
  simp only [wp_known, ho, hkind, updateOwned]
  refine h.wp_updateRecord hr rfl fun s1 h1 => ?_
  refine h1.wp_updateKind hk (fun o _ => rfl) (update v.owned t (v.owned t + 1))
    (fun t' => ?_) fun s2 h2 => hQ s2 h2
  show update v.owned t (v.owned t + 1) t' + _ = v.owned t' + _
  by_cases ht : t' = t
  · simp [ht, Kind.owner]
  · simp [update_of_ne ht, Kind.owner, Ne.symm ht]

/-- An owned mutex loses its owner. -/
theorem Represents.wp_setOwner_none
    (hk : v.kind mutex.object = some (.mutex (some t) poisoned policy)) (hr : v.thread t = some r)
    (hQ : ∀ s', Represents s'
      (v.reown mutex.object (.mutex none poisoned policy) t r (· - 1)) → Q () s') :
    (setOwner mutex none).wp Q R s := by
  obtain ⟨o, ho, hkind⟩ := h.find_eq hk
  have hpos : 0 < v.owned t := h.owned_pos hk rfl
  unfold setOwner
  simp only [wp_known, ho, hkind, updateOwned]
  refine h.wp_updateRecord hr rfl fun s1 h1 => ?_
  refine h1.wp_updateKind hk (fun o _ => rfl) (update v.owned t (v.owned t - 1))
    (fun t' => ?_) fun s2 h2 => hQ s2 h2
  show update v.owned t (v.owned t - 1) t' + _ = v.owned t' + _
  by_cases ht : t' = t
  · simp [ht, Kind.owner]
    omega
  · simp [update_of_ne ht, Kind.owner, Ne.symm ht]

/-- `complete_wait` on a wait that has left its queue. -/
theorem Represents.wp_completeWait {outcome : SyncOutcome} (hw : v.wait i = some w)
    (hout : ∀ id, i ∉ v.queue id) (hr : v.thread w.token.thread = some r)
    (hsync : r.syncWait = true) (hstate : r.snapshot.state = .blocked)
    (hsequence : r.waitSequence = w.token.sequence)
    (hQ : ∀ s', Represents s' (v.complete i w r outcome) → Q () s') :
    (completeWait i outcome).wp Q R s := by
  obtain ⟨w0, hw0, rfl⟩ := h.waiter_eq hw
  have hrecord : s.threads.record w0.token.thread.process w0.token.thread = .ok r :=
    ThreadTable.record_eq_ok.mpr ⟨rfl, by rw [← h.thread]; exact hr⟩
  unfold completeWait
  simp only [wp_quiet, wp_waiter hw0, ofThread, hrecord, Except.mapError, Except.ok.injEq,
    reduceCtorEq, false_imp_iff, forall_eq']
  refine ⟨fun hbad => ?_, fun _ => ?_⟩
  · rcases hbad with hbad | hbad | hbad
    · rw [hsync] at hbad
      cases hbad
    · exact absurd hstate hbad
    · exact absurd hsequence hbad
  refine h.wp_updateRecord hr rfl fun s1 h1 => ?_
  obtain ⟨w1, hw1, hinfo⟩ := h1.waiter_eq hw
  rw [wp_updateWaiter hw1]
  have hqueued : w1.queuedOn = none := by
    simpa [queuedOn, hw1] using h1.queuedOn_eq_none hout
  have h2 := h1.setWaiter (lt_length_of_slotAt hw1) hout
    (w := some { w1 with phase := .complete outcome, next := none }) hqueued
  have hinfo' : Waiter.info { w1 with phase := .complete outcome, next := none }
      = { w0.info with phase := .complete outcome } := by
    rw [← hinfo]
    rfl
  rw [map_some, hinfo'] at h2
  exact hQ _ h2

end

end SyncState

end Troe.Task
