import Troe.Task.SyncView

/-!
# The invariant of the synchronization table

`View.Inv` says how waits, queues, owners and thread records fit together. A mutex may be named as
open: inside an operation it can be without an owner while threads still wait for it. The rest of
the module shows that every change the operations make to a view keeps the invariant.
-/

namespace Troe.Task

open Lib
open Function (update update_of_ne update_self)

/-- The phases of a wait that is not finished. -/
def Phase.Pending (phase : Phase) : Prop := ∀ outcome, phase ≠ .complete outcome

/-- The queue a wait belongs on. -/
def WaitInfo.place (w : WaitInfo) : Option ObjectId :=
  match w.phase with
  | .queued => some w.source
  | .reacquiring _ => w.mutex.map MutexId.object
  | .complete _ => none

/-- The objects a wait was admitted for are alive and of the right kinds. -/
structure WaitInfo.Sound (kind : ObjectId → Option Kind) (w : WaitInfo) : Prop where
  process : w.source.process = w.token.thread.process
  resource : w.mutex = none → ∃ k, kind w.source = some k ∧ k ≠ .condition
  condition : ∀ m, w.mutex = some m → kind w.source = some .condition ∧
    m.object.process = w.token.thread.process ∧
    ∃ owner poisoned policy, kind m.object = some (.mutex owner poisoned policy)
  reacquiring : ∀ cause, w.phase = .reacquiring cause → ∃ m, w.mutex = some m

namespace WaitInfo

variable {w : WaitInfo} {id : ObjectId}

theorem pending_of_place (h : w.place = some id) : w.phase.Pending := by
  intro outcome hphase
  simp [place, hphase] at h

/-- A wait belongs on a queue of its own process. -/
theorem Sound.process_of_place {kind : ObjectId → Option Kind} (h : w.Sound kind)
    (hplace : w.place = some id) : id.process = w.token.thread.process := by
  unfold place at hplace
  split at hplace
  · rw [← Option.some.inj hplace]
    exact h.process
  · obtain ⟨m, hm, rfl⟩ := Option.map_eq_some_iff.mp hplace
    exact (h.condition m hm).2.1
  · cases hplace

/-- A wait belongs on a queue of a live object. -/
theorem Sound.kind_of_place {kind : ObjectId → Option Kind} (h : w.Sound kind)
    (hplace : w.place = some id) : ∃ k, kind id = some k := by
  unfold place at hplace
  split at hplace
  · rw [← Option.some.inj hplace]
    cases hm : w.mutex with
    | none =>
      obtain ⟨k, hk, -⟩ := h.resource hm
      exact ⟨k, hk⟩
    | some m => exact ⟨_, (h.condition m hm).1⟩
  · obtain ⟨m, hm, rfl⟩ := Option.map_eq_some_iff.mp hplace
    obtain ⟨owner, poisoned, policy, hk⟩ := (h.condition m hm).2.2
    exact ⟨_, hk⟩
  · cases hplace

/-- Kinds of the same sort keep a wait sound. -/
theorem Sound.congr {kind kind' : ObjectId → Option Kind} (h : w.Sound kind)
    (hsource : w.mutex = none → ∀ k, kind w.source = some k → k ≠ .condition →
      ∃ k', kind' w.source = some k' ∧ k' ≠ .condition)
    (hcondition : ∀ m, w.mutex = some m → kind w.source = some .condition →
      kind' w.source = some .condition)
    (hmutex : ∀ m owner poisoned policy, w.mutex = some m →
      kind m.object = some (.mutex owner poisoned policy) →
      ∃ owner poisoned policy, kind' m.object = some (.mutex owner poisoned policy)) :
    w.Sound kind' where
  process := h.process
  resource hm := by
    obtain ⟨k, hk, hne⟩ := h.resource hm
    exact hsource hm k hk hne
  condition m hm := by
    obtain ⟨hc, hp, owner, poisoned, policy, hk⟩ := h.condition m hm
    exact ⟨hcondition m hm hc, hp, hmutex m owner poisoned policy hm hk⟩
  reacquiring := h.reacquiring

end WaitInfo

/-- Whether two kinds are the same apart from their state. -/
def Kind.SameSort : Kind → Kind → Prop
  | .mutex _ _ _, .mutex _ _ _ => True
  | .condition, .condition => True
  | .permit _ _, .permit _ _ => True
  | _, _ => False

theorem Kind.SameSort.condition {k k' : Kind} (h : k.SameSort k') :
    k = .condition ↔ k' = .condition := by
  cases k <;> cases k' <;> simp_all [SameSort]

theorem Kind.SameSort.mutex {k : Kind} {owner : Option ThreadId} {poisoned : Bool}
    {policy : OwnerDeath} (h : SameSort (.mutex owner poisoned policy) k) :
    ∃ owner poisoned policy, k = .mutex owner poisoned policy := by
  cases k <;> simp_all [SameSort]

theorem Kind.SameSort.trans {k k' k'' : Kind} (h : k.SameSort k') (h' : k'.SameSort k'') :
    k.SameSort k'' := by
  cases k <;> cases k' <;> cases k'' <;> simp_all [SameSort]

namespace View

variable {v : View} {i : ℕ} {id : ObjectId} {w : WaitInfo} {r : Record} {t : ThreadId}
  {opened : Option ObjectId}

/-- How the parts of a view fit together, with one mutex possibly open. -/
structure Inv (opened : Option ObjectId) (v : View) : Prop where
  asleep : ∀ i w, v.wait i = some w → ∃ r, v.thread w.token.thread = some r ∧
    r.syncWait = true ∧ r.waitSequence = w.token.sequence ∧
    (w.phase.Pending → r.snapshot.state = .blocked)
  single : ∀ i j w w', v.wait i = some w → v.wait j = some w' →
    w.token.thread = w'.token.thread → i = j
  sound : ∀ i w, v.wait i = some w → w.Sound v.kind
  member : ∀ id i, i ∈ v.queue id ↔ ∃ w, v.wait i = some w ∧ w.place = some id
  nodup : ∀ id, (v.queue id).Nodup
  holder : ∀ id k t, v.kind id = some k → k.owner = some t →
    t.process = id.process ∧ ∃ r, v.thread t = some r
  counted : ∀ t r, v.thread t = some r → r.ownedMutexes = v.owned t
  retired : ∀ t r, v.thread t = some r → r.Retired
  idle : ∀ id poisoned policy, v.kind id = some (.mutex none poisoned policy) →
    opened ≠ some id → v.queue id = []
  stock : ∀ id count maximum, v.kind id = some (.permit count maximum) →
    count ≤ maximum ∧ (0 < count → v.queue id = [])

theorem setThread_self (hr : v.thread t = some r) : v.setThread t r = v := by
  rw [View.setThread, ← hr, Function.update_eq_self]

theorem setThread_setThread (v : View) (t : ThreadId) (r r' : Record) :
    (v.setThread t r).setThread t r' = v.setThread t r' := by
  simp [View.setThread]

namespace Inv

section

variable (h : v.Inv opened)
include h

theorem place_of_mem (hi : i ∈ v.queue id) (hw : v.wait i = some w) : w.place = some id := by
  obtain ⟨w', hw', hplace⟩ := (h.member id i).mp hi
  rwa [Option.mem_unique hw hw']

/-- A wait is on one queue at most. -/
theorem eq_of_mem {id' : ObjectId} (hi : i ∈ v.queue id) (hi' : i ∈ v.queue id') : id = id' := by
  obtain ⟨w, hw, hplace⟩ := (h.member id i).mp hi
  exact Option.some.inj (hplace.symm.trans (h.place_of_mem hi' hw))

/-- The record behind a queued wait. -/
theorem blocked_of_mem (hi : i ∈ v.queue id) :
    ∃ w r, v.wait i = some w ∧ w.place = some id ∧ v.thread w.token.thread = some r ∧
      r.syncWait = true ∧ r.waitSequence = w.token.sequence ∧ r.snapshot.state = .blocked := by
  obtain ⟨w, hw, hplace⟩ := (h.member id i).mp hi
  obtain ⟨r, hr, hsync, hseq, hblocked⟩ := h.asleep i w hw
  exact ⟨w, r, hw, hplace, hr, hsync, hseq, hblocked (WaitInfo.pending_of_place hplace)⟩

/-- A dead object has no queue. -/
theorem queue_of_dead (hid : v.kind id = none) : v.queue id = [] := by
  rw [List.eq_nil_iff_forall_not_mem]
  intro i hi
  obtain ⟨w, hw, hplace⟩ := (h.member id i).mp hi
  obtain ⟨k, hk⟩ := (h.sound i w hw).kind_of_place hplace
  rw [hid] at hk
  cases hk

theorem notMem_leave (hi : i ∈ v.queue id) (id' : ObjectId) : i ∉ (v.leave id i).queue id' := by
  show i ∉ update v.queue id ((v.queue id).erase i) id'
  by_cases heq : id' = id
  · rw [heq, update_self, (h.nodup id).mem_erase_iff]
    exact fun hmem => hmem.1 rfl
  · rw [update_of_ne heq]
    exact fun hi' => heq (h.eq_of_mem hi' hi)

theorem mem_leave (hi : i ∈ v.queue id) {id' : ObjectId} {j : ℕ} :
    j ∈ (v.leave id i).queue id' ↔ j ∈ v.queue id' ∧ j ≠ i := by
  refine ⟨fun hj => ⟨?_, fun heq => h.notMem_leave hi id' (heq ▸ hj)⟩, fun ⟨hj, hne⟩ => ?_⟩
  · change j ∈ update v.queue id ((v.queue id).erase i) id' at hj
    by_cases heq : id' = id
    · rw [heq, update_self] at hj
      rw [heq]
      exact List.mem_of_mem_erase hj
    · rwa [update_of_ne heq] at hj
  · show j ∈ update v.queue id ((v.queue id).erase i) id'
    by_cases heq : id' = id
    · rw [heq] at hj
      rw [heq, update_self]
      exact (List.mem_erase_of_ne hne).mpr hj
    · rwa [update_of_ne heq]

theorem nodup_leave (i : ℕ) (id id' : ObjectId) : ((v.leave id i).queue id').Nodup := by
  show (update v.queue id ((v.queue id).erase i) id').Nodup
  by_cases heq : id' = id
  · rw [heq, update_self]
    exact (h.nodup id).erase i
  · rw [update_of_ne heq]
    exact h.nodup id'

end

theorem leave_eq_nil {id' : ObjectId} (hq : v.queue id' = []) : (v.leave id i).queue id' = [] := by
  show update v.queue id ((v.queue id).erase i) id' = []
  by_cases heq : id' = id
  · rw [heq] at hq
    rw [heq, update_self, hq, List.erase_nil]
  · rwa [update_of_ne heq]

section

variable (h : v.Inv opened)
include h

/-- The history is no part of the invariant. -/
theorem emit (e : SyncEvent) : (v.emit e).Inv opened := { h with }

/-! ## Records -/

theorem holder_update (r' : Record) {k : Kind} {t' : ThreadId} (hk : v.kind id = some k)
    (howner : k.owner = some t') :
    t'.process = id.process ∧ ∃ r, update v.thread t (some r') t' = some r := by
  obtain ⟨hprocess, r0, hr0⟩ := h.holder id k t' hk howner
  exact ⟨hprocess, exists_update hr0 t r'⟩

/-- A write to one record that keeps what waits and owners need of it. -/
theorem setThread (r' : Record) (hr : v.thread t = some r)
    (hsync : r.syncWait = true → r'.syncWait = true ∧ r'.waitSequence = r.waitSequence ∧
      (r.snapshot.state = .blocked → r'.snapshot.state = .blocked))
    (howned : r'.ownedMutexes = r.ownedMutexes) (hretired : r'.Retired) :
    (v.setThread t r').Inv opened :=
  { h with
    asleep := fun i w hw => by
      obtain ⟨r0, hr0, hsync0, hseq, hblocked⟩ := h.asleep i w hw
      by_cases heq : w.token.thread = t
      · rw [heq] at hr0
        obtain rfl := Option.mem_unique hr hr0
        obtain ⟨hs, hq, hb⟩ := hsync hsync0
        exact ⟨r', update_eq_some.mpr (.inl ⟨heq, rfl⟩), hs, hq.trans hseq,
          fun hp => hb (hblocked hp)⟩
      · exact ⟨r0, update_eq_some.mpr (.inr ⟨heq, hr0⟩), hsync0, hseq, hblocked⟩
    holder := fun _ _ _ hk howner => h.holder_update r' hk howner
    counted := forall_update (howned.trans (h.counted t r hr)) h.counted
    retired := forall_update hretired h.retired }

/-! ## Waits -/

/-- A wait changes phase and its thread's record with it; the queues follow. -/
theorem rewait {opened' : Option ObjectId} (w' : WaitInfo) (r' : Record) {q : ObjectId → List ℕ}
    (hw : v.wait i = some w) (hr : v.thread w.token.thread = some r)
    (hw' : w' = { w with phase := w'.phase })
    (hre : ∀ cause, w'.phase = .reacquiring cause → ∃ m, w.mutex = some m)
    (hsync : r'.syncWait = true) (hseq : r'.waitSequence = r.waitSequence)
    (hblocked : w'.phase.Pending → r'.snapshot.state = .blocked)
    (howned : r'.ownedMutexes = r.ownedMutexes) (hretired : r'.Retired)
    (hmember : ∀ id j, j ∈ q id ↔ (j ∈ v.queue id ∧ j ≠ i) ∨ (j = i ∧ w'.place = some id))
    (hnodup : ∀ id, (q id).Nodup)
    (hidle : ∀ id poisoned policy, v.kind id = some (.mutex none poisoned policy) →
      opened' ≠ some id → q id = [])
    (hstock : ∀ id count maximum, v.kind id = some (.permit count maximum) → 0 < count → q id = []) :
    Inv opened' { (v.setWait i (some w')).setThread w.token.thread r' with queue := q } := by
  have htoken : w'.token = w.token := by rw [hw']
  have hmutex : w'.mutex = w.mutex := by rw [hw']
  have hsource : w'.source = w.source := by rw [hw']
  -- no other wait belongs to the thread
  have hother : ∀ j x, j ≠ i → v.wait j = some x → x.token.thread ≠ w.token.thread :=
    fun j x hj hx heq => hj (h.single j i x w hx hw heq)
  obtain ⟨r0, hr0, -, hseq0, -⟩ := h.asleep i w hw
  obtain rfl := Option.mem_unique hr hr0
  exact
    { asleep := fun j x hx => by
        show ∃ r, update v.thread w.token.thread (some r') x.token.thread = some r ∧ _
        rcases update_eq_some.mp hx with ⟨-, rfl⟩ | ⟨hj, hx⟩
        · exact ⟨r', by rw [htoken, update_self], hsync, by rw [htoken, hseq, hseq0], hblocked⟩
        · rw [update_of_ne (hother j x hj hx)]
          exact h.asleep j x hx
      single := fun j j' x x' hx hx' heq => by
        rcases update_eq_some.mp hx with ⟨hj, rfl⟩ | ⟨hj, hold⟩ <;>
          rcases update_eq_some.mp hx' with ⟨hj', rfl⟩ | ⟨hj', hold'⟩
        · rw [hj, hj']
        · exact absurd (heq.symm.trans (congrArg _ htoken)) (hother j' x' hj' hold')
        · exact absurd (heq.trans (congrArg _ htoken)) (hother j x hj hold)
        · exact h.single j j' x x' hold hold' heq
      sound := fun j x hx => by
        have hs := h.sound i w hw
        refine forall_update (P := fun _ x => x.Sound v.kind) ?_ h.sound j x hx
        exact ⟨by rw [hsource, htoken]; exact hs.process, by rw [hsource, hmutex]; exact hs.resource,
          by rw [hsource, hmutex, htoken]; exact hs.condition, by rw [hmutex]; exact hre⟩
      member := fun id j => by
        show j ∈ q id ↔ ∃ x, update v.wait i (some w') j = some x ∧ _
        rw [hmember]
        by_cases hj : j = i
        · simp [hj]
        · simp [hj, h.member]
      nodup := hnodup
      holder := fun _ _ _ hk howner => h.holder_update r' hk howner
      counted := forall_update (howned.trans (h.counted _ r hr)) h.counted
      retired := forall_update hretired h.retired
      idle := hidle
      stock := fun id count maximum hk =>
        ⟨(h.stock id count maximum hk).1, hstock id count maximum hk⟩ }

/-- A queued wait leaves its queue and completes. -/
theorem finish (hi : i ∈ v.queue id) (hw : v.wait i = some w)
    (hr : v.thread w.token.thread = some r) (outcome : SyncOutcome) :
    ((v.leave id i).complete i w r outcome).Inv opened := by
  obtain ⟨r0, hr0, hsync, -, -⟩ := h.asleep i w hw
  obtain rfl := Option.mem_unique hr hr0
  refine h.rewait { w with phase := .complete outcome }
    { r with snapshot := { r.snapshot with state := .ready } } (q := (v.leave id i).queue) hw hr
    rfl ?_ hsync rfl ?_ rfl ?_ ?_ (h.nodup_leave i id) ?_ ?_
  · intro cause hphase
    cases hphase
  · intro hp
    exact absurd rfl (hp outcome)
  · intro hreleased
    have hfalse := (h.retired _ r hr).released_eq_false (.inl hsync)
    exact absurd (hfalse.symm.trans hreleased) Bool.false_ne_true
  · intro id' j
    rw [h.mem_leave hi]
    simp [WaitInfo.place]
  · exact fun id' poisoned policy hk hopen => leave_eq_nil (h.idle id' poisoned policy hk hopen)
  · exact fun id' count maximum hk hpos => leave_eq_nil ((h.stock id' count maximum hk).2 hpos)

end

/-- A wait moves from its condition to its mutex, which is open until it was tried. -/
theorem move (h : v.Inv none) {m : MutexId} (hi : i ∈ v.queue id) (hw : v.wait i = some w)
    (hm : w.mutex = some m) (hphase : w.phase = .queued) (cause : SyncOutcome) :
    (((v.leave id i).setWait i (some { w with phase := .reacquiring cause })).push m.object i
      w.token).Inv (some m.object) := by
  obtain ⟨r, hr, hsync, hseq, hblocked⟩ := h.asleep i w hw
  have hplace := h.place_of_mem hi hw
  have hsource : w.source = id := by simpa [WaitInfo.place, hphase] using hplace
  obtain ⟨hcondition, -, owner, poisoned, policy, hmutex⟩ := (h.sound i w hw).condition m hm
  have hkeep : ∀ id', id' ≠ m.object → update (v.leave id i).queue m.object
      ((v.leave id i).queue m.object ++ [i]) id' = (v.leave id i).queue id' :=
    fun id' hne' => update_of_ne hne' _ _
  suffices h' : Inv (some m.object)
      { (v.setWait i (some { w with phase := .reacquiring cause })).setThread w.token.thread r with
        queue := update (v.leave id i).queue m.object
          ((v.leave id i).queue m.object ++ [i]) } by
    rw [setThread_self (v := v.setWait i _) hr] at h'
    exact h'.emit (.queued m.object w.token)
  refine h.rewait _ r hw hr rfl (fun _ _ => ⟨m, hm⟩) hsync rfl
    (fun _ => hblocked (WaitInfo.pending_of_place hplace)) rfl (h.retired _ r hr) ?_ ?_ ?_ ?_
  · intro id' j
    by_cases heq : id' = m.object
    · rw [heq, update_self, List.mem_append, h.mem_leave hi]
      simp [WaitInfo.place, hm]
    · rw [hkeep id' heq, h.mem_leave hi]
      simp [WaitInfo.place, hm, Ne.symm heq]
  · intro id'
    by_cases heq : id' = m.object
    · rw [heq, update_self, List.nodup_append_comm, List.singleton_append, List.nodup_cons]
      exact ⟨h.notMem_leave hi _, h.nodup_leave i id m.object⟩
    · rw [hkeep id' heq]
      exact h.nodup_leave i id id'
  · intro id' poisoned policy hk hopen
    rw [hkeep id' fun heq => hopen (by rw [heq])]
    exact leave_eq_nil (h.idle id' poisoned policy hk (by simp))
  · intro id' count maximum hk hpos
    have hne' : id' ≠ m.object := by
      intro heq
      rw [heq, hmutex] at hk
      cases hk
    rw [hkeep id' hne']
    exact leave_eq_nil ((h.stock id' count maximum hk).2 hpos)

/-- A running thread starts to wait. -/
theorem admitWait (h : v.Inv opened) {r' : Record} (hslot : v.wait i = none)
    (hr : v.thread w.token.thread = some r) (hfree : r.syncWait = false)
    (hsound : w.Sound v.kind) (hphase : w.phase = .queued)
    (hidle : ∀ poisoned policy, v.kind w.source ≠ some (.mutex none poisoned policy))
    (hstock : ∀ count maximum, v.kind w.source = some (.permit count maximum) → count = 0)
    (hsync : r'.syncWait = true) (hseq : r'.waitSequence = w.token.sequence)
    (hblocked : r'.snapshot.state = .blocked) (howned : r'.ownedMutexes = r.ownedMutexes)
    (hretired : r'.Retired) :
    (((v.setThread w.token.thread r').setWait i (some w)).push w.source i w.token).Inv opened := by
  have h' := h.setThread r' hr (fun hs => by rw [hfree] at hs; cases hs) howned hretired
  have hplace : w.place = some w.source := by rw [WaitInfo.place, hphase]
  have hout : ∀ id, i ∉ v.queue id := by
    intro id hi
    obtain ⟨w', hw', -⟩ := (h.member id i).mp hi
    rw [hslot] at hw'
    cases hw'
  -- whoever waits is marked, and the caller is not
  have hother : ∀ j x, v.wait j = some x → x.token.thread ≠ w.token.thread := by
    intro j x hx heq
    obtain ⟨r0, hr0, hsync0, -⟩ := h.asleep j x hx
    rw [heq, hr, Option.some.injEq] at hr0
    rw [← hr0, hfree] at hsync0
    cases hsync0
  have hkeep : ∀ id, id ≠ w.source → update v.queue w.source
      (v.queue w.source ++ [i]) id = v.queue id := fun id hne => update_of_ne hne _ _
  exact
    { h' with
      asleep := fun j x hx => by
        show ∃ r, update v.thread w.token.thread (some r') x.token.thread = some r ∧ _
        rcases update_eq_some.mp hx with ⟨-, rfl⟩ | ⟨-, hx⟩
        · exact ⟨r', update_self .., hsync, hseq, fun _ => hblocked⟩
        · rw [update_of_ne (hother j x hx)]
          exact h.asleep j x hx
      single := fun j j' x x' hx hx' heq => by
        rcases update_eq_some.mp hx with ⟨hj, rfl⟩ | ⟨-, hold⟩ <;>
          rcases update_eq_some.mp hx' with ⟨hj', rfl⟩ | ⟨-, hold'⟩
        · rw [hj, hj']
        · exact absurd heq.symm (hother j' x' hold')
        · exact absurd heq (hother j x hold)
        · exact h.single j j' x x' hold hold' heq
      sound := forall_update hsound h.sound
      member := fun id j => by
        show j ∈ update v.queue w.source (v.queue w.source ++ [i]) id ↔
          ∃ x, update v.wait i (some w) j = some x ∧ _
        by_cases hj : j = i
        · by_cases heq : id = w.source
          · simp [hj, heq, hplace]
          · simp [hj, hkeep id heq, hout, hplace, Ne.symm heq]
        · rw [update_of_ne hj, ← h.member]
          by_cases heq : id = w.source
          · simp [hj, heq]
          · rw [hkeep id heq]
      nodup := fun id => by
        show (update v.queue w.source (v.queue w.source ++ [i]) id).Nodup
        by_cases heq : id = w.source
        · rw [heq, update_self, List.nodup_append_comm, List.singleton_append, List.nodup_cons]
          exact ⟨hout _, h.nodup _⟩
        · rw [hkeep id heq]
          exact h.nodup id
      idle := fun id poisoned policy hk hopen => by
        have hne : id ≠ w.source := fun heq => hidle poisoned policy (heq ▸ hk)
        exact (hkeep id hne).trans (h.idle id poisoned policy hk hopen)
      stock := fun id count maximum hk => by
        refine ⟨(h.stock id count maximum hk).1, fun hpos => ?_⟩
        have hne : id ≠ w.source := fun heq => by
          rw [hstock count maximum (heq ▸ hk)] at hpos
          cases hpos
        exact (hkeep id hne).trans ((h.stock id count maximum hk).2 hpos) }

end Inv

/-- Every wait of a thread is forgotten. -/
def forget (v : View) (t : ThreadId) (r : Record) : View :=
  { v.setThread t { r with syncWait := false } with
    wait := fun i => (v.wait i).filter (·.token.thread ≠ t) }

namespace Inv

section

variable (h : v.Inv opened)
include h

/-- Waits and objects go away together, and the records that the others need stay. -/
theorem restrict {v' : View} {W : WaitInfo → Prop} {K : ObjectId → Prop}
    (hwait : ∀ i w, v'.wait i = some w ↔ v.wait i = some w ∧ W w)
    (hkind : ∀ id k, v'.kind id = some k ↔ v.kind id = some k ∧ K id)
    (hqueue : ∀ id, K id → v'.queue id = v.queue id) (hempty : ∀ id, ¬ K id → v'.queue id = [])
    (hobjects : ∀ i w, v.wait i = some w → W w → K w.source ∧ ∀ m, w.mutex = some m → K m.object)
    (hplace : ∀ i w id, v.wait i = some w → w.place = some id → (W w ↔ K id))
    (hasleep : ∀ w r, W w → v.thread w.token.thread = some r → v'.thread w.token.thread = some r)
    (hholder : ∀ id t r, K id → t.process = id.process → v.thread t = some r →
      ∃ r', v'.thread t = some r')
    (hcounted : ∀ t r, v'.thread t = some r → r.ownedMutexes = v'.owned t)
    (hretired : ∀ t r, v'.thread t = some r → r.Retired) : v'.Inv opened where
  asleep i w hw := by
    obtain ⟨hw, hkept⟩ := (hwait i w).mp hw
    obtain ⟨r, hr, hrest⟩ := h.asleep i w hw
    exact ⟨r, hasleep w r hkept hr, hrest⟩
  single i j w w' hw hw' := h.single i j w w' ((hwait i w).mp hw).1 ((hwait j w').mp hw').1
  sound i w hw := by
    obtain ⟨hw, hkept⟩ := (hwait i w).mp hw
    obtain ⟨hsource, hmutex⟩ := hobjects i w hw hkept
    exact (h.sound i w hw).congr (fun _ k hk hne => ⟨k, (hkind _ k).mpr ⟨hk, hsource⟩, hne⟩)
      (fun _ _ hk => (hkind _ _).mpr ⟨hk, hsource⟩)
      fun m o p policy hm hk => ⟨o, p, policy, (hkind _ _).mpr ⟨hk, hmutex m hm⟩⟩
  member id i := by
    by_cases hid : K id
    · rw [hqueue id hid, h.member]
      refine exists_congr fun w => and_congr_left fun hp => ?_
      rw [hwait]
      exact (and_iff_left_of_imp fun hw => (hplace i w id hw hp).mpr hid).symm
    · rw [hempty id hid]
      refine iff_of_false List.not_mem_nil ?_
      rintro ⟨w, hw, hp⟩
      obtain ⟨hw, hkept⟩ := (hwait i w).mp hw
      exact hid ((hplace i w id hw hp).mp hkept)
  nodup id := by
    by_cases hid : K id
    · rw [hqueue id hid]
      exact h.nodup id
    · rw [hempty id hid]
      exact List.nodup_nil
  holder id k t hk howner := by
    obtain ⟨hk, hid⟩ := (hkind id k).mp hk
    obtain ⟨hprocess, r, hr⟩ := h.holder id k t hk howner
    exact ⟨hprocess, hholder id t r hid hprocess hr⟩
  counted := hcounted
  retired := hretired
  idle id poisoned policy hk hopen := by
    obtain ⟨hk, hid⟩ := (hkind id _).mp hk
    rw [hqueue id hid]
    exact h.idle id poisoned policy hk hopen
  stock id count maximum hk := by
    obtain ⟨hk, hid⟩ := (hkind id _).mp hk
    rw [hqueue id hid]
    exact h.stock id count maximum hk

/-- A thread whose wait is over can forget it. -/
theorem forget (hr : v.thread t = some r)
    (hdone : ∀ i w, v.wait i = some w → w.token.thread = t → ¬ w.phase.Pending) :
    (v.forget t r).Inv opened := by
  refine h.restrict (W := (·.token.thread ≠ t)) (K := fun _ => True) (fun j x => ?_)
    (fun _ _ => (iff_of_eq (and_true _)).symm) (fun _ _ => rfl) (fun _ hid => absurd trivial hid)
    (fun _ _ _ _ => ⟨trivial, fun _ _ => trivial⟩)
    (fun j x _ hx hplace => iff_of_true
      (fun heq => hdone j x hx heq (WaitInfo.pending_of_place hplace)) trivial)
    (fun x _ hne hr' => (update_of_ne hne _ _).trans hr')
    (fun _ _ _ _ _ hr0 => exists_update hr0 t _) (forall_update (h.counted t r hr) h.counted)
    (forall_update (fun hreleased => ?_) h.retired)
  · show (v.wait j).filter _ = some x ↔ _
    rw [Option.filter_eq_some_iff, decide_eq_true_eq]
  · obtain ⟨-, howned, hstate⟩ := h.retired t r hr hreleased
    exact ⟨rfl, howned, hstate⟩

/-! ## Objects -/

/-- Another kind of the same sort keeps every wait sound. -/
theorem sound_update {k k' : Kind} (hk : v.kind id = some k) (hsort : k.SameSort k')
    (hw : v.wait i = some w) :
    w.Sound (update v.kind id (some k')) := by
  refine (h.sound i w hw).congr (fun _ k0 hk0 hne => ?_) (fun m _ hk0 => ?_)
    fun m owner poisoned policy _ hk0 => ?_
  · by_cases heq : w.source = id
    · rw [heq, hk, Option.some.injEq] at hk0
      rw [heq, update_self]
      exact ⟨k', rfl, fun hc => hne (hk0 ▸ hsort.condition.mpr hc)⟩
    · rw [update_of_ne heq]
      exact ⟨k0, hk0, hne⟩
  · by_cases heq : w.source = id
    · rw [heq, hk, Option.some.injEq] at hk0
      rw [heq, update_self, hsort.condition.mp hk0]
    · rwa [update_of_ne heq]
  · by_cases heq : m.object = id
    · rw [heq, hk, Option.some.injEq] at hk0
      rw [hk0] at hsort
      obtain ⟨owner', poisoned', policy', hk'⟩ := hsort.mutex
      rw [heq, update_self, hk']
      exact ⟨owner', poisoned', policy', rfl⟩
    · rw [update_of_ne heq]
      exact ⟨owner, poisoned, policy, hk0⟩

/-- A write to the state of an object that leaves its owner alone. -/
theorem setKind {k k' : Kind} (hk : v.kind id = some k) (hsort : k.SameSort k')
    (howner : k'.owner = k.owner)
    (hidle : ∀ poisoned policy, k' = .mutex none poisoned policy → opened ≠ some id →
      v.queue id = [])
    (hstock : ∀ count maximum, k' = .permit count maximum → count ≤ maximum ∧
      (0 < count → v.queue id = [])) : (v.setKind id k').Inv opened :=
  { h with
    sound := fun i w hw => h.sound_update hk hsort hw
    holder := fun id' k0 t hk0 howner0 => by
      rcases update_eq_some.mp hk0 with ⟨rfl, rfl⟩ | ⟨-, hk0⟩
      · exact h.holder id' k t hk (howner ▸ howner0)
      · exact h.holder id' k0 t hk0 howner0
    idle := fun id' poisoned policy hk0 hopen => by
      rcases update_eq_some.mp hk0 with ⟨rfl, hk'⟩ | ⟨-, hk0⟩
      · exact hidle poisoned policy hk'.symm hopen
      · exact h.idle id' poisoned policy hk0 hopen
    stock := fun id' count maximum hk0 => by
      rcases update_eq_some.mp hk0 with ⟨rfl, hk'⟩ | ⟨-, hk0⟩
      · exact hstock count maximum hk'.symm
      · exact h.stock id' count maximum hk0 }

/-- A mutex changes hands. Without an owner it is open. -/
theorem reown {opened' : Option ObjectId} {owner owner' : Option ThreadId} {poisoned : Bool}
    {policy : OwnerDeath} (f : ℕ → ℕ) (hk : v.kind id = some (.mutex owner poisoned policy))
    (hr : v.thread t = some r) (hretired : r.snapshot.resourcesReleased = false)
    (howner : ∀ t', owner' = some t' → t' = t ∧ t.process = id.process)
    (hself : owner' = none → opened' = some id)
    (hother : ∀ id', id' ≠ id → opened' ≠ some id' → opened ≠ some id') :
    (v.reown id (.mutex owner' poisoned policy) t r f).Inv opened' where
  asleep i w hw := by
    obtain ⟨r0, hr0, hsync, hseq, hblocked⟩ := h.asleep i w hw
    by_cases heq : w.token.thread = t
    · obtain rfl := Option.some.inj ((heq ▸ hr0).symm.trans hr)
      exact ⟨_, update_eq_some.mpr (.inl ⟨heq, rfl⟩), hsync, hseq, hblocked⟩
    · exact ⟨r0, update_eq_some.mpr (.inr ⟨heq, hr0⟩), hsync, hseq, hblocked⟩
  single := h.single
  sound i w hw := h.sound_update hk trivial hw
  member := h.member
  nodup := h.nodup
  holder id' k t' hk' howner' := by
    rcases update_eq_some.mp hk' with ⟨rfl, rfl⟩ | ⟨-, hk'⟩
    · obtain ⟨rfl, hprocess⟩ := howner t' howner'
      exact ⟨hprocess, _, update_self ..⟩
    · exact h.holder_update _ hk' howner'
  counted t' r0 hr0 := by
    show r0.ownedMutexes = update v.owned t (f (v.owned t)) t'
    rcases update_eq_some.mp hr0 with ⟨rfl, rfl⟩ | ⟨hne, hr0⟩
    · rw [update_self, h.counted t' r hr]
    · rw [update_of_ne hne]
      exact h.counted t' r0 hr0
  retired := forall_update
    (fun hreleased => absurd (hretired.symm.trans hreleased) Bool.false_ne_true) h.retired
  idle id' poisoned' policy' hk' hopen := by
    rcases update_eq_some.mp hk' with ⟨rfl, hkind⟩ | ⟨hne, hk'⟩
    · exact absurd (hself (Kind.mutex.inj hkind).1.symm) hopen
    · exact h.idle id' poisoned' policy' hk' (hother id' hne hopen)
  stock id' count maximum hk' := by
    rcases update_eq_some.mp hk' with ⟨-, hk'⟩ | ⟨-, hk'⟩
    · cases hk'
    · exact h.stock id' count maximum hk'

end

/-- An open mutex nobody waits for, or one that has an owner, need not be open. -/
theorem close (h : v.Inv (some id))
    (hid : ∀ poisoned policy, v.kind id = some (.mutex none poisoned policy) → v.queue id = []) :
    v.Inv none :=
  { h with
    idle := fun id' poisoned policy hk _ => by
      by_cases heq : id' = id
      · rw [heq] at hk ⊢
        exact hid poisoned policy hk
      · exact h.idle id' poisoned policy hk fun h => heq (Option.some.inj h).symm }

end Inv

end View

end Troe.Task
