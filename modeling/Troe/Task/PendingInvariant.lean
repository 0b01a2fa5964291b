import Troe.Task.PendingCall
import Troe.Task.WaitInvariant

/-!
# Pending calls and their buffers

`Retained` accounts for the calls of a table and says that no byte of a request outlives its call.
`Holds` says that a call that waits goes on waiting, for the same key, as long as it is retained;
only `resolve` ends a wait.
-/

namespace Troe.Task

open Lib KeySlab

variable {slots : KeySlab PendingCallSnapshot (List UInt8)} {live bytes i : ℕ} {slot : PendingSlot}
  {r : PendingCallSnapshot}

/-! ## Buffers -/

theorem length_copyFront {request buffer : List UInt8} (h : request.length ≤ buffer.length) :
    (copyFront request buffer).length = buffer.length := by
  unfold copyFront
  rw [List.length_append, List.length_drop]
  omega

theorem drop_copyFront (request buffer : List UInt8) :
    (copyFront request buffer).drop request.length = buffer.drop request.length := by
  unfold copyFront
  rw [List.drop_append_of_le_length (le_rfl), List.drop_length, List.nil_append]

theorem zeroFront_eq {n : ℕ} {buffer : List UInt8} (hn : n ≤ buffer.length)
    (hrest : ∀ b ∈ buffer.drop n, b = 0) : zeroFront n buffer = List.replicate buffer.length 0 := by
  unfold zeroFront
  rw [List.eq_replicate_of_mem hrest, List.length_drop, List.replicate_append_replicate,
    Nat.add_sub_cancel' hn]

/-- The bytes of a buffer that are in use. -/
def usedBytes (record : Option PendingCallSnapshot) : ℕ := record.elim 0 (·.requestBytes)

/-- A slot keeps no byte beyond the request of its call. -/
structure Clean (slot : PendingSlot) : Prop where
  length : slot.buffer.length = maxPendingRequestBytes
  used : usedBytes slot.record ≤ maxPendingRequestBytes
  rest : ∀ b ∈ slot.buffer.drop (usedBytes slot.record), b = 0

theorem clean_empty : Clean .empty := by
  refine ⟨List.length_replicate, Nat.zero_le _, fun b hb => ?_⟩
  exact List.eq_of_mem_replicate (List.mem_of_mem_drop hb)

/-- A slot without a call is all zero. -/
theorem Clean.zero (h : Clean slot) (hnone : slot.record = none) :
    slot.buffer = List.replicate maxPendingRequestBytes 0 := by
  have hrest := h.rest
  rw [hnone, usedBytes, Option.elim_none, List.drop_zero] at hrest
  rw [List.eq_replicate_of_mem hrest, h.length]

/-! ## The invariant -/

/-- The slots hold `live` calls with `bytes` request bytes. -/
structure Retained (slots : KeySlab PendingCallSnapshot (List UInt8)) (live bytes : ℕ) : Prop where
  keyed : ∀ i (slot : PendingSlot) (r : PendingCallSnapshot), slots[i]? = some slot →
    slot.record = some r → r.id = { slot := i, generation := slot.generation }
  clean : ∀ (i : ℕ) (slot : PendingSlot), slots[i]? = some slot → Clean slot
  live : live = slots.sum fun _ => 1
  bytes : bytes = slots.sum (·.requestBytes)

namespace Retained

theorem empty : Retained [] 0 0 :=
  ⟨fun _ _ _ hslot => (by cases hslot), fun _ _ hslot => (by cases hslot), rfl, rfl⟩

variable (h : Retained slots live bytes)
include h

/-- A slot is added. -/
theorem append : Retained (slots ++ [PendingSlot.empty]) live bytes := by
  refine ⟨fun j s r hs hr => ?_, fun j s hs => ?_, ?_, ?_⟩
  · rw [slot_append] at hs
    split at hs
    · cases hs
      cases hr
    · exact h.keyed j s r hs hr
  · rw [slot_append] at hs
    split at hs
    · cases hs
      exact clean_empty
    · exact h.clean j s hs
  · rw [sum_append]
    exact h.live
  · rw [sum_append]
    exact h.bytes

variable (hslot : slots[i]? = some slot)
include hslot

/-- One slot is written. -/
theorem modify {f : PendingSlot → PendingSlot} {live' bytes' : ℕ}
    (hkeyed : ∀ r, (f slot).record = some r → r.id = ⟨i, (f slot).generation⟩)
    (hclean : Clean (f slot))
    (hlive : live' + slot.record.elim 0 (fun _ => 1) = live + (f slot).record.elim 0 fun _ => 1)
    (hbytes : bytes' + usedBytes slot.record = bytes + usedBytes (f slot).record) :
    Retained (slots.modify i f) live' bytes' := by
  have hkeep := slot_modify f hslot
  refine ⟨fun j s r hs hr => ?_, fun j s hs => ?_, ?_, ?_⟩
  · rw [hkeep] at hs
    split at hs
    next hj =>
      cases hs
      rw [hj]
      exact hkeyed r hr
    · exact h.keyed j s r hs hr
  · rw [hkeep] at hs
    split at hs
    · cases hs
      exact hclean
    · exact h.clean j s hs
  · have hsum := sum_modify (h := f) hslot fun _ => 1
    have := h.live
    omega
  · have hsum := sum_modify (h := f) hslot (·.requestBytes)
    have := h.bytes
    unfold usedBytes at hbytes
    omega

/-- A call is retained in a free slot. -/
theorem retain {request : List UInt8} (hempty : slot.record = none)
    (hid : r.id = ⟨i, slot.generation⟩) (hlength : r.requestBytes = request.length)
    (hsize : request.length ≤ maxPendingRequestBytes) :
    Retained (slots.modify i fun slot =>
        { slot with buffer := copyFront request slot.buffer, record := some r })
      (live + 1) (bytes + request.length) := by
  have hold := h.clean i slot hslot
  refine h.modify hslot (fun r' hr' => ?_) ⟨?_, ?_, ?_⟩ ?_ ?_
  · rw [← Option.some.inj hr']
    exact hid
  · rw [length_copyFront (by rw [hold.length]; exact hsize), hold.length]
  · show r.requestBytes ≤ _
    rw [hlength]
    exact hsize
  · show ∀ b ∈ (copyFront request slot.buffer).drop r.requestBytes, b = 0
    rw [hlength, drop_copyFront, hold.zero hempty]
    exact fun b hb => List.eq_of_mem_replicate (List.mem_of_mem_drop hb)
  · rw [hempty]
    rfl
  · rw [hempty]
    show bytes + request.length + 0 = bytes + r.requestBytes
    rw [hlength, Nat.add_zero]

/-- A call goes to another state. -/
theorem setState {state : PendingCallState} (hr : slot.record = some r) :
    Retained (slots.modify i (KeySlot.store { r with state })) live bytes := by
  have hold := h.clean i slot hslot
  have hused := hold.used
  have hrest := hold.rest
  rw [hr] at hused hrest
  refine h.modify hslot (fun r' hr' => ?_) ⟨hold.length, hused, hrest⟩ ?_ ?_
  · rw [← Option.some.inj hr']
    exact h.keyed i slot r hslot hr
  · rw [hr]
    rfl
  · rw [hr]
    rfl

/-- A call goes. -/
theorem release (hr : slot.record = some r) (limit : ℕ) :
    Retained (slots.modify i fun slot =>
        KeySlot.vacate limit { slot with buffer := zeroFront r.requestBytes slot.buffer })
      (live - 1) (bytes - r.requestBytes) := by
  have hold := h.clean i slot hslot
  have hused := hold.used
  have hrest := hold.rest
  rw [hr] at hused hrest
  have hzero := zeroFront_eq (n := r.requestBytes) (by rw [hold.length]; exact hused) hrest
  have hlive := sum_modify (h := KeySlot.vacate limit) hslot fun _ => 1
  have hbytes := sum_modify (h := KeySlot.vacate limit) hslot (·.requestBytes)
  rw [hr, record_vacate] at hlive hbytes
  rw [← h.live] at hlive
  rw [← h.bytes] at hbytes
  simp only [Option.elim_some, Option.elim_none] at hlive hbytes
  refine h.modify hslot (fun r' hr' => ?_) ⟨?_, ?_, ?_⟩ ?_ ?_
  · rw [record_vacate] at hr'
    cases hr'
  · rw [buffer_vacate]
    rw [hzero, List.length_replicate, hold.length]
  · rw [record_vacate]
    exact Nat.zero_le _
  · rw [buffer_vacate]
    rw [hzero]
    exact fun b hb => List.eq_of_mem_replicate (List.mem_of_mem_drop hb)
  · rw [hr, record_vacate, Option.elim_some, Option.elim_none]
    omega
  · rw [hr, record_vacate]
    simp only [usedBytes, Option.elim_some, Option.elim_none]
    omega

end Retained

/-- The calls that wait in both tables wait for the same key. -/
def Holds (old new : KeySlab PendingCallSnapshot (List UInt8)) : Prop :=
  ∀ i r r' key, old.record i = some r → new.record i = some r' → r'.id = r.id →
    r.state = .waiting key → r'.state = .waiting key

/-- Calls were only removed. -/
def Removes (old new : KeySlab PendingCallSnapshot (List UInt8)) : Prop :=
  ∀ i r, new.record i = some r → old.record i = some r

theorem Removes.holds {old new : KeySlab PendingCallSnapshot (List UInt8)} (h : Removes old new) :
    Holds old new := by
  intro i r r' key hr hr' _ hstate
  rwa [← Option.some.inj (hr.symm.trans (h i r' hr'))]

/-! ## Operations

Every operation keeps the accounts and the buffers, whether it is accepted or rejected, and leaves
waiting calls alone; `resolve` ends the wait of one call, when it is for the key of the completion. -/

namespace PendingCallTable

variable {s t : PendingCallTable} {operation : PendingOperationId} {r : PendingCallSnapshot} {i : ℕ}
  {R : PendingCallError → PendingCallTable → Prop} {state : PendingCallState}
  {Q : Unit → PendingCallTable → Prop} {reason : WakeReason} {granted : Bool}

/-- The table agrees with its counters. -/
abbrev Consistent (table : PendingCallTable) : Prop :=
  Retained table.slots table.stats.live table.stats.retainedBytes

/-- The accounts are kept and waiting calls are left alone. -/
structure Keeps (old new : PendingCallTable) : Prop where
  consistent : Consistent new
  holds : Holds old.slots new.slots

theorem Consistent.keeps (h : Consistent s) : Keeps s s := ⟨h, Removes.holds fun _ _ hr => hr⟩

theorem validateOperation_eq_ok (h : s.validateOperation operation = .ok i) :
    i = operation.slot ∧ ∃ slot r, s.slots[i]? = some slot ∧ slot.record = some r ∧
      r.id = operation := by
  unfold validateOperation at h
  simp only [ok_rules, Bool.not_eq_false] at h
  obtain ⟨_, hvalid, hi⟩ := h
  cases hi
  obtain ⟨slot, hslot, hcheck⟩ := (Option.any_eq_true _ _).mp hvalid
  rw [Bool.and_eq_true] at hcheck
  obtain ⟨r, hr, hid⟩ := (Option.any_eq_true _ _).mp hcheck.2
  exact ⟨rfl, slot, r, hslot, hr, of_decide_eq_true hid⟩

theorem record_eq_ok (h : s.record operation = .ok r) :
    ∃ slot, s.slots[operation.slot]? = some slot ∧ slot.record = some r ∧ r.id = operation := by
  unfold record at h
  simp only [ok_rules] at h
  obtain ⟨i, hvalid, hr⟩ := h
  obtain ⟨rfl, slot, r', hslot, hr', hid⟩ := validateOperation_eq_ok hvalid
  obtain rfl := Option.some.inj (hr.symm.trans ((record_of_slot hslot).trans hr'))
  exact ⟨slot, hslot, hr', hid⟩

/-! ## Changes of state -/

theorem wp_setState (hs : Consistent s) (h : s.record operation = .ok r)
    (hQ : ∀ t, Consistent t → (∀ j, t.slots.record j
      = if j = operation.slot then some { r with state } else s.slots.record j) → Q () t) :
    (setState operation r state).wp Q R s := by
  obtain ⟨slot, hslot, hr, -⟩ := record_eq_ok h
  unfold setState
  exact hQ _ (Retained.setState hs hslot hr) (record_modify _ hslot)

/-- A new call changes its state, and nothing else changes. -/
theorem keeps_of_new (h : s.record operation = .ok r)
    (hnew : r.state = .new) (hconsistent : Consistent t)
    (hrecord : ∀ j, t.slots.record j
      = if j = operation.slot then some { r with state } else s.slots.record j) : Keeps s t := by
  refine ⟨hconsistent, fun j x x' key hx hx' _ hstate => ?_⟩
  obtain ⟨slot, hslot, hr, -⟩ := record_eq_ok h
  rw [hrecord] at hx'
  by_cases hj : j = operation.slot
  · rw [hj, record_of_slot hslot, hr, Option.some.injEq] at hx
    rw [← hx, hnew] at hstate
    cases hstate
  · rw [if_neg hj, hx, Option.some.injEq] at hx'
    rwa [← hx']

variable (hs : Consistent s)
include hs

/-- Only a new call can start to wait. -/
theorem wp_bindWait {wait : WaitKey} : (bindWait operation wait).always (Keeps s) s := by
  simp only [bindWait, wp_quiet, Consistent.keeps hs, ne_eq, not_not]
  intro r hr hnew
  exact wp_setState hs hr fun t ht hrecord => keeps_of_new hr hnew ht hrecord

/-- Only a new call is ready at once. -/
theorem wp_markReady : (markReady operation reason).always (Keeps s) s := by
  simp only [markReady, wp_quiet, Consistent.keeps hs, ne_eq, not_not]
  intro r hr hnew
  exact wp_setState hs hr fun t ht hrecord => keeps_of_new hr hnew ht hrecord

/-- `resolve` makes the call of the completion ready, which waited for the key of the completion. -/
theorem wp_resolve {completion : WaitCompletion} :
    (resolve completion).wp
      (fun _ t => Consistent t ∧ ∃ r, s.slots.record completion.operation.slot = some r ∧
        r.id = completion.operation ∧ r.owner = completion.owner ∧
        r.state = .waiting completion.key ∧ ∀ j, t.slots.record j
          = if j = completion.operation.slot then some { r with state := .ready completion.reason }
            else s.slots.record j)
      (fun _ t => t = s) s := by
  unfold resolve
  simp only [wp_quiet]
  intro r h hmatch
  rw [not_or, not_not, not_not] at hmatch
  obtain ⟨slot, hslot, hr, hid⟩ := record_eq_ok h
  exact wp_setState hs h fun t ht hrecord =>
    ⟨ht, r, (record_of_slot hslot).trans hr, hid, hmatch.1, hmatch.2, hrecord⟩

/-! ## Calls that come and go -/

theorem wp_freeSlot {Q : ℕ → PendingCallTable → Prop} (hR : ∀ e, R e s)
    (hQ : ∀ i slot t, Consistent t → t.stats = s.stats →
      (∀ j, t.slots.record j = s.slots.record j) → t.slots[i]? = some slot →
      slot.record = none → Q i t) : (freeSlot granted).wp Q R s := by
  unfold freeSlot
  rw [Act.wp_bind, Act.wp_get]
  cases hvacancy : s.slots.vacancy with
  | some i =>
    obtain ⟨slot, hslot, hempty, -⟩ := vacancy_eq_some hvacancy
    exact hQ i slot s hs rfl (fun _ => rfl) hslot hempty
  | none =>
    simp only [wp_quiet, hR]
    intro _ _
    exact hQ _ _ _ (Retained.append hs) rfl (record_append rfl)
      ((slot_append _ _).trans (if_pos rfl)) rfl

theorem wp_beginFor {owner : PendingCaller} {requestId handle opcode replyCapacity : ℕ}
    {request : List UInt8} :
    (beginFor owner requestId handle opcode request replyCapacity granted).always (Keeps s) s := by
  have hrefl := Consistent.keeps hs
  simp only [beginFor, wp_quiet, hrefl, not_or, Nat.not_lt]
  intro hsize _ _ _ bytes hbytes _
  obtain ⟨-, rfl⟩ := checkedAdd_eq_some.mp hbytes
  refine wp_freeSlot hs (fun _ => hrefl) fun i slot t ht hstats hsame hslot hempty => ?_
  have hremoves : Removes s.slots t.slots := fun j r hr => (hsame j).symm.trans hr
  have hmax : maxPendingRequestBytes < 2 ^ 16 := by decide
  unfold retain
  simp only [wp_known, hslot]
  refine ⟨fun live hlive => ⟨fun _ => ⟨ht, hremoves.holds⟩, fun _ => ⟨fun hlong => ?_, fun _ =>
    ⟨fun hlong => ?_, fun _ => ?_⟩⟩⟩, fun _ => ⟨ht, hremoves.holds⟩⟩
  · omega
  · omega
  · obtain ⟨-, rfl⟩ := checkedAdd_eq_some.mp hlive
    refine ⟨?_, fun j x x' key hx hx' _ hstate => ?_⟩
    · rw [List.modify_modify_eq, ← hstats]
      exact Retained.retain ht hslot hempty rfl rfl hsize.1
    · -- the slot of the new call was free
      have hne : j ≠ i := by
        rintro rfl
        cases ((hsame j).trans hx).symm.trans ((record_of_slot hslot).trans hempty)
      rw [List.modify_modify_eq, record_modify _ hslot, if_neg hne, hsame, hx,
        Option.some.injEq] at hx'
      rwa [← hx']

theorem wp_releaseIndex {terminal : Bool} (hr : s.slots.record i = some r) (hR : ∀ e, R e s)
    (hQ : ∀ t, Consistent t → Removes s.slots t.slots → Q () t) :
    (releaseIndex i r terminal).wp Q R s := by
  obtain ⟨slot, hslot, hrecord⟩ := record_eq_some hr
  simp only [releaseIndex, wp_quiet, hR]
  intro live hlive bytes hbytes _ _ _ _ _ _
  obtain ⟨-, rfl⟩ := checkedSub_eq_some.mp hlive
  obtain ⟨-, rfl⟩ := checkedSub_eq_some.mp hbytes
  refine hQ _ (Retained.release hs hslot hrecord maxGeneration) fun j x hx => ?_
  rw [record_modify _ hslot, record_vacate] at hx
  split at hx
  · cases hx
  · exact hx

theorem wp_finish : (finish operation).always (Keeps s) s := by
  have hrefl := Consistent.keeps hs
  simp only [finish, wp_quiet, hrefl]
  intro i _ r hr _ _
  exact wp_releaseIndex hs hr (fun _ => hrefl) fun t ht hremoves => ⟨ht, hremoves.holds⟩

theorem wp_teardownOwner {owner : TaskId} : (teardownOwner owner reason).always (Keeps s) s := by
  have hrefl := Consistent.keeps hs
  simp only [teardownOwner, wp_quiet, hrefl]
  intro _ count _ _ _ _ _ _ _ _ _ _ _
  refine Act.wp_forEach (fun _ t => Consistent t ∧ Removes s.slots t.slots)
    ⟨hs, fun _ _ hr => hr⟩ (fun _ i t _ ht => ?_) fun t ht => ⟨ht.1, ht.2.holds⟩
  unfold teardownIf
  rw [Act.wp_bind, Act.wp_get]
  cases hr : t.slots.record i with
  | none => exact ht
  | some r =>
    rw [Act.wp_ite]
    refine ⟨fun _ => ht, fun _ => ?_⟩
    exact wp_releaseIndex ht.1 hr (fun _ => ⟨ht.1, ht.2.holds⟩) fun t' ht' hremoves =>
      ⟨ht', fun j x hx => ht.2 j x (hremoves j x hx)⟩

end PendingCallTable

end Troe.Task
