import Troe.Task.PendingInvariant

/-!
# Runs of the wait table and the pending-call table

A run makes calls on two new tables, whatever they answer. Waits are resolved at most once, a key
that was resolved stays rejected, and a call leaves its wait only by the key it is bound to.
-/

namespace Troe.Task

open Lib KeySlab
open Act (snd_of_wp wp_bind wp_mono wp_ok_mono)

/-- A call on the wait table. -/
inductive WaitCall where
  | register (spec : WaitSpec) (observation : WaitObservation) (now : ℕ) (granted : Bool)
  | wake (key : WaitKey) (reason : WakeReason)
  | wakeResource (resource : WaitResource) (reason : WakeReason) (grants : ℕ → Bool)
  | observeOperation (operation : PendingOperationId) (resource : Option WaitResource)
      (observation : WaitObservation) (now : ℕ)
  | expire (now : ℕ) (grants : ℕ → Bool)
  | cancelOperation (operation : PendingOperationId) (reason : WakeReason)
  | discardOwner (owner : TaskId) (reason : WakeReason)
  | cancelOwner (owner : TaskId) (reason : WakeReason) (grants : ℕ → Bool)

/-- What a call on the wait table answers. -/
inductive WaitReply where
  | registered (registration : WaitRegistration)
  | completed (completions : List WaitCompletion)
  | removed (count : ℕ)

/-- The completions a call hands over. -/
def WaitReply.completions : WaitReply → List WaitCompletion
  | completed completions => completions
  | registered _ | removed _ => []

open WaitTable in
/-- Perform a call on the wait table. -/
def WaitCall.perform : WaitCall → WaitAct WaitReply
  | register spec observation now granted =>
    return .registered (← WaitTable.register spec observation now granted)
  | wake key reason => return .completed [← WaitTable.wake key reason]
  | wakeResource resource reason grants =>
    return .completed (← WaitTable.wakeResource resource reason grants)
  | observeOperation operation resource observation now =>
    return .completed (← WaitTable.observeOperation operation resource observation now).toList
  | expire now grants => return .completed (← WaitTable.expire now grants)
  | cancelOperation operation reason =>
    return .completed (← WaitTable.cancelOperation operation reason).toList
  | discardOwner owner reason => return .removed (← WaitTable.discardOwner owner reason)
  | cancelOwner owner reason grants =>
    return .completed (← WaitTable.cancelOwner owner reason grants)

/-- A call on the pending-call table. -/
inductive PendingCall where
  | beginFor (owner : PendingCaller) (requestId handle opcode : ℕ) (request : List UInt8)
      (replyCapacity : ℕ) (granted : Bool)
  | bindWait (operation : PendingOperationId) (wait : WaitKey)
  | markReady (operation : PendingOperationId) (reason : WakeReason)
  | resolve (completion : WaitCompletion)
  | finish (operation : PendingOperationId)
  | teardownOwner (owner : TaskId) (reason : WakeReason)

/-- What a call on the pending-call table answers. -/
inductive PendingReply where
  | started (id : PendingOperationId)
  | done
  | finished (call : PendingCallSnapshot)
  | removed (count : ℕ)

open PendingCallTable in
/-- Perform a call on the pending-call table. -/
def PendingCall.perform : PendingCall → PendingAct PendingReply
  | beginFor owner requestId handle opcode request replyCapacity granted =>
    return .started (← PendingCallTable.beginFor owner requestId handle opcode request
      replyCapacity granted)
  | bindWait operation wait => do
    PendingCallTable.bindWait operation wait
    return .done
  | markReady operation reason => do
    PendingCallTable.markReady operation reason
    return .done
  | resolve completion => do
    PendingCallTable.resolve completion
    return .done
  | finish operation => return .finished (← PendingCallTable.finish operation)
  | teardownOwner owner reason => return .removed (← PendingCallTable.teardownOwner owner reason)

/-- The two tables of a dispatcher. -/
structure Suspended where
  waits : WaitTable
  calls : PendingCallTable

namespace Suspended

/-- A call on one of the tables. -/
inductive Call where
  | wait (c : WaitCall)
  | pending (c : PendingCall)

/-- The tables after a call, whatever it answers. -/
def step (s : Suspended) : Call → Suspended
  | .wait c => { s with waits := (c.perform s.waits).2 }
  | .pending c => { s with calls := (c.perform s.calls).2 }

/-- The tables after a list of calls. -/
def run (calls : List Call) (s : Suspended) : Suspended := calls.foldl step s

end Suspended

/-! ## Steps -/

namespace WaitTable

variable {s t : WaitTable} {key : WaitKey}

/-- Every call adds events to the history, those of the completions it hands over among them. -/
theorem wp_perform (hs : Consistent s) (c : WaitCall) :
    c.perform.wp (fun reply => Extends reply.completions s) (fun _ => Extends [] s) s := by
  cases c with
  | register spec observation now granted =>
    refine wp_bind.mpr (wp_mono (wp_register hs spec observation now granted)
      (fun reply t ht => ?_) fun _ t ht => ?_)
    · cases reply with
      | ready reason => exact ht.1.grows_of_history (ht.2.trans (List.append_nil _).symm)
      | blocked key => exact ht.1.grows_of_history ht.2.2
    · exact ht.1.grows_of_history (ht.2.trans (List.append_nil _).symm)
  | wake => exact wp_bind.mpr (wp_ok_mono (wp_wake hs) fun _ _ ht => ht.2)
  | wakeResource resource reason grants =>
    exact wp_bind.mpr (wp_mono (wp_wakeResource hs resource reason grants)
      (fun _ _ ht => ht.weaken) fun _ _ ht => ht.weaken)
  | observeOperation => exact wp_bind.mpr (wp_observeOperation hs)
  | expire now grants => exact wp_bind.mpr (wp_resolveAll grants hs fun _ _ => trivial)
  | cancelOperation => exact wp_bind.mpr (wp_cancelOperation hs)
  | discardOwner => exact wp_bind.mpr (wp_discardOwner hs)
  | cancelOwner => exact wp_bind.mpr (wp_cancelOwner hs)

theorem perform_grows (hs : Consistent s) (c : WaitCall) : Extends [] s (c.perform s).2 :=
  snd_of_wp (wp_ok_mono (wp_perform hs c) fun _ _ ht => ht.drop)

/-- A completion is of a wait that was not resolved before. -/
theorem Grows.completion_new {P : WaitEvent → Prop} {completions : List WaitCompletion}
    {completion : WaitCompletion} (h : Grows P completions s t) (hmem : completion ∈ completions) :
    completion.key ∉ resolvedKeys s.history ∧ completion.key ∈ resolvedKeys t.history := by
  obtain ⟨added, hadded, -, hcompletions⟩ := h.events
  obtain ⟨spec, hevent⟩ := hcompletions completion hmem
  have hkey : completion.key ∈ resolvedKeys added := mem_resolvedKeys.mpr ⟨spec, _, hevent⟩
  have hnodup := h.consistent.resolved
  rw [hadded, resolvedKeys_append] at hnodup ⊢
  refine ⟨fun hold => ?_, List.mem_append_right _ hkey⟩
  exact (List.nodup_append.mp hnodup).2.2 _ hold _ hkey rfl

variable (hs : Consistent s)
include hs

/-- `wake_resource` resolves waits of its resource, identity and generation. -/
theorem wakeResource_resource {resource : WaitResource} {reason reason' : WakeReason}
    {grants : ℕ → Bool} {spec : WaitSpec}
    (hmem : .resolved key spec reason' ∈ (wakeResource resource reason grants s).2.history)
    (hkey : key ∉ resolvedKeys s.history) : spec.resource = some resource := by
  have hgrows : Grows (OfResource resource) [] s (wakeResource resource reason grants s).2 :=
    snd_of_wp (wp_ok_mono (wp_wakeResource hs resource reason grants) fun _ _ h => h.drop)
  -- the events that are added are all of waits for the resource
  obtain ⟨added, hadded, hP, -⟩ := hgrows.events
  rw [hadded] at hmem
  rcases List.mem_append.mp hmem with hold | hnew
  · exact absurd (mem_resolvedKeys.mpr ⟨spec, reason', hold⟩) hkey
  · exact hP _ hnew

/-- A key that was resolved is rejected. -/
theorem wake_of_resolved (hkey : key ∈ resolvedKeys s.history) (reason : WakeReason) :
    ∃ e, (wake key reason s).1 = .error e := by
  refine Act.fst_eq_error ?_
  unfold wake
  rw [wp_bind]
  exact wp_validateKey (fun _ _ _ => trivial) fun r hr heq => (hs.key_ne_of_resolved hkey hr heq).elim

/-- Published waits have different keys, different operations and owners that do not conflict. -/
theorem pairwise_of_consistent : s.records.Pairwise fun r r' =>
    r.key ≠ r'.key ∧ r.spec.operation ≠ r'.spec.operation ∧
      r.spec.owner.conflicts r'.spec.owner = false := by
  refine pairwise_records fun i j r r' hij hr hr' => ⟨fun heq => ?_, ?_⟩
  · obtain ⟨slot, hslot, hrecord⟩ := record_eq_some hr
    obtain ⟨slot', hslot', hrecord'⟩ := record_eq_some hr'
    rw [hs.keyed i slot r hslot hrecord, hs.keyed j slot' r' hslot' hrecord', WaitKey.mk.injEq] at heq
    exact Nat.ne_of_lt hij heq.1
  · exact hs.apart i j r r' (Nat.ne_of_lt hij) hr hr'

/-- The keys of the table are the published keys that were not resolved. -/
theorem keys_perm : (s.records.map (·.key)).Perm
    ((publishedKeys s.history).filter (· ∉ resolvedKeys s.history)) := by
  refine (List.perm_ext_iff_of_nodup ?_ (hs.published.filter _)).mpr fun key => ?_
  · rw [List.Nodup, List.pairwise_map]
    exact (pairwise_of_consistent hs).imp fun h => h.1
  · rw [List.mem_filter, decide_eq_true_eq, ← hs.exists_record_iff, List.mem_map]
    constructor
    · rintro ⟨r, hr, hkey⟩
      obtain ⟨i, hi⟩ := mem_records.mp hr
      exact ⟨i, r, hi, hkey⟩
    · rintro ⟨i, r, hr, hkey⟩
      exact ⟨r, mem_records.mpr ⟨i, hr⟩, hkey⟩

theorem live_eq : s.stats.live
    = ((publishedKeys s.history).filter (· ∉ resolvedKeys s.history)).length := by
  rw [← (keys_perm hs).length_eq, List.length_map, hs.live, sum_eq, List.map_const',
    List.sum_replicate_nat]
  exact Nat.mul_one _

end WaitTable

namespace PendingCallTable

variable {s : PendingCallTable}

variable (hs : Consistent s)
include hs

/-- Every call but `resolve` leaves waiting calls alone. -/
theorem wp_perform (c : PendingCall) (hc : ∀ completion, c ≠ .resolve completion) :
    c.perform.always (Keeps s) s := by
  cases c with
  | beginFor => exact wp_bind.mpr (wp_beginFor hs)
  | bindWait => exact wp_bind.mpr (wp_bindWait hs)
  | markReady => exact wp_bind.mpr (wp_markReady hs)
  | resolve completion => exact absurd rfl (hc completion)
  | finish => exact wp_bind.mpr (wp_finish hs)
  | teardownOwner => exact wp_bind.mpr (wp_teardownOwner hs)

/-- `resolve` ends only the wait for the key of the completion. -/
theorem resolve_ready {completion : WaitCompletion} {i : ℕ} {r r' : PendingCallSnapshot}
    {key : WaitKey} {reason : WakeReason} (hr : s.slots.record i = some r)
    (hr' : (PendingCall.perform (.resolve completion) s).2.slots.record i = some r')
    (hwaiting : r.state = .waiting key) (hready : r'.state = .ready reason) :
    completion.key = key ∧ completion.operation = r.id ∧ completion.owner = r.owner ∧
      completion.reason = reason := by
  have hsame : s.slots.record i ≠ some r' := by
    rw [hr, ne_eq, Option.some.injEq]
    rintro rfl
    rw [hwaiting] at hready
    cases hready
  have hwp : (PendingCall.perform (.resolve completion)).always
      (fun t => t.slots.record i = some r' → completion.key = key ∧ completion.operation = r.id ∧
        completion.owner = r.owner ∧ completion.reason = reason) s := by
    refine wp_bind.mpr (wp_mono (wp_resolve hs) (fun _ t ht hx => ?_) fun _ t ht hx => ?_)
    · obtain ⟨-, x, hx0, hid, howner, hstate, hrecord⟩ := ht
      rw [hrecord] at hx
      by_cases hi : i = completion.operation.slot
      · rw [if_pos hi, Option.some.injEq] at hx
        rw [← hi, hr, Option.some.injEq] at hx0
        subst hx0
        subst hx
        rw [hwaiting, PendingCallState.waiting.injEq] at hstate
        exact ⟨hstate.symm, hid.symm, howner.symm, PendingCallState.ready.inj hready⟩
      · rw [if_neg hi] at hx
        exact absurd hx hsame
    · rw [ht] at hx
      exact absurd hx hsame
  exact snd_of_wp hwp hr'

theorem perform_keeps (c : PendingCall) (hc : ∀ completion, c ≠ .resolve completion) :
    Keeps s (c.perform s).2 :=
  snd_of_wp (wp_perform hs c hc)

/-- Calls keep the accounts. -/
theorem perform_consistent (c : PendingCall) : Consistent (c.perform s).2 := by
  by_cases hc : ∃ completion, c = .resolve completion
  · obtain ⟨completion, rfl⟩ := hc
    exact snd_of_wp (wp_bind.mpr (wp_mono (wp_resolve hs) (fun _ _ ht => ht.1)
      fun _ t ht => by rwa [ht]))
  · exact (perform_keeps hs c (not_exists.mp hc)).consistent

end PendingCallTable

/-! ## Runs -/

namespace Suspended

variable {s : Suspended}

/-- Both tables are consistent. -/
structure Consistent (s : Suspended) : Prop where
  waits : s.waits.Consistent
  calls : s.calls.Consistent

theorem Consistent.step (hs : Consistent s) (c : Call) : Consistent (s.step c) := by
  cases c with
  | wait c => exact ⟨(WaitTable.perform_grows hs.waits c).consistent, hs.calls⟩
  | pending c => exact ⟨hs.waits, PendingCallTable.perform_consistent hs.calls c⟩

/-- The history only grows. -/
theorem Consistent.run_history (hs : Consistent s) (calls : List Call) :
    ∃ added, (run calls s).waits.history = s.waits.history ++ added := by
  induction calls generalizing s with
  | nil => exact ⟨[], (List.append_nil _).symm⟩
  | cons c calls ih =>
    obtain ⟨later, hlater⟩ := ih (hs.step c)
    cases c with
    | wait c =>
      obtain ⟨added, hadded, -⟩ := (WaitTable.perform_grows hs.waits c).events
      refine ⟨added ++ later, hlater.trans ?_⟩
      show (c.perform s.waits).2.history ++ later = _
      rw [hadded, List.append_assoc]
    | pending c => exact ⟨later, hlater⟩

theorem Consistent.run (hs : Consistent s) (calls : List Call) : Consistent (run calls s) := by
  induction calls generalizing s with
  | nil => exact hs
  | cons c calls ih => exact ih (hs.step c)

theorem Consistent.new {capacity callCapacity byteCapacity : ℕ} {granted granted' : Bool}
    (hwaits : WaitTable.new capacity granted = .ok s.waits)
    (hcalls : PendingCallTable.new callCapacity byteCapacity granted' = .ok s.calls) :
    Consistent s := by
  refine ⟨WaitTable.consistent_new hwaits, ?_⟩
  simp only [PendingCallTable.new, ok_rules] at hcalls
  obtain ⟨_, -, _, -, _, -, hcalls⟩ := hcalls
  rw [← Except.ok.inj hcalls]
  exact Retained.empty

/-- In every state of a run, keys are published once and resolved at most once, and the completions
a call hands over were not resolved before. A resolved key is rejected for ever after. The live
count is the number of unresolved keys; unresolved waits have different operations and owners that
do not conflict; `wake_resource` resolves waits of its resource and generation only. A call leaves
its wait only through a completion of the key it is bound to, the retained bytes are those of the
live calls, and buffers without a call are zero. -/
theorem waits_resolve_once {capacity callCapacity byteCapacity : ℕ} {granted granted' : Bool}
    (hwaits : WaitTable.new capacity granted = .ok s.waits)
    (hcalls : PendingCallTable.new callCapacity byteCapacity granted' = .ok s.calls)
    (calls : List Call) :
    let now := run calls s
    let published := publishedKeys now.waits.history
    let resolved := resolvedKeys now.waits.history
    (published.Nodup ∧ resolved.Nodup ∧ ∀ key spec reason,
      .resolved key spec reason ∈ now.waits.history → .published key spec ∈ now.waits.history) ∧
    (∀ spec observation time granted key,
      (WaitTable.register spec observation time granted now.waits).1 = .ok (.blocked key) →
        key ∉ published ∧ (WaitTable.register spec observation time granted now.waits).2.history
          = now.waits.history ++ [.published key spec]) ∧
    (∀ (c : WaitCall) reply, (c.perform now.waits).1 = .ok reply → ∀ completion ∈ reply.completions,
      completion.key ∉ resolved ∧ completion.key ∈ resolvedKeys (c.perform now.waits).2.history) ∧
    (∀ key ∈ resolved, ∀ later reason,
      ∃ e, (WaitTable.wake key reason (run later now).waits).1 = .error e) ∧
    now.waits.stats.live = (published.filter (· ∉ resolved)).length ∧
    ((now.waits.records.map (·.key)).Perm (published.filter (· ∉ resolved)) ∧
      now.waits.records.Pairwise fun r r' => r.spec.operation ≠ r'.spec.operation ∧
        r.spec.owner.conflicts r'.spec.owner = false) ∧
    (∀ resource reason grants key spec reason', .resolved key spec reason'
        ∈ (WaitTable.wakeResource resource reason grants now.waits).2.history →
      key ∉ resolved → spec.resource = some resource) ∧
    (∀ (c : Call) i r r' key reason, now.calls.slots.record i = some r →
      (now.step c).calls.slots.record i = some r' → r'.id = r.id →
      r.state = .waiting key → r'.state = .ready reason →
        ∃ completion, c = .pending (.resolve completion) ∧ completion.key = key ∧
          completion.operation = r.id ∧ completion.owner = r.owner ∧
          completion.reason = reason) ∧
    now.calls.stats.retainedBytes = (now.calls.records.map (·.requestBytes)).sum ∧
    ∀ slot ∈ now.calls.slots, slot.record = none →
      slot.buffer = List.replicate maxPendingRequestBytes 0 := by
  intro now published resolved
  have hnow : Consistent now := (Consistent.new hwaits hcalls).run calls
  refine ⟨⟨hnow.waits.published, hnow.waits.resolved, hnow.waits.issued⟩,
    fun spec observation time granted key hblocked => ?_, fun c reply hreply completion hmem => ?_,
    fun key hkey later reason => ?_, WaitTable.live_eq hnow.waits,
    ⟨WaitTable.keys_perm hnow.waits, (WaitTable.pairwise_of_consistent hnow.waits).imp fun h => h.2⟩,
    fun resource reason grants key spec reason' hmem hkey => ?_,
    fun c i r r' key reason hr hr' hid hwaiting hready => ?_, ?_, fun slot hslot hnone => ?_⟩
  · have hwp := WaitTable.wp_register hnow.waits spec observation time granted
    exact (Act.of_wp_ok hwp hblocked).2
  · exact (Act.of_wp_ok (WaitTable.wp_perform hnow.waits c) hreply).completion_new hmem
  · have hlater := hnow.run later
    obtain ⟨added, hadded⟩ := hnow.run_history later
    refine WaitTable.wake_of_resolved hlater.waits ?_ reason
    rw [hadded, resolvedKeys_append]
    exact List.mem_append_left _ hkey
  · exact WaitTable.wakeResource_resource hnow.waits hmem hkey
  · cases c with
    | wait c =>
      rw [← Option.mem_unique hr hr', hwaiting] at hready
      cases hready
    | pending c =>
      by_cases hc : ∃ completion, c = .resolve completion
      · obtain ⟨completion, rfl⟩ := hc
        exact ⟨completion, rfl, PendingCallTable.resolve_ready hnow.calls hr hr' hwaiting hready⟩
      · rw [not_exists] at hc
        have hkeeps := PendingCallTable.perform_keeps hnow.calls c hc
        rw [hkeeps.holds i r r' key hr hr' hid hwaiting] at hready
        cases hready
  · rw [hnow.calls.bytes, sum_eq]
    rfl
  · obtain ⟨i, hi⟩ := List.mem_iff_getElem?.mp hslot
    exact (hnow.calls.clean i slot hi).zero hnone

/-! ### A slot that is reused -/

/-- Two new tables. -/
def sampleTables : Suspended where
  waits := { slots := [], capacity := 1, stats := .default, history := [] }
  calls := { slots := [], capacity := 1, retainedByteCapacity := 64, lastRequestId := 0,
             stats := .default }

/-- A wait for a resource. -/
def sampleSpec : WaitSpec where
  owner := { task := 1, thread := none }
  operation := { slot := 0, generation := 1 }
  resource := some { identity := 5, generation := 1 }
  interests := .resourceReady
  deadline := none

def sampleKey : WaitKey := { slot := 0, generation := 1 }

/-- A wait is published and resolved, and the same wait is published once more. -/
def sampleCalls : List Call :=
  [.wait (.register sampleSpec .pending 0 true),
    .wait (.wakeResource { identity := 5, generation := 1 } .resourceReady fun _ => true),
    .wait (.register sampleSpec .pending 0 true)]

/-- The first key is rejected while the second one is live in the same slot. -/
theorem waits_resolve_once_sample :
    sampleKey ∈ resolvedKeys (run sampleCalls sampleTables).waits.history ∧
    (run sampleCalls sampleTables).waits.records.map (·.key) = [{ slot := 0, generation := 2 }] ∧
    ∃ e, (WaitTable.wake sampleKey .cancelled (run [] (run sampleCalls sampleTables)).waits).1
      = .error e := by
  have hkey : sampleKey ∈ resolvedKeys (run sampleCalls sampleTables).waits.history := by decide
  have hwaits : WaitTable.new 1 true = .ok sampleTables.waits := rfl
  have hcalls : PendingCallTable.new 1 64 true = .ok sampleTables.calls := rfl
  obtain ⟨-, -, -, hstale, -⟩ := waits_resolve_once hwaits hcalls sampleCalls
  exact ⟨hkey, by decide, hstale sampleKey hkey [] .cancelled⟩

end Suspended

end Troe.Task
