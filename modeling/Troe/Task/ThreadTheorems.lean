import Troe.Task.ThreadAdmission

/-!
# Runs of the thread table

A run makes calls on a new table, whatever they answer. In every state of a run at most one thread
runs, the accounts are within their quotas and joins match; an identity that was reaped stays
rejected, and a result that was consumed stays consumed.
-/

namespace Troe.Task

open Lib
open List (mem_singleton)
open Act (wp_bind)

/-- A call on the thread table, stopping a process included. -/
inductive TableCall where
  | call (c : ThreadCall)
  | stopProcess (owner : ProcessId)

/-- The identities a call is about. -/
def ThreadCall.names : ThreadCall → List ThreadId
  | registerProcess _ _ | prepareInitial _ _ | removeProcess _ => []
  | prepareWorker _ creator _ => [creator]
  | start _ id | abortPrepared _ id | dispatch _ id | yieldRunning _ id | block _ id => [id]
  | requestStop _ id | beginExit _ id | complete _ id _ | detach _ id => [id]
  | releaseResources _ id | reap _ id => [id]
  | startWorker _ creator target | abortWorker _ creator target => [creator, target]
  | wake _ wait => [wait.thread]
  | claimJoin _ caller target => [caller, target]
  | joinResult _ claim | cancelJoin _ claim => [claim.caller, claim.target]

namespace TableCall

/-- Perform a call. -/
def perform : TableCall → ThreadAct ThreadReply
  | call c => c.perform
  | stopProcess owner => do
    ThreadTable.stopProcess owner
    return .done

/-- The identities a call is about. -/
def names : TableCall → List ThreadId
  | call c => c.names
  | stopProcess _ => []

end TableCall

namespace ThreadTable

variable {self table : ThreadTable} {id : ThreadId} {owner : ProcessId} {self' : ThreadTable}
  {α : Type} {u : Unit} {claim : JoinClaim} {target : ThreadId} {result : ℕ}

/-! ## Steps -/

/-- A call on the table is accepted and advances it, or is rejected and changes nothing. -/
theorem perform_safe (h : Lifecycle self) (c : TableCall) : Safe c.perform self := by
  cases c with
  | stopProcess => exact wp_bind.mpr (stopProcess_safe h)
  | call c =>
    cases c with
    | registerProcess => exact wp_bind.mpr (registerProcess_safe h)
    | prepareInitial => exact wp_bind.mpr (prepareInitial_safe h)
    | prepareWorker => exact wp_bind.mpr (prepareWorker_safe h)
    | start => exact wp_bind.mpr (start_safe h)
    | startWorker => exact wp_bind.mpr (startWorker_safe h)
    | abortWorker => exact wp_bind.mpr (abortWorker_safe h)
    | abortPrepared => exact wp_bind.mpr (abortPrepared_safe h)
    | dispatch => exact wp_bind.mpr (dispatch_safe h)
    | yieldRunning => exact wp_bind.mpr (yieldRunning_safe h)
    | block => exact wp_bind.mpr (block_safe h)
    | wake => exact wp_bind.mpr (wake_safe h)
    | requestStop => exact wp_bind.mpr (requestStop_safe h)
    | beginExit => exact wp_bind.mpr (beginExit_safe h)
    | complete => exact wp_bind.mpr (complete_safe h)
    | claimJoin => exact wp_bind.mpr (claimJoin_safe h)
    | joinResult => exact wp_bind.mpr (joinResult_safe h)
    | cancelJoin => exact wp_bind.mpr (cancelJoin_safe h)
    | detach => exact wp_bind.mpr (detach_safe h)
    | releaseResources => exact wp_bind.mpr (releaseResources_safe h)
    | reap => exact wp_bind.mpr (reap_safe h)
    | removeProcess => exact wp_bind.mpr (removeProcess_safe h)

/-- Every call of the table keeps the invariant and only ages it. -/
theorem perform_advances (h : Lifecycle self) (c : TableCall) :
    Advances self (c.perform self).2 := by
  refine Act.snd_of_wp (Act.wp_mono (perform_safe h c) (fun _ _ hadv => hadv) fun _ _ heq => ?_)
  rw [heq]
  exact h.advances_refl

/-! ## Runs -/

/-- The table after a list of calls. -/
def run (calls : List TableCall) (table : ThreadTable) : ThreadTable :=
  calls.foldl (fun self c => (c.perform self).2) table

/-- So does every run. -/
theorem run_advances (h : Lifecycle table) (calls : List TableCall) :
    Advances table (run calls table) := by
  induction calls generalizing table with
  | nil => exact h.advances_refl
  | cons c calls ih =>
    have hstep := perform_advances h c
    have hrest := ih hstep.lifecycle
    exact ⟨hrest.lifecycle, hstep.ages.trans hrest.ages⟩

/-- A new table has no threads. -/
theorem Lifecycle.new {processes threads pages maxMetadataBytes requestedBytes retainedBytes : ℕ}
    {granted : Bool} (hnew : ThreadTable.new processes threads pages maxMetadataBytes requestedBytes
      retainedBytes granted = .ok table) : Lifecycle table := by
  unfold ThreadTable.new at hnew
  simp only [ok_rules] at hnew
  obtain ⟨_, -, _, -, _, -, _, -, _, -, hnew⟩ := hnew
  cases hnew
  have hvalue : ∀ k, (GenSlab.empty threads : GenSlab Record).value k = none :=
    GenSlab.value_empty threads
  have hzero : ∀ f : Record → ℕ, (GenSlab.empty threads : GenSlab Record).sum f = 0 := by
    intro f
    refine GenSlab.sum_eq_zero fun k r hr => ?_
    cases (hvalue k).symm.trans hr
  have hnone : ∀ t r, ¬ ((GenSlab.empty threads : GenSlab Record).value t.slot).filter
      (fun x : Record => decide (x.snapshot.id = t)) = some r := by
    intro t r hr
    rw [hvalue] at hr
    cases hr
  have hslot : ∀ i p, ¬ slotAt (List.replicate processes (none : Option ThreadProcess)) i = some p := by
    intro i p hp
    rw [slotAt_replicate] at hp
    cases hp
  refine ⟨fun k r hr => ?_, fun i j p p' hp => absurd hp (hslot i p),
    fun t r hr => absurd hr (hnone t r), fun i p hp => absurd hp (hslot i p), ?_,
    fun t t' r r' hr => absurd hr (hnone t r), fun t t' r r' hr => absurd hr (hnone t r),
    ⟨fun t r c hr => absurd hr (hnone t r), fun t r c hr => absurd hr (hnone t r),
      fun t r hr => absurd hr (hnone t r)⟩⟩
  · cases (hvalue k).symm.trans hr
  · rw [hzero]
    exact Nat.zero_le _

/-! ## Identities that are gone -/

/-- An identity of the past that is not found. -/
structure Gone (id : ThreadId) (table : ThreadTable) : Prop where
  find : table.find id = none
  generation : id.generation ≤ table.slots.generation id.slot

/-- What is gone does not come back. -/
theorem Gone.ages (h : Gone id self) (hages : Ages self self') : Gone id self' := by
  refine ⟨?_, Nat.le_trans h.generation (hages.generation _)⟩
  cases hr : self'.find id with
  | none => rfl
  | some r' =>
    obtain ⟨r, hfind, -⟩ := hages.find id r' hr h.generation
    cases h.find.symm.trans hfind

/-- A reaped identity is gone. -/
theorem reap_gone {reply : ThreadReply} (h : Lifecycle self)
    (hreap : (TableCall.perform (.call (.reap owner id)) self).1 = .ok reply) :
    Gone id (TableCall.perform (.call (.reap owner id)) self).2 := by
  have hwp : (TableCall.perform (.call (.reap owner id))).wp (fun _ => Gone id) (fun _ _ => True)
      self :=
    wp_bind.mpr (wp_reap h (fun _ => trivial) fun _ _ _ hnone hle => ⟨hnone, hle⟩)
  exact Act.of_wp_ok hwp hreap

/-- A call is rejected. -/
def Refused {α : Type} (x : ThreadAct α) (self : ThreadTable) : Prop :=
  x.wp (fun _ _ => False) (fun _ _ => True) self

theorem not_record_ok {r : Record} (hgone : self.find id = none) :
    ¬ self.record owner id = .ok r := by
  rw [record_eq_ok, hgone]
  rintro ⟨-, hr⟩
  cases hr

/-- A call that begins with a check that fails. -/
theorem refused_of_check {β : Type} {check : ThreadTable → Except ThreadError α}
    {rest : α → ThreadTable → ThreadAct β} (h : ∀ a, ¬ check self = .ok a) :
    Refused (do
      let self ← .get
      let a ← .ofExcept (check self)
      rest a self) self := by
  unfold Refused
  simp only [wp_quiet]
  exact fun a ha => absurd ha (h a)

theorem not_requireRunning_ok (hgone : self.find id = none) :
    ¬ self.requireRunning owner id = .ok u := by
  rw [requireRunning_eq_ok, hgone]
  rintro ⟨-, r, hr, -⟩
  cases hr

theorem not_validateClaim_ok
    (hgone : self.find claim.caller = none ∨ self.find claim.target = none) :
    ¬ self.validateClaim owner claim = .ok u := by
  intro h
  obtain ⟨-, -, rc, rt, hc, -, ht, -⟩ := validateClaim_eq_ok h
  rcases hgone with hgone | hgone
  · cases hgone.symm.trans hc
  · cases hgone.symm.trans ht

theorem not_validateJoin_ok {caller : ThreadId}
    (hgone : self.find caller = none ∨ self.find target = none) :
    ¬ self.validateJoin owner caller target = .ok u := by
  intro h
  obtain ⟨-, -, -, rc, rt, hc, -, ht, -⟩ := validateJoin_eq_ok h
  rcases hgone with hgone | hgone
  · cases hgone.symm.trans hc
  · cases hgone.symm.trans ht

theorem not_validatePreparedChild_ok {creator : ThreadId}
    (hgone : self.find creator = none ∨ self.find target = none) :
    ¬ self.validatePreparedChild owner creator target = .ok u := by
  intro h
  unfold validatePreparedChild validateRunning at h
  simp only [ok_rules, requireRunning_eq_ok, record_eq_ok] at h
  obtain ⟨_, ⟨_, _, _, _, _, rc, hc, -⟩, rt, ⟨-, ht⟩, -⟩ := h
  rcases hgone with hgone | hgone
  · cases hgone.symm.trans hc
  · cases hgone.symm.trans ht

section

variable (hgone : self.find id = none)
include hgone

theorem refused_transition {source target : ThreadState} :
    Refused (transition owner id source target) self :=
  refused_of_check fun _ => not_record_ok hgone

theorem refused_updateRecord {f : Record → Record} : Refused (updateRecord owner id f) self :=
  refused_of_check fun _ => not_record_ok hgone

theorem refused_start : Refused (start owner id) self := by
  unfold Refused start
  simp only [wp_quiet]
  exact fun _ _ _ => refused_transition hgone

theorem refused_dispatch : Refused (dispatch owner id) self := by
  unfold Refused dispatch
  simp only [wp_quiet]
  exact fun _ _ _ _ _ => refused_transition hgone

theorem refused_complete : Refused (complete owner id result) self := by
  unfold Refused complete
  rw [wp_bind]
  exact Act.wp_ok_mono (refused_transition hgone) fun _ _ h => h.elim

/-- One of two identities is not found. -/
theorem gone_of_mem {t t' : ThreadId} (hid : id ∈ [t, t']) :
    self.find t = none ∨ self.find t' = none := by
  rcases List.mem_pair.mp hid with rfl | rfl
  · exact .inl hgone
  · exact .inr hgone

/-- Calls about an identity that is not found are rejected. -/
theorem refused_of_names {c : ThreadCall} (hid : id ∈ c.names) : Refused c.perform self := by
  cases c with
  | registerProcess | prepareInitial | removeProcess => cases hid
  | prepareWorker | block | beginExit =>
    obtain rfl := mem_singleton.mp hid
    exact wp_bind.mpr (refused_of_check fun _ => not_requireRunning_ok hgone)
  | start =>
    obtain rfl := mem_singleton.mp hid
    exact wp_bind.mpr (refused_start hgone)
  | startWorker | abortWorker =>
    exact wp_bind.mpr (refused_of_check fun _ =>
      not_validatePreparedChild_ok (gone_of_mem hgone hid))
  | abortPrepared | wake | detach | releaseResources | reap =>
    obtain rfl := mem_singleton.mp hid
    exact wp_bind.mpr (refused_of_check fun _ => not_record_ok hgone)
  | dispatch =>
    obtain rfl := mem_singleton.mp hid
    exact wp_bind.mpr (refused_dispatch hgone)
  | yieldRunning =>
    obtain rfl := mem_singleton.mp hid
    exact wp_bind.mpr (refused_transition hgone)
  | requestStop =>
    obtain rfl := mem_singleton.mp hid
    exact wp_bind.mpr (refused_updateRecord hgone)
  | complete =>
    obtain rfl := mem_singleton.mp hid
    exact wp_bind.mpr (refused_complete hgone)
  | claimJoin =>
    exact wp_bind.mpr (refused_of_check fun _ => not_validateJoin_ok (gone_of_mem hgone hid))
  | joinResult | cancelJoin =>
    exact wp_bind.mpr (refused_of_check fun _ => not_validateClaim_ok (gone_of_mem hgone hid))

end

/-- A rejected call has an error for an answer. -/
theorem Refused.error {x : ThreadAct α} (h : Refused x self) : ∃ e, (x self).1 = .error e :=
  Act.fst_eq_error h

/-! ## Results that are consumed -/

/-- An identity of the past whose result was consumed. -/
structure Spent (id : ThreadId) (table : ThreadTable) : Prop where
  joined : ∀ r, table.find id = some r → r.joined = true
  generation : id.generation ≤ table.slots.generation id.slot

theorem Spent.ages (h : Spent id self) (hages : Ages self self') : Spent id self' := by
  refine ⟨fun r' hr' => ?_, Nat.le_trans h.generation (hages.generation _)⟩
  obtain ⟨r, hr, hjoined⟩ := hages.find id r' hr' h.generation
  exact hjoined (h.joined r hr)

theorem Spent.refused (hself : Lifecycle self) (h : Spent claim.target self) :
    Refused (TableCall.perform (.call (.joinResult owner claim))) self := by
  refine wp_bind.mpr (refused_of_check fun _ hvalid => ?_)
  obtain ⟨-, -, rc, rt, -, -, ht, hin⟩ := validateClaim_eq_ok hvalid
  -- a consumed result has no claim on it
  have hnone := hself.joins.joined _ rt ht (h.joined rt ht)
  cases hnone.symm.trans hin

/-- A result that was handed over is spent. -/
theorem joinResult_spent (h : Lifecycle self)
    (hjoin : (TableCall.perform (.call (.joinResult owner claim)) self).1
      = .ok (.joined (some result))) :
    Spent claim.target (TableCall.perform (.call (.joinResult owner claim)) self).2 := by
  have hwp : (TableCall.perform (.call (.joinResult owner claim))).wp
      (fun reply self' => ∀ result, reply = .joined (some result) → Spent claim.target self')
      (fun _ _ => True) self := by
    refine wp_bind.mpr (wp_joinResult h (fun _ => trivial) ?_
      fun result r' self' hadv hr' hjoined => ?_)
    · intro result hreply
      cases hreply
    · intro _ _
      refine ⟨fun x hx => ?_, ?_⟩
      · rwa [← Option.mem_unique hr' hx]
      · obtain ⟨hvalue, hid⟩ := find_eq_some hr'
        rw [← (hadv.lifecycle.slot _ r' hvalue).2, hid]
  exact Act.of_wp_ok hwp hjoin result rfl

/-! ## The lifecycle over whole runs -/

/-- The pages of the unreleased threads among some records. -/
def unreleasedPages (records : List Record) : ℕ :=
  ((records.filter (·.snapshot.resourcesReleased = false)).map (·.resources.pages)).sum

theorem unreleasedPages_eq (records : List Record) : unreleasedPages records
    = (records.map fun r => if r.snapshot.resourcesReleased then 0 else r.resources.pages).sum := by
  induction records with
  | nil => rfl
  | cons r records ih =>
    unfold unreleasedPages at ih ⊢
    rw [List.map_cons, List.sum_cons, ← ih]
    cases hr : r.snapshot.resourcesReleased <;> simp [hr]

/-- In every state of a run of a new table, at most one thread runs, the committed pages are those
of the unreleased threads and within the quotas, no two unreleased threads share a reservation and
joins match. A reaped identity is rejected for ever after, a result is consumed at most once, and a
rejected call changes nothing. -/
theorem threads_keep_lifecycle
    {processes threads pages maxMetadataBytes requestedBytes retainedBytes : ℕ} {granted : Bool}
    (hnew : ThreadTable.new processes threads pages maxMetadataBytes requestedBytes retainedBytes
      granted = .ok table) (calls : List TableCall) :
    let now := run calls table
    OneRuns now.find ∧
    (∀ owner, (now.usage owner).2
      = unreleasedPages (now.records.filter (·.snapshot.id.process = owner))) ∧
    (∀ process ∈ now.liveProcesses, (now.usage process.id).2 ≤ process.quota.pages) ∧
    now.committedPages = unreleasedPages now.records ∧ now.committedPages ≤ pages ∧
    (∀ t t' r r', now.find t = some r → now.find t' = some r' →
      r.snapshot.resourcesReleased = false → r'.snapshot.resourcesReleased = false →
      r.resources.reservation = r'.resources.reservation → t = t') ∧
    Joins now.find ∧
    (∀ owner claim result, (TableCall.perform (.call (.joinResult owner claim)) now).1
        = .ok (.joined (some result)) →
      ∀ later owner' claim', claim'.target = claim.target →
        ∃ e, (TableCall.perform (.call (.joinResult owner' claim'))
          (run (.call (.joinResult owner claim) :: later) now)).1 = .error e) ∧
    (∀ owner id reply, (TableCall.perform (.call (.reap owner id)) now).1 = .ok reply →
      ∀ later c, id ∈ TableCall.names c →
        ∃ e, (c.perform (run (.call (.reap owner id) :: later) now)).1 = .error e) ∧
    ∀ (c : TableCall) e, (c.perform now).1 = .error e → (c.perform now).2 = now := by
  intro now
  have hinit := Lifecycle.new hnew
  have hadv := run_advances hinit calls
  have hnow : Lifecycle now := hadv.lifecycle
  refine ⟨hnow.running, fun owner => ?_, fun p hp => ?_, rfl, ?_, hnow.reservations, hnow.joins,
    fun owner claim result hjoin later owner' claim' htarget => ?_,
    fun owner id reply hreap later c hid => ?_, fun c e herror => ?_⟩
  · rw [unreleasedPages_eq]
    rfl
  · obtain ⟨i, hi⟩ := mem_liveProcesses.mp hp
    rw [usage_snd]
    exact hnow.quota i p hi
  · rw [committedPages_eq]
    have hlimit := hnow.limit
    rw [hadv.ages.pageLimit] at hlimit
    unfold ThreadTable.new at hnew
    simp only [ok_rules] at hnew
    obtain ⟨_, -, _, -, _, -, _, -, _, -, hnew⟩ := hnew
    cases hnew
    exact hlimit
  · have hstep := perform_advances hnow (.call (.joinResult owner claim))
    have hlater := run_advances hstep.lifecycle later
    have hspent := (joinResult_spent hnow hjoin).ages hlater.ages
    rw [← htarget] at hspent
    exact (hspent.refused hlater.lifecycle).error
  · have hstep := perform_advances hnow (.call (.reap owner id))
    have hlater := run_advances hstep.lifecycle later
    have hgone := (reap_gone hnow hreap).ages hlater.ages
    cases c with
    | call c => exact (refused_of_names hgone.find hid).error
    | stopProcess owner => cases hid
  · obtain ⟨-, hrejected⟩ := Act.wp_iff.mp (perform_safe hnow c)
    exact hrejected e _ (Prod.ext herror rfl)

/-! ### A worker that is joined -/

def sampleMain : ThreadId := { process := 7, slot := 0, generation := 1 }

def sampleWorker : ThreadId := { process := 7, slot := 1, generation := 1 }

def sampleClaim : JoinClaim := { caller := sampleMain, target := sampleWorker, sequence := 1 }

/-- A worker exits with a result while the thread that created it joins it. -/
def sampleCalls : List TableCall :=
  [.call (.registerProcess 7 { records := 2, pages := 4 }),
    .call (.prepareInitial 7 { reservation := 1, pages := 1 }), .call (.start 7 sampleMain),
    .call (.dispatch 7 sampleMain),
    .call (.prepareWorker 7 sampleMain { reservation := 2, pages := 3 }),
    .call (.startWorker 7 sampleMain sampleWorker),
    .call (.claimJoin 7 sampleMain sampleWorker), .call (.block 7 sampleMain),
    .call (.dispatch 7 sampleWorker), .call (.beginExit 7 sampleWorker),
    .call (.complete 7 sampleWorker 42), .call (.releaseResources 7 sampleWorker)]

/-- The table of the sample run. -/
def sampleTable : ThreadTable :=
  { processes := [none], slots := GenSlab.empty 2, pageLimit := 4, nextJoin := 1,
    maxProcessThreads := 2, processCursor := 0, dispatchSequence := 0, activeDispatch := none,
    dispatchClock := none }

/-- The result of the worker is consumed once. -/
theorem threads_keep_lifecycle_sample :
    (TableCall.perform (.call (.joinResult 7 sampleClaim)) (run sampleCalls sampleTable)).1
      = .ok (.joined (some 42)) ∧
    ∃ e, (TableCall.perform (.call (.joinResult 7 sampleClaim))
      (run [.call (.joinResult 7 sampleClaim), .call (.reap 7 sampleWorker)]
        (run sampleCalls sampleTable))).1 = .error e := by
  have hjoin : (TableCall.perform (.call (.joinResult 7 sampleClaim))
      (run sampleCalls sampleTable)).1 = .ok (.joined (some 42)) := by decide +kernel
  have hnew : ThreadTable.new 1 2 4 0 0 0 true = .ok sampleTable := rfl
  obtain ⟨-, -, -, -, -, -, -, hconsumed, -, -⟩ := threads_keep_lifecycle hnew sampleCalls
  exact ⟨hjoin, hconsumed 7 sampleClaim 42 hjoin _ 7 sampleClaim rfl⟩

end ThreadTable

end Troe.Task
