import Troe.Task.Thread

/-!
# What the thread table's operations do

Each operation is specified by what it does to the lookup of a thread identity.
-/

namespace Troe.Task

open Lib

/-- A record whose resources were released takes no further part. -/
def Record.Retired (r : Record) : Prop :=
  r.snapshot.resourcesReleased = true → r.syncWait = false ∧ r.ownedMutexes = 0 ∧
    (r.snapshot.state = .completed ∨ r.snapshot.state = .revoked)

/-- A record that waits or runs has its resources. -/
theorem Record.Retired.released_eq_false {r : Record} (h : r.Retired)
    (hr : r.syncWait = true ∨ r.snapshot.state = .running) :
    r.snapshot.resourcesReleased = false := by
  rw [← Bool.not_eq_true]
  intro hreleased
  obtain ⟨hsync, -, hstate⟩ := h hreleased
  rcases hr with hr | hr
  · rw [hsync] at hr
    cases hr
  · rw [hr] at hstate
    simp at hstate

namespace ThreadTable

variable {self self' : ThreadTable} {id : ThreadId} {r : Record}
  {Q : Unit → ThreadTable → Prop} {R : ThreadError → ThreadTable → Prop}

/-- A thread is found in its slot, under its own identity. -/
theorem find_eq_some (h : self.find id = some r) :
    self.slots.value id.slot = some r ∧ r.snapshot.id = id := by
  rw [find, Option.filter_eq_some_iff] at h
  exact ⟨h.1, of_decide_eq_true h.2⟩

/-- A lookup after one slot was written that belongs to the identity before and after. -/
theorem find_of_value {x : Option Record}
    (hold : ∀ r, self.slots.value id.slot = some r → r.snapshot.id = id)
    (hnew : ∀ r, x = some r → r.snapshot.id = id)
    (hvalue : ∀ k, self'.slots.value k = if k = id.slot then x else self.slots.value k)
    (t : ThreadId) : self'.find t = if t = id then x else self.find t := by
  rw [find, hvalue]
  by_cases ht : t = id
  · rw [if_pos (congrArg _ ht), if_pos ht, ht]
    cases x with
    | none => rfl
    | some r => simp [hnew r rfl]
  · have hnone : ∀ y : Option Record, (∀ r, y = some r → r.snapshot.id = id) →
        y.filter (·.snapshot.id = t) = none := by
      intro y hy
      rw [Option.filter_eq_none_iff]
      intro r hr
      simp [hy r hr, Ne.symm ht]
    rw [find]
    split
    next hslot => rw [hslot, hnone x hnew, hnone _ hold]
    · rfl

variable {owner : ProcessId}

/-- `record` checks the process and looks the thread up. -/
theorem record_eq_ok :
    self.record owner id = .ok r ↔ id.process = owner ∧ self.find id = some r := by
  unfold record
  simp only [ok_rules, ne_eq, not_not]
  tauto

/-- A thread that may call neither waits nor is blocked. -/
theorem requireRunning_eq_ok {u : Unit} :
    self.requireRunning owner id = .ok u ↔ id.process = owner ∧ ∃ r, self.find id = some r ∧
      r.syncWait = false ∧ r.controlWait = false ∧ r.snapshot.state = .running := by
  unfold requireRunning
  simp only [ok_rules, record_eq_ok, ne_eq, not_not, not_or, Bool.not_eq_true]
  constructor
  · rintro ⟨r, ⟨hprocess, hfind⟩, -, ⟨hsync, hcontrol⟩, hstate⟩
    exact ⟨hprocess, r, hfind, hsync, hcontrol, hstate⟩
  · rintro ⟨hprocess, r, hfind, hsync, hcontrol, hstate⟩
    exact ⟨r, ⟨hprocess, hfind⟩, (), ⟨hsync, hcontrol⟩, hstate⟩

/-- A write to one record is seen through its own identity only. -/
theorem wp_updateRecord {f : Record → Record} (h : self.find id = some r)
    (hf : (f r).snapshot.id = r.snapshot.id)
    (hQ : ∀ self', (∀ t, self'.find t = if t = id then some (f r) else self.find t) →
      self'.slots.generation = self.slots.generation → Q () self') :
    (updateRecord id.process id f).wp Q R self := by
  obtain ⟨hvalue, hid⟩ := find_eq_some h
  have hlt := GenSlab.lt_length_of_value hvalue
  have hrecord : self.record id.process id = .ok r := record_eq_ok.mpr ⟨rfl, h⟩
  simp only [updateRecord, wp_quiet, hrecord, Except.ok.injEq, reduceCtorEq, false_imp_iff,
    forall_eq']
  refine hQ _ (find_of_value (fun x hx => ?_) (fun x hx => ?_) (GenSlab.value_put hlt _))
    (funext fun _ => GenSlab.generation_put _ _)
  · rw [← Option.mem_unique hvalue hx, hid]
  · rw [← Option.some.inj hx, hf, hid]

/-- `block` numbers the wait of a running thread. -/
theorem wp_block {Q : ThreadWait → ThreadTable → Prop} (hR : ∀ e, R e self)
    (hQ : ∀ r self', self.find id = some r → r.syncWait = false → r.snapshot.state = .running →
      (∀ t, self'.find t = if t = id then
        some { r with waitSequence := r.waitSequence + 1,
                      snapshot := { r.snapshot with state := .blocked } }
        else self.find t) →
      self'.slots.generation = self.slots.generation →
      Q { thread := id, sequence := r.waitSequence + 1 } self') :
    (block owner id).wp Q R self := by
  unfold block
  simp only [wp_rules, requireRunning_eq_ok, record_eq_ok, ok_rules]
  refine ⟨?_, fun _ _ => hR _⟩
  rintro - ⟨hprocess, r, hfind, hsync, -, hstate⟩
  refine ⟨?_, fun _ _ => hR _⟩
  rintro r' ⟨-, hfind'⟩
  obtain rfl := Option.mem_unique hfind hfind'
  refine ⟨?_, fun _ => hR _⟩
  rintro sequence ⟨-, rfl⟩
  rw [← hprocess]
  exact wp_updateRecord hfind rfl fun self' hself' hgeneration =>
    hQ r self' hfind hsync hstate hself' hgeneration

end ThreadTable

/-! ## Operations beside synchronization

The thread table has operations of its own. Most of them only rewrite records, in a way that leaves
waits and owners alone. -/

/-- A record may be rewritten to another one without disturbing its waits and its mutexes. -/
structure Record.Keeps (r r' : Record) : Prop where
  owned : r'.ownedMutexes = r.ownedMutexes
  sequence : r.waitSequence ≤ r'.waitSequence
  waiting : r.syncWait = true → r'.syncWait = true ∧ r'.waitSequence = r.waitSequence ∧
    (r.snapshot.state = .blocked → r'.snapshot.state = .blocked)
  retired : r.Retired → r'.Retired

namespace Record.Keeps

variable {r r' r'' : Record}

theorem refl (r : Record) : r.Keeps r := ⟨rfl, le_rfl, fun h => ⟨h, rfl, id⟩, id⟩

theorem trans (h : r.Keeps r') (h' : r'.Keeps r'') : r.Keeps r'' where
  owned := h'.owned.trans h.owned
  sequence := Nat.le_trans h.sequence h'.sequence
  waiting hsync := by
    obtain ⟨hsync', hseq, hstate⟩ := h.waiting hsync
    obtain ⟨hsync'', hseq', hstate'⟩ := h'.waiting hsync'
    exact ⟨hsync'', hseq'.trans hseq, fun hblocked => hstate' (hstate hblocked)⟩
  retired hr := h'.retired (h.retired hr)

/-- Only the join links, the result and the flags of the snapshot change. -/
theorem of_eq (howned : r'.ownedMutexes = r.ownedMutexes) (hseq : r'.waitSequence = r.waitSequence)
    (hsync : r'.syncWait = r.syncWait) (hstate : r'.snapshot.state = r.snapshot.state)
    (hreleased : r'.snapshot.resourcesReleased = r.snapshot.resourcesReleased) : r.Keeps r' where
  owned := howned
  sequence := Nat.le_of_eq hseq.symm
  waiting h := ⟨hsync.trans h, hseq, fun hblocked => hstate.trans hblocked⟩
  retired h := by
    unfold Record.Retired at h ⊢
    rwa [howned, hsync, hstate, hreleased]

/-- A record that was not blocked changes state. Released records only change between the last two
states. -/
theorem of_state {target : ThreadState} (hstate : r.snapshot.state ≠ .blocked ∨ r.syncWait = false)
    (hlast : r.snapshot.state ≠ .completed ∧ r.snapshot.state ≠ .revoked) :
    r.Keeps { r with snapshot := { r.snapshot with state := target } } where
  owned := rfl
  sequence := le_rfl
  waiting hsync := by
    refine ⟨hsync, rfl, fun hblocked => ?_⟩
    rcases hstate with hstate | hstate
    · exact absurd hblocked hstate
    · rw [hsync] at hstate
      cases hstate
  retired hretired hreleased := by
    obtain ⟨-, -, hdone⟩ := hretired hreleased
    rcases hdone with hdone | hdone
    · exact absurd hdone hlast.1
    · exact absurd hdone hlast.2

end Record.Keeps

namespace ThreadTable

variable {self self' self'' : ThreadTable} {id : ThreadId} {r : Record} {owner : ProcessId}

/-- Records were rewritten, none came or went. -/
structure Rewrites (old new : ThreadTable) : Prop where
  record : ∀ t r, old.find t = some r → ∃ r', new.find t = some r' ∧ r.Keeps r'
  absent : ∀ t, old.find t = none → new.find t = none
  generation : new.slots.generation = old.slots.generation

theorem Rewrites.refl (self : ThreadTable) : Rewrites self self :=
  ⟨fun _ r h => ⟨r, h, .refl r⟩, fun _ h => h, rfl⟩

/-- One rewriting after another. -/
theorem Rewrites.trans (h : Rewrites self self') (h' : Rewrites self' self'') :
    Rewrites self self'' where
  record t r hr := by
    obtain ⟨r', hr', hkeep⟩ := h.record t r hr
    obtain ⟨r'', hr'', hkeep'⟩ := h'.record t r' hr'
    exact ⟨r'', hr'', hkeep.trans hkeep'⟩
  absent t ht := h'.absent t (h.absent t ht)
  generation := h'.generation.trans h.generation

/-- The slots are the same. -/
theorem Rewrites.of_slots (h : self'.slots = self.slots) : Rewrites self self' := by
  have hfind : ∀ t, self'.find t = self.find t := fun t => by rw [find, find, h]
  exact ⟨fun t r hr => ⟨r, (hfind t).trans hr, .refl r⟩, fun t ht => (hfind t).trans ht, by rw [h]⟩

/-- An operation only rewrites records, whether it returns or leaves. -/
abbrev Stays {α : Type} (x : ThreadAct α) : Prop := x.Keeps Rewrites

/-- It is enough to look at one step. -/
theorem stays_of_step {α : Type} {x : ThreadAct α} (h : ∀ self, x.always (Rewrites self) self) :
    Stays x :=
  fun _ self hself => Act.always_mono (h self) fun _ => hself.trans

/-- The slots are left alone. -/
theorem stays_modify {f : ThreadTable → ThreadTable} (h : ∀ self, (f self).slots = self.slots) :
    Stays (Act.modify f : ThreadAct Unit) :=
  stays_of_step fun self => .of_slots (h self)

section Stays

/-- One record is rewritten. -/
theorem rewrites_of_find {r' : Record} (h : self.find id = some r) (hkeep : r.Keeps r')
    (hfind : ∀ t, self'.find t = if t = id then some r' else self.find t)
    (hgeneration : self'.slots.generation = self.slots.generation) : Rewrites self self' where
  record t r0 hr0 := by
    rw [hfind]
    by_cases ht : t = id
    · rw [if_pos ht]
      rw [ht, h, Option.some.injEq] at hr0
      exact ⟨r', rfl, hr0 ▸ hkeep⟩
    · rw [if_neg ht]
      exact ⟨r0, hr0, .refl r0⟩
  absent t ht := by
    rw [hfind, if_neg]
    · exact ht
    · intro heq
      rw [heq, h] at ht
      cases ht
  generation := hgeneration

variable {f : Record → Record}

/-- A write that keeps the identity and what waits depend on. -/
theorem rewrites_updateRecord (hid : ∀ r, (f r).snapshot.id = r.snapshot.id)
    (hkeep : ∀ r, self.find id = some r → r.Keeps (f r)) :
    (updateRecord owner id f).always (Rewrites self) self := by
  cases hrecord : self.record owner id with
  | error e =>
    simp only [updateRecord, wp_quiet, hrecord, reduceCtorEq, false_imp_iff]
    exact fun _ _ => .refl self
  | ok r =>
    obtain ⟨rfl, hfind⟩ := record_eq_ok.mp hrecord
    exact wp_updateRecord hfind (hid r) fun self' h hgeneration =>
      rewrites_of_find hfind (hkeep r hfind) h hgeneration

/-- The same for a write that keeps them in every record. -/
theorem stays_updateRecord (hid : ∀ r, (f r).snapshot.id = r.snapshot.id)
    (hkeep : ∀ r : Record, r.Keeps (f r)) : Stays (updateRecord owner id f) :=
  stays_of_step fun _ => rewrites_updateRecord hid fun r _ => hkeep r

/-- A process is no part of the slots. -/
theorem stays_updateProcess (f : ThreadProcess → ThreadProcess) : Stays (updateProcess owner f) :=
  .get fun _ => .ofExcept fun _ => stays_modify fun _ => rfl

/-- Every record is rewritten. -/
theorem find_updateAll (hid : ∀ r, (f r).snapshot.id = r.snapshot.id)
    (hslots : self'.slots = self.slots.map fun slot => { slot with value := slot.value.map f })
    (t : ThreadId) : self'.find t = (self.find t).map f := by
  have hvalue : GenSlab.value (self.slots.map fun slot =>
      { slot with value := slot.value.map f }) t.slot = (self.slots.value t.slot).map f := by
    simp only [GenSlab.value, List.getElem?_map]
    cases self.slots[t.slot]? <;> rfl
  rw [find, find, hslots, hvalue]
  cases self.slots.value t.slot with
  | none => rfl
  | some r =>
    rw [Option.map_some, Option.filter_some, Option.filter_some, hid]
    by_cases ht : r.snapshot.id = t <;> simp [ht]

/-- A write to every record leaves the generations alone. -/
theorem generation_updateAll (f : Record → Record) : GenSlab.generation (self.slots.map fun slot =>
    { slot with value := slot.value.map f }) = self.slots.generation := by
  funext k
  simp only [GenSlab.generation, List.getElem?_map]
  cases self.slots[k]? <;> rfl

/-- A write to every record that keeps what waits depend on. -/
theorem stays_updateAll (hid : ∀ r, (f r).snapshot.id = r.snapshot.id)
    (hkeep : ∀ r : Record, r.Keeps (f r)) : Stays (updateAll f) := by
  refine stays_of_step fun self => ?_
  refine ⟨fun t r hr => ⟨f r, ?_, hkeep r⟩, fun t ht => ?_, generation_updateAll f⟩
  · rw [find_updateAll hid rfl, hr, Option.map_some]
  · rw [find_updateAll hid rfl, ht, Option.map_none]

/-- A transition out of a state in which nothing waits. -/
theorem stays_transition {source target : ThreadState} (hblocked : source ≠ .blocked)
    (hlast : source ≠ .completed ∧ source ≠ .revoked) :
    Stays (transition owner id source target) := by
  refine stays_of_step fun self => ?_
  simp only [transition, wp_quiet, record_eq_ok, Rewrites.refl, ne_eq, not_not]
  rintro r ⟨-, hfind⟩ hstate
  refine rewrites_updateRecord (fun _ => rfl) fun r' hfind' => ?_
  obtain rfl := Option.mem_unique hfind hfind'
  rw [← hstate] at hblocked hlast
  exact .of_state (.inl hblocked) hlast

end Stays

end ThreadTable

/-! ## Calls on the thread table

The calls a scheduler makes between two calls on the synchronization table. None of them disturbs a
waiting thread or an owner. Stopping a process is missing here: it goes through the synchronization
table, which drains what the process has there. -/

/-- A call on the thread table. -/
inductive ThreadCall where
  | registerProcess (owner : ProcessId) (quota : ThreadQuota)
  | prepareInitial (owner : ProcessId) (resources : ThreadResources)
  | prepareWorker (owner : ProcessId) (creator : ThreadId) (resources : ThreadResources)
  | start (owner : ProcessId) (id : ThreadId)
  | startWorker (owner : ProcessId) (creator target : ThreadId)
  | abortWorker (owner : ProcessId) (creator target : ThreadId)
  | abortPrepared (owner : ProcessId) (id : ThreadId)
  | dispatch (owner : ProcessId) (id : ThreadId)
  | yieldRunning (owner : ProcessId) (id : ThreadId)
  | block (owner : ProcessId) (id : ThreadId)
  | wake (owner : ProcessId) (wait : ThreadWait)
  | requestStop (owner : ProcessId) (id : ThreadId)
  | beginExit (owner : ProcessId) (id : ThreadId)
  | complete (owner : ProcessId) (id : ThreadId) (result : ℕ)
  | claimJoin (owner : ProcessId) (caller target : ThreadId)
  | joinResult (owner : ProcessId) (claim : JoinClaim)
  | cancelJoin (owner : ProcessId) (claim : JoinClaim)
  | detach (owner : ProcessId) (id : ThreadId)
  | releaseResources (owner : ProcessId) (id : ThreadId)
  | reap (owner : ProcessId) (id : ThreadId)
  | removeProcess (owner : ProcessId)

/-- What a call answers. -/
inductive ThreadReply where
  | done
  | thread (id : ThreadId)
  | waiting (wait : ThreadWait)
  | claimed (claim : JoinClaim)
  | joined (result : Option ℕ)
  | resources (resources : ThreadResources)
deriving DecidableEq

namespace ThreadCall

open ThreadTable in
/-- Perform a call. -/
def perform : ThreadCall → ThreadAct ThreadReply
  | registerProcess owner quota => do
    ThreadTable.registerProcess owner quota
    return .done
  | prepareInitial owner resources => return .thread (← ThreadTable.prepareInitial owner resources)
  | prepareWorker owner creator resources =>
    return .thread (← ThreadTable.prepareWorker owner creator resources)
  | start owner id => do
    ThreadTable.start owner id
    return .done
  | startWorker owner creator target => do
    ThreadTable.startWorker owner creator target
    return .done
  | abortWorker owner creator target => do
    ThreadTable.abortWorker owner creator target
    return .done
  | abortPrepared owner id => do
    ThreadTable.abortPrepared owner id
    return .done
  | dispatch owner id => do
    ThreadTable.dispatch owner id
    return .done
  | yieldRunning owner id => do
    ThreadTable.yieldRunning owner id
    return .done
  | block owner id => return .waiting (← ThreadTable.block owner id)
  | wake owner wait => do
    ThreadTable.wake owner wait
    return .done
  | requestStop owner id => do
    ThreadTable.requestStop owner id
    return .done
  | beginExit owner id => do
    ThreadTable.beginExit owner id
    return .done
  | complete owner id result => do
    ThreadTable.complete owner id result
    return .done
  | claimJoin owner caller target => return .claimed (← ThreadTable.claimJoin owner caller target)
  | joinResult owner claim => return .joined (← ThreadTable.joinResult owner claim)
  | cancelJoin owner claim => do
    ThreadTable.cancelJoin owner claim
    return .done
  | detach owner id => do
    ThreadTable.detach owner id
    return .done
  | releaseResources owner id => return .resources (← ThreadTable.releaseResources owner id)
  | reap owner id => do
    ThreadTable.reap owner id
    return .done
  | removeProcess owner => do
    ThreadTable.removeProcess owner
    return .done

end ThreadCall

namespace ThreadTable

variable {self : ThreadTable} {id : ThreadId} {r : Record} {owner : ProcessId}

/-! ## Records that are rewritten -/

variable {creator caller target : ThreadId} {claim : JoinClaim} {resources : ThreadResources}

/-- A process is added. -/
theorem stays_registerProcess {quota : ThreadQuota} : Stays (registerProcess owner quota) :=
  .get fun _ => .reject fun _ => .reject fun _ => .okOr fun _ => stays_modify fun _ => rfl

/-- A process without threads is removed. -/
theorem stays_removeProcess : Stays (removeProcess owner) :=
  .get fun _ => .reject fun _ => .ofExcept fun _ => .reject fun _ => .okOr fun _ =>
    stays_modify fun _ => rfl

/-- A prepared thread becomes ready. -/
theorem stays_start : Stays (start owner id) :=
  .get fun _ => .ofExcept fun _ => .reject fun _ => stays_transition (by simp) (by simp)

/-- A prepared thread is given up. -/
theorem stays_abortPrepared : Stays (abortPrepared owner id) :=
  .get fun _ => .ofExcept fun _ => .bind (stays_transition (by simp) (by simp)) fun _ =>
    .ite (stays_updateProcess _) (.pure _)

theorem stays_startWorker : Stays (startWorker owner creator target) :=
  .get fun _ => .ofExcept fun _ => stays_start

theorem stays_abortWorker : Stays (abortWorker owner creator target) :=
  .get fun _ => .ofExcept fun _ => stays_abortPrepared

/-- A ready thread runs. -/
theorem stays_dispatch : Stays (dispatch owner id) :=
  .get fun _ => .ofExcept fun _ => .reject fun _ => .reject fun _ => .reject fun _ =>
    stays_transition (by simp) (by simp)

theorem stays_yieldRunning : Stays (yieldRunning owner id) :=
  stays_transition (by simp) (by simp)

/-- A running thread does not wait, so its next wait disturbs none. -/
theorem stays_block : Stays (block owner id) := by
  refine stays_of_step fun self => ?_
  refine wp_block (fun _ => .refl self) fun r self' hfind hsync hstate hfind' hgeneration => ?_
  refine rewrites_of_find hfind ?_ hfind' hgeneration
  refine ⟨rfl, Nat.le_succ _, fun h => ?_, fun hretired hreleased => ?_⟩
  · rw [hsync] at h
    cases h
  · have := hretired.released_eq_false (.inr hstate)
    exact absurd (this.symm.trans hreleased) Bool.false_ne_true

/-- `wake` refuses a thread that waits for an object. -/
theorem stays_wake {wait : ThreadWait} : Stays (wake owner wait) := by
  refine stays_of_step fun self => ?_
  simp only [wake, wp_quiet, record_eq_ok, Rewrites.refl, not_or, Bool.not_eq_true, ne_eq, not_not]
  rintro r ⟨-, hfind⟩ hbusy hstale
  refine rewrites_updateRecord (fun _ => rfl) fun r' hfind' => ?_
  obtain rfl := Option.mem_unique hfind hfind'
  exact .of_state (.inr hbusy.1) (by simp [hstale.1])

theorem stays_requestStop : Stays (requestStop owner id) :=
  stays_updateRecord (fun _ => rfl) fun _ => .of_eq rfl rfl rfl rfl rfl

/-- Only the links between the two threads change. -/
theorem stays_cancelJoin : Stays (cancelJoin owner claim) :=
  .get fun _ => .ofExcept fun _ =>
    .bind (stays_updateRecord (fun _ => rfl) fun _ => .of_eq rfl rfl rfl rfl rfl) fun _ =>
      stays_updateRecord (fun _ => rfl) fun _ => .of_eq rfl rfl rfl rfl rfl

theorem stays_cancelOutgoing {record : Record} : Stays (cancelOutgoing owner record) := by
  unfold cancelOutgoing
  split
  · exact stays_cancelJoin
  · exact .pure _

/-- An exiting thread takes along the threads it prepared and did not start. -/
theorem stays_beginExit : Stays (beginExit owner id) := by
  refine .get fun _ => .ofExcept fun _ => .ofExcept fun _ => .reject fun _ =>
    .bind stays_cancelOutgoing fun _ =>
      .bind (stays_transition (by simp) (by simp)) fun _ => stays_updateAll ?_ ?_
  · intro r
    split <;> rfl
  · intro r
    split
    next h => exact .of_state (by simp [h.2]) (by simp [h.2])
    · exact .refl r

/-- A thread that has left its last call stores its result. -/
theorem stays_complete {result : ℕ} : Stays (complete owner id result) :=
  .bind (stays_transition (by simp) (by simp)) fun _ =>
    stays_updateRecord (fun _ => rfl) fun _ => .of_eq rfl rfl rfl rfl rfl

/-- A claim links the two threads. -/
theorem stays_claimJoin : Stays (claimJoin owner caller target) :=
  .get fun _ => .ofExcept fun _ => .okOr fun _ => .bind (stays_modify fun _ => rfl) fun _ =>
    .bind (stays_updateRecord (fun _ => rfl) fun _ => .of_eq rfl rfl rfl rfl rfl) fun _ =>
      .bind (stays_updateRecord (fun _ => rfl) fun _ => .of_eq rfl rfl rfl rfl rfl) fun _ => .pure _

/-- A result is taken once, with its claim. -/
theorem stays_joinResult : Stays (joinResult owner claim) :=
  .get fun _ => .ofExcept fun _ => .ofExcept fun _ => .ite (.pure _) <|
    .bind stays_cancelJoin fun _ =>
      .bind (stays_updateRecord (fun _ => rfl) fun _ => .of_eq rfl rfl rfl rfl rfl) fun _ => .pure _

theorem stays_detach : Stays (detach owner id) :=
  .get fun _ => .ofExcept fun _ => .reject fun _ => .reject fun _ =>
    stays_updateRecord (fun _ => rfl) fun _ => .of_eq rfl rfl rfl rfl rfl

/-- Resources are only released by a thread that neither waits nor owns a mutex. -/
theorem stays_releaseResources : Stays (releaseResources owner id) := by
  refine stays_of_step fun self => ?_
  simp only [releaseResources, wp_quiet, record_eq_ok, Rewrites.refl, not_or, Bool.not_eq_true,
    ne_eq, not_not]
  rintro r ⟨-, hfind⟩ hstate - hbusy
  refine rewrites_updateRecord (fun _ => rfl) fun r' hfind' => ?_
  obtain rfl := Option.mem_unique hfind hfind'
  refine ⟨rfl, le_rfl, fun h => ⟨h, rfl, fun h => h⟩, fun _ _ => ⟨hbusy.1, hbusy.2.2, ?_⟩⟩
  by_contra hlast
  rw [not_or] at hlast
  exact hstate hlast

/-! ## Records that come and go -/

/-- Neither waits nor owners are disturbed, and new identities are new. -/
structure Calm (old new : ThreadTable) : Prop where
  record : ∀ t r, old.find t = some r → (∃ r', new.find t = some r' ∧ r.Keeps r') ∨
    (new.find t = none ∧ (r.Retired → r.syncWait = false ∧ r.ownedMutexes = 0))
  created : ∀ t r, old.find t = none → new.find t = some r → r.ownedMutexes = 0 ∧ r.Retired ∧
    old.slots.generation t.slot < t.generation ∧ t.generation ≤ new.slots.generation t.slot
  generation : ∀ k, old.slots.generation k ≤ new.slots.generation k

variable {old new : ThreadTable}

/-- A record found after a calm change was there before, or is new. -/
theorem Calm.origin (h : Calm old new) {t : ThreadId} {r' : Record} (hr' : new.find t = some r') :
    (∃ r, old.find t = some r ∧ r.Keeps r') ∨
      (old.find t = none ∧ r'.ownedMutexes = 0 ∧ r'.Retired ∧
        old.slots.generation t.slot < t.generation ∧
        t.generation ≤ new.slots.generation t.slot) := by
  cases hold : old.find t with
  | none => exact .inr ⟨rfl, h.created t r' hold hr'⟩
  | some r =>
    rcases h.record t r hold with ⟨r'', hr'', hk⟩ | ⟨hnone, -⟩
    · obtain rfl := Option.mem_unique hr'' hr'
      exact .inl ⟨r, rfl, hk⟩
    · rw [hnone] at hr'
      cases hr'

/-- Nothing comes or goes. -/
theorem Rewrites.calm (h : Rewrites old new) : Calm old new where
  record t r hr := .inl (h.record t r hr)
  created t r hnone hsome := by
    rw [h.absent t hnone] at hsome
    cases hsome
  generation k := Nat.le_of_eq (congrFun h.generation k).symm

/-- What came is still new after a rewriting. -/
theorem Calm.rewrites {old new newer : ThreadTable} (h : Calm old new) (h' : Rewrites new newer) :
    Calm old newer where
  record t r hr := by
    rcases h.record t r hr with ⟨r', hr', hkeep⟩ | ⟨hnone, hgone⟩
    · obtain ⟨r'', hr'', hkeep'⟩ := h'.record t r' hr'
      exact .inl ⟨r'', hr'', hkeep.trans hkeep'⟩
    · exact .inr ⟨h'.absent t hnone, hgone⟩
  created t r hnone hsome := by
    cases hnew : new.find t with
    | none =>
      rw [h'.absent t hnew] at hsome
      cases hsome
    | some r' =>
      obtain ⟨howned, hretired, hlt, hle⟩ := h.created t r' hnone hnew
      obtain ⟨r'', hr'', hkeep⟩ := h'.record t r' hnew
      obtain rfl := Option.mem_unique hr'' hsome
      rw [h'.generation]
      exact ⟨hkeep.owned.trans howned, hkeep.retired hretired, hlt, hle⟩
  generation k := by
    rw [h'.generation]
    exact h.generation k

/-- An operation that is calm, whether it returns or leaves. -/
def StaysCalm {α : Type} (x : ThreadAct α) : Prop :=
  ∀ self, x.always (Calm self) self

theorem Stays.calm {α : Type} {x : ThreadAct α} (h : Stays x) : StaysCalm x :=
  fun self => Act.always_mono (h self self (.refl self)) fun _ h => h.calm

/-- A calm operation may be followed by one that only rewrites. -/
theorem StaysCalm.bind {α β : Type} {x : ThreadAct α} {f : α → ThreadAct β} (hx : StaysCalm x)
    (hf : ∀ a, Stays (f a)) : StaysCalm (x >>= f) := by
  intro self
  refine Act.always_bind (hx self) fun a self' h => ?_
  exact Act.always_mono (hf a self' self' (.refl self')) fun _ h' => h.rewrites h'

section

variable (hindex : r.snapshot.id.slot < self.slots.length)
  (hfree : self.slots.value r.snapshot.id.slot = none)
include hindex hfree

/-- A lookup in a table with a new record. -/
theorem find_occupied (t : ThreadId) :
    find { self with slots := self.slots.occupy r.snapshot.id.slot r } t
      = if t = r.snapshot.id then some r else self.find t := by
  refine find_of_value (fun x hx => ?_) (fun x hx => ?_) (GenSlab.value_occupy hindex _) t
  · rw [hfree] at hx
    cases hx
  · rw [Option.some.inj hx]

/-- A slot is occupied under its next generation. -/
theorem calm_occupy
    (hgeneration : r.snapshot.id.generation = self.slots.generation r.snapshot.id.slot + 1)
    (howned : r.ownedMutexes = 0) (hretired : r.Retired) :
    Calm self { self with slots := self.slots.occupy r.snapshot.id.slot r } := by
  refine ⟨fun t x hx => .inl ⟨x, ?_, .refl x⟩, fun t x hnone hsome => ?_,
    fun k => GenSlab.generation_le_modify (fun _ => Nat.le_succ _) k⟩
  · rw [find_occupied hindex hfree, if_neg, hx]
    intro ht
    rw [ht, find, hfree] at hx
    cases hx
  · rw [find_occupied hindex hfree] at hsome
    split at hsome
    next ht =>
      cases hsome
      rw [ht, hgeneration]
      refine ⟨howned, hretired, Nat.lt_succ_self _, Nat.le_of_eq ?_⟩
      exact ((GenSlab.generation_occupy hindex _ _).trans (if_pos rfl)).symm
    · rw [hnone] at hsome
      cases hsome

end

/-- A lookup in a table without one record. -/
theorem find_vacated (hr : self.find id = some r) (t : ThreadId) :
    find { self with slots := self.slots.put id.slot none } t
      = if t = id then none else self.find t := by
  obtain ⟨hvalue, hid⟩ := find_eq_some hr
  refine find_of_value (fun x hx => ?_) (fun x hx => ?_)
    (GenSlab.value_put (GenSlab.lt_length_of_value hvalue) _) t
  · rw [← Option.mem_unique hvalue hx, hid]
  · cases hx

/-- A prepared thread has a new identity. -/
theorem staysCalm_prepare {creator : Option ThreadId} :
    StaysCalm (prepare owner creator resources) := by
  intro self
  have hrefl := (Rewrites.refl self).calm
  simp only [prepare, wp_quiet, hrefl]
  intro _ _ _ _ _ _ _ _ index hindex
  obtain ⟨hlt, hvalue⟩ := GenSlab.firstFree_eq_some hindex
  refine calm_occupy (r := preparedRecord _ _ _ _) hlt hvalue rfl rfl fun hreleased => ?_
  cases hreleased

/-- The first thread of a process. -/
theorem staysCalm_prepareInitial : StaysCalm (prepareInitial owner resources) := by
  intro self
  have hrefl := (Rewrites.refl self).calm
  unfold prepareInitial Act.always
  rw [Act.wp_bind, Act.wp_get, Act.wp_bind, Act.wp_ofExcept]
  refine ⟨fun process _ => ?_, fun _ _ => hrefl⟩
  rw [Act.wp_bind, Act.wp_reject]
  refine ⟨fun _ => hrefl, fun _ => ?_⟩
  exact staysCalm_prepare.bind (fun id => (stays_updateProcess _).bind fun _ => .pure id) self

/-- A further thread of a process. -/
theorem staysCalm_prepareWorker : StaysCalm (prepareWorker owner creator resources) := by
  intro self
  unfold prepareWorker Act.always
  rw [Act.wp_bind, Act.wp_get, Act.wp_bind, Act.wp_ofExcept]
  exact ⟨fun _ _ => staysCalm_prepare self, fun _ _ => (Rewrites.refl self).calm⟩

/-- Only a retired record is reaped. -/
theorem staysCalm_reap : StaysCalm (reap owner id) := by
  intro self
  have hrefl := (Rewrites.refl self).calm
  simp only [reap, wp_quiet, record_eq_ok, hrefl, not_or, Bool.not_eq_false]
  rintro r ⟨-, hfind⟩ hbusy -
  refine ⟨fun t r' hr' => ?_, fun t r' hnone hsome => ?_, fun k => ?_⟩
  · rw [find_vacated hfind]
    split
    next ht =>
      rw [ht] at hr'
      obtain rfl := Option.mem_unique hfind hr'
      refine .inr ⟨rfl, fun hretired => ?_⟩
      obtain ⟨hsync, howned, -⟩ := hretired hbusy.1
      exact ⟨hsync, howned⟩
    · exact .inl ⟨r', hr', .refl r'⟩
  · rw [find_vacated hfind] at hsome
    split at hsome
    · cases hsome
    · rw [hnone] at hsome
      cases hsome
  · exact Nat.le_of_eq (GenSlab.generation_put _ _).symm

end ThreadTable

open ThreadTable in
/-- No call on the thread table disturbs a wait or an owner. -/
theorem ThreadCall.staysCalm (c : ThreadCall) : StaysCalm c.perform := by
  cases c with
  | registerProcess => exact stays_registerProcess.calm.bind fun _ => .pure _
  | prepareInitial => exact staysCalm_prepareInitial.bind fun _ => .pure _
  | prepareWorker => exact staysCalm_prepareWorker.bind fun _ => .pure _
  | start => exact stays_start.calm.bind fun _ => .pure _
  | startWorker => exact stays_startWorker.calm.bind fun _ => .pure _
  | abortWorker => exact stays_abortWorker.calm.bind fun _ => .pure _
  | abortPrepared => exact stays_abortPrepared.calm.bind fun _ => .pure _
  | dispatch => exact stays_dispatch.calm.bind fun _ => .pure _
  | yieldRunning => exact stays_yieldRunning.calm.bind fun _ => .pure _
  | block => exact stays_block.calm.bind fun _ => .pure _
  | wake => exact stays_wake.calm.bind fun _ => .pure _
  | requestStop => exact stays_requestStop.calm.bind fun _ => .pure _
  | beginExit => exact stays_beginExit.calm.bind fun _ => .pure _
  | complete => exact stays_complete.calm.bind fun _ => .pure _
  | claimJoin => exact stays_claimJoin.calm.bind fun _ => .pure _
  | joinResult => exact stays_joinResult.calm.bind fun _ => .pure _
  | cancelJoin => exact stays_cancelJoin.calm.bind fun _ => .pure _
  | detach => exact stays_detach.calm.bind fun _ => .pure _
  | releaseResources => exact stays_releaseResources.calm.bind fun _ => .pure _
  | reap => exact staysCalm_reap.bind fun _ => .pure _
  | removeProcess => exact stays_removeProcess.calm.bind fun _ => .pure _

end Troe.Task
