import Troe.Task.ThreadSpec

/-!
# The lifecycle invariant of the thread table

`Lifecycle` collects what is true of a thread table between two calls: who runs, what is charged,
who joins whom. Most calls rewrite records in place, which is stated once as `Mapped`; `Ages`
follows identities from one table to a later one.
-/

namespace Troe.Task

open Lib
open Option (filter_some map_eq_some_iff map_some)

/-- The pages a record is charged for. -/
def Record.charge (r : Record) : ℕ :=
  if r.snapshot.resourcesReleased then 0 else r.resources.pages

/-- The pages a record is charged for on the account of a process. -/
def Record.chargeOn (owner : ProcessId) (r : Record) : ℕ :=
  if r.snapshot.id.process = owner then r.charge else 0

namespace ThreadTable

variable {self self' self'' : ThreadTable} {id t : ThreadId} {r : Record} {owner : ProcessId}
  {g : Record → Record} {find : ThreadId → Option Record}

/-! ## The invariant -/

/-- At most one thread runs. -/
def OneRuns (find : ThreadId → Option Record) : Prop :=
  ∀ t t' r r', find t = some r → find t' = some r' → r.snapshot.state = .running →
    r'.snapshot.state = .running → t = t'

/-- Claims match the thread that joins with the thread it joins, and a thread whose result was
consumed has no claim on it. -/
structure Joins (find : ThreadId → Option Record) : Prop where
  outgoing : ∀ t r claim, find t = some r → r.outgoingJoin = some claim → claim.caller = t ∧
    claim.target.process = t.process ∧ claim.target ≠ t ∧
    ∃ r', find claim.target = some r' ∧ r'.incomingJoin = some claim
  incoming : ∀ t r claim, find t = some r → r.incomingJoin = some claim → claim.target = t ∧
    ∃ r', find claim.caller = some r' ∧ r'.outgoingJoin = some claim
  joined : ∀ t r, find t = some r → r.joined = true → r.incomingJoin = none

/-- What is true of a thread table between two calls. -/
structure Lifecycle (table : ThreadTable) : Prop where
  slot : ∀ k r, table.slots.value k = some r → r.snapshot.id.slot = k ∧
    r.snapshot.id.generation = table.slots.generation k
  unique : ∀ i j p p', slotAt table.processes i = some p → slotAt table.processes j = some p' →
    p.id = p'.id → i = j
  registered : ∀ t r, table.find t = some r → ∃ i p, slotAt table.processes i = some p ∧
    p.id = t.process
  quota : ∀ i p, slotAt table.processes i = some p →
    table.slots.sum (Record.chargeOn p.id) ≤ p.quota.pages
  limit : table.slots.sum Record.charge ≤ table.pageLimit
  reservations : ∀ t t' r r', table.find t = some r → table.find t' = some r' →
    r.snapshot.resourcesReleased = false → r'.snapshot.resourcesReleased = false →
    r.resources.reservation = r'.resources.reservation → t = t'
  running : OneRuns table.find
  joins : Joins table.find

/-- A record is found under its own identity. -/
theorem Lifecycle.find_of_value (h : Lifecycle self) {k : ℕ} (hr : self.slots.value k = some r) :
    self.find r.snapshot.id = some r := by
  rw [find, (h.slot k r hr).1, hr]
  simp

/-! ## Identities -/

/-- Identities that existed in the old table mean the same in the new one, if anything. -/
structure Ages (old new : ThreadTable) : Prop where
  generation : ∀ k, old.slots.generation k ≤ new.slots.generation k
  find : ∀ t r', new.find t = some r' → t.generation ≤ old.slots.generation t.slot →
    ∃ r, old.find t = some r ∧ (r.joined = true → r'.joined = true)
  pageLimit : new.pageLimit = old.pageLimit

theorem Ages.refl (self : ThreadTable) : Ages self self :=
  ⟨fun _ => le_rfl, fun _ r hr _ => ⟨r, hr, fun h => h⟩, rfl⟩

theorem Ages.trans (h : Ages self self') (h' : Ages self' self'') : Ages self self'' where
  generation k := Nat.le_trans (h.generation k) (h'.generation k)
  find t r'' hr'' hle := by
    obtain ⟨r', hr', hjoined'⟩ := h'.find t r'' hr'' (Nat.le_trans hle (h.generation _))
    obtain ⟨r, hr, hjoined⟩ := h.find t r' hr' hle
    exact ⟨r, hr, fun hj => hjoined' (hjoined hj)⟩
  pageLimit := h'.pageLimit.trans h.pageLimit

/-- A call that was accepted: the invariant holds again and identities have aged. -/
structure Advances (old new : ThreadTable) : Prop where
  lifecycle : Lifecycle new
  ages : Ages old new

/-! ## Records that are rewritten -/

/-- Every record is rewritten by `g`; identities and quotas of processes stay. -/
structure Mapped (g : Record → Record) (old new : ThreadTable) : Prop where
  value : ∀ k, new.slots.value k = (old.slots.value k).map g
  generation : ∀ k, new.slots.generation k = old.slots.generation k
  length : new.slots.length = old.slots.length
  processes : ∀ i, (slotAt new.processes i).map (fun p => (p.id, p.quota))
    = (slotAt old.processes i).map fun p => (p.id, p.quota)
  pageLimit : new.pageLimit = old.pageLimit

section

variable (h : Mapped g self self')
include h

theorem Mapped.trans {g' : Record → Record} (h' : Mapped g' self' self'') :
    Mapped (fun r => g' (g r)) self self'' where
  value k := by
    rw [h'.value, h.value, Option.map_map]
    rfl
  generation k := (h'.generation k).trans (h.generation k)
  length := h'.length.trans h.length
  processes i := (h'.processes i).trans (h.processes i)
  pageLimit := h'.pageLimit.trans h.pageLimit

/-- A lookup sees the changed record. -/
theorem Mapped.find_eq (hid : ∀ r, (g r).snapshot.id = r.snapshot.id) (t : ThreadId) :
    self'.find t = (self.find t).map g := by
  rw [find, find, h.value]
  cases self.slots.value t.slot with
  | none => rfl
  | some r =>
    by_cases ht : r.snapshot.id = t
    · simp [filter_some, hid, ht]
    · simp [filter_some, hid, ht]

theorem Mapped.find_some (hid : ∀ r, (g r).snapshot.id = r.snapshot.id) (hr : self.find t = some r) :
    self'.find t = some (g r) := by
  rw [h.find_eq hid, hr, map_some]

/-- A process slot of a table whose records were rewritten. -/
theorem Mapped.process_eq {i : ℕ} {p' : ThreadProcess} (hp : slotAt self'.processes i = some p') :
    ∃ p, slotAt self.processes i = some p ∧ p.id = p'.id ∧ p.quota = p'.quota := by
  have hi := h.processes i
  rw [hp, map_some, eq_comm, map_eq_some_iff] at hi
  obtain ⟨p, hp, heq⟩ := hi
  rw [Prod.mk.injEq] at heq
  exact ⟨p, hp, heq.1, heq.2⟩

end

/-- What a rewriting must keep. -/
structure Faithful (g : Record → Record) : Prop where
  id : ∀ r, (g r).snapshot.id = r.snapshot.id
  resources : ∀ r, (g r).resources = r.resources
  released : ∀ r, r.snapshot.resourcesReleased = true → (g r).snapshot.resourcesReleased = true
  joined : ∀ r, r.joined = true → (g r).joined = true

/-- A faithful change charges no more pages. -/
theorem Faithful.charge_le (hg : Faithful g) (r : Record) : (g r).charge ≤ r.charge := by
  unfold Record.charge
  rw [hg.resources]
  by_cases hr : r.snapshot.resourcesReleased = true
  · rw [hg.released r hr]
    exact Nat.zero_le _
  · rw [if_neg hr]
    split
    · exact Nat.zero_le _
    · exact le_rfl

theorem Faithful.chargeOn_le (hg : Faithful g) (owner : ProcessId)
    (r : Record) : (g r).chargeOn owner ≤ r.chargeOn owner := by
  unfold Record.chargeOn
  rw [hg.id]
  split
  · exact hg.charge_le r
  · exact Nat.zero_le _

/-- Sums over the slots do not grow when every record's weight does not. -/
theorem Mapped.sum_le (h : Mapped g self self') {f : Record → ℕ}
    (hf : ∀ r, f (g r) ≤ f r) : self'.slots.sum f ≤ self.slots.sum f := by
  refine GenSlab.sum_le h.length fun k => ?_
  rw [h.value]
  cases self.slots.value k with
  | none => exact le_rfl
  | some r => exact hf r

/-- Rewriting keeps the invariant as far as states and joins agree with it. -/
theorem Lifecycle.mapped (h : Lifecycle self) (hm : Mapped g self self')
    (hg : Faithful g) (hrunning : OneRuns fun t => (self.find t).map g)
    (hjoins : Joins fun t => (self.find t).map g) : Advances self self' := by
  have hfind := hm.find_eq hg.id
  have hold : ∀ t r', self'.find t = some r' → ∃ r, self.find t = some r ∧ g r = r' := by
    intro t r' hr'
    rw [hfind] at hr'
    exact map_eq_some_iff.mp hr'
  have hkeep : ∀ r, (g r).snapshot.resourcesReleased = false →
      r.snapshot.resourcesReleased = false := by
    intro r hr
    rw [← Bool.not_eq_true] at hr ⊢
    exact fun hreleased => hr (hg.released r hreleased)
  refine ⟨⟨fun k r' hr' => ?_, fun i j p p' hp hp' heq => ?_, fun t r' hr' => ?_,
    fun i p hp => ?_, ?_, fun t t' r r' hr hr' hreleased hreleased' heq => ?_, ?_, ?_⟩,
    ⟨fun k => Nat.le_of_eq (hm.generation k).symm, fun t r' hr' _ => ?_, hm.pageLimit⟩⟩
  · rw [hm.value] at hr'
    obtain ⟨r, hr, rfl⟩ := map_eq_some_iff.mp hr'
    rw [hg.id, hm.generation]
    exact h.slot k r hr
  · obtain ⟨q, hq, hid, -⟩ := hm.process_eq hp
    obtain ⟨q', hq', hid', -⟩ := hm.process_eq hp'
    exact h.unique i j q q' hq hq' (by rw [hid, hid', heq])
  · obtain ⟨r, hr, -⟩ := hold t r' hr'
    obtain ⟨i, p, hp, hid⟩ := h.registered t r hr
    have hi := hm.processes i
    rw [hp, map_some, map_eq_some_iff] at hi
    obtain ⟨p', hp', heq⟩ := hi
    rw [Prod.mk.injEq] at heq
    exact ⟨i, p', hp', heq.1.trans hid⟩
  · obtain ⟨q, hq, hid, hquota⟩ := hm.process_eq hp
    rw [← hid, ← hquota]
    exact Nat.le_trans (hm.sum_le (hg.chargeOn_le q.id)) (h.quota i q hq)
  · rw [hm.pageLimit]
    exact Nat.le_trans (hm.sum_le hg.charge_le) h.limit
  · obtain ⟨r0, hr0, rfl⟩ := hold t r hr
    obtain ⟨r1, hr1, rfl⟩ := hold t' r' hr'
    rw [hg.resources, hg.resources] at heq
    exact h.reservations t t' r0 r1 hr0 hr1 (hkeep r0 hreleased) (hkeep r1 hreleased') heq
  · rw [funext hfind]
    exact hrunning
  · rw [funext hfind]
    exact hjoins
  · obtain ⟨r, hr, rfl⟩ := hold t r' hr'
    exact ⟨r, hr, hg.joined r⟩

/-- Rewriting makes nobody run. -/
theorem OneRuns.of_same (h : OneRuns find)
    (hg : ∀ t r, find t = some r → (g r).snapshot.state = .running → r.snapshot.state = .running) :
    OneRuns fun t => (find t).map g := by
  intro t t' r r' hr hr' hrun hrun'
  obtain ⟨r0, hr0, rfl⟩ := map_eq_some_iff.mp hr
  obtain ⟨r1, hr1, rfl⟩ := map_eq_some_iff.mp hr'
  exact h t t' r0 r1 hr0 hr1 (hg t r0 hr0 hrun) (hg t' r1 hr1 hrun')

/-- Rewriting leaves the joins alone. -/
theorem Joins.of_same (h : Joins find)
    (hg : ∀ t r, find t = some r → (g r).outgoingJoin = r.outgoingJoin ∧
      (g r).incomingJoin = r.incomingJoin ∧
        ((g r).joined = true → r.joined = true ∨ r.incomingJoin = none)) :
    Joins fun t => (find t).map g := by
  refine ⟨fun t r claim hr hclaim => ?_, fun t r claim hr hclaim => ?_, fun t r hr hjoined => ?_⟩
  · obtain ⟨r0, hr0, rfl⟩ := map_eq_some_iff.mp hr
    rw [(hg t r0 hr0).1] at hclaim
    obtain ⟨hcaller, hprocess, hne, r', hr', hincoming⟩ := h.outgoing t r0 claim hr0 hclaim
    refine ⟨hcaller, hprocess, hne, g r', by rw [hr', map_some], ?_⟩
    rw [(hg _ r' hr').2.1, hincoming]
  · obtain ⟨r0, hr0, rfl⟩ := map_eq_some_iff.mp hr
    rw [(hg t r0 hr0).2.1] at hclaim
    obtain ⟨htarget, r', hr', houtgoing⟩ := h.incoming t r0 claim hr0 hclaim
    refine ⟨htarget, g r', by rw [hr', map_some], ?_⟩
    rw [(hg _ r' hr').1, houtgoing]
  · obtain ⟨r0, hr0, rfl⟩ := map_eq_some_iff.mp hr
    rw [(hg t r0 hr0).2.1]
    exact ((hg t r0 hr0).2.2 hjoined).elim (h.joined t r0 hr0) fun hin => hin

end ThreadTable

/-! ## Calls keep the invariant

Every call either is accepted and leads to a table that satisfies `Lifecycle`, or is rejected and
changes nothing: nothing after the first write of a call can fail. -/

namespace ThreadTable

variable {α : Type} {self self' : ThreadTable} {id : ThreadId} {r : Record} {owner : ProcessId}
  {Q : Unit → ThreadTable → Prop} {R : ThreadError → ThreadTable → Prop} {f : Record → Record}
  {source target : ThreadState} {p : ThreadProcess}

/-- A call is accepted and advances the table, or is rejected and changes nothing. -/
def Safe (x : ThreadAct α) (self : ThreadTable) : Prop :=
  x.wp (fun _ self' => Advances self self') (fun _ self' => self' = self) self

theorem Lifecycle.advances_refl (h : Lifecycle self) : Advances self self := ⟨h, .refl self⟩

/-! ## Writes to one record -/

/-- Rewrite the record of one thread. -/
def onlyAt (id : ThreadId) (f : Record → Record) (r : Record) : Record :=
  if r.snapshot.id = id then f r else r

theorem onlyAt_of_eq (h : r.snapshot.id = id) : onlyAt id f r = f r :=
  if_pos h

theorem onlyAt_of_ne (h : r.snapshot.id ≠ id) : onlyAt id f r = r :=
  if_neg h

theorem Faithful.refl : Faithful fun r => r :=
  ⟨fun _ => rfl, fun _ => rfl, fun _ h => h, fun _ h => h⟩

/-- Only some records are rewritten. -/
theorem Faithful.ite (hf : Faithful f) {c : Record → Prop} [DecidablePred c] :
    Faithful fun r => if c r then f r else r := by
  refine ⟨fun r => ?_, fun r => ?_, fun r => ?_, fun r => ?_⟩
  all_goals split
  · exact hf.id r
  · rfl
  · exact hf.resources r
  · rfl
  · exact hf.released r
  · exact fun h => h
  · exact hf.joined r
  · exact fun h => h

theorem Faithful.onlyAt (hf : Faithful f) (id : ThreadId) : Faithful (onlyAt id f) := hf.ite

/-- Slots hold the records that name them. -/
def SlotsMatch (self : ThreadTable) : Prop :=
  ∀ k r, self.slots.value k = some r → r.snapshot.id.slot = k

theorem Lifecycle.slotsMatch (h : Lifecycle self) : SlotsMatch self := fun k r hr => (h.slot k r hr).1

theorem Mapped.slotsMatch {g : Record → Record} (h : Mapped g self self') (hg : Faithful g)
    (hself : SlotsMatch self) : SlotsMatch self' := by
  intro k r' hr'
  rw [h.value] at hr'
  obtain ⟨r, hr, rfl⟩ := Option.map_eq_some_iff.mp hr'
  rw [hg.id]
  exact hself k r hr

/-- An update of a record that is there does not fail. -/
theorem wp_mapRecord (hself : SlotsMatch self) (hr : self.find id = some r)
    (hQ : ∀ self', Mapped (onlyAt id f) self self' → self'.processes = self.processes → Q () self') :
    (updateRecord id.process id f).wp Q R self := by
  obtain ⟨hvalue, hid⟩ := find_eq_some hr
  have hrecord : self.record id.process id = .ok r := record_eq_ok.mpr ⟨rfl, hr⟩
  simp only [updateRecord, wp_quiet, hrecord, Except.ok.injEq, reduceCtorEq, false_imp_iff,
    forall_eq']
  refine hQ _ ⟨fun k => ?_, fun _ => GenSlab.generation_put _ _, GenSlab.length_put _,
    fun _ => rfl, rfl⟩ rfl
  rw [GenSlab.value_put (GenSlab.lt_length_of_value hvalue)]
  by_cases hk : k = id.slot
  · rw [if_pos hk, hk, hvalue, map_some, onlyAt_of_eq hid]
  · rw [if_neg hk]
    cases hx : self.slots.value k with
    | none => rfl
    | some x =>
      have hne : x.snapshot.id ≠ id := by
        intro heq
        exact hk ((hself k x hx).symm.trans (congrArg _ heq))
      rw [map_some, onlyAt_of_ne hne]

/-- The joins after one record was rewritten without touching its own. -/
theorem Joins.onlyAt {find : ThreadId → Option Record} (h : Joins find)
    (hjoin : ∀ x, (f x).outgoingJoin = x.outgoingJoin ∧ (f x).incomingJoin = x.incomingJoin ∧
      (f x).joined = x.joined) (id : ThreadId) :
    Joins fun t => (find t).map (ThreadTable.onlyAt id f) := by
  refine h.of_same fun t x hx => ?_
  unfold ThreadTable.onlyAt
  split
  · exact ⟨(hjoin x).1, (hjoin x).2.1, fun h => .inl ((hjoin x).2.2 ▸ h)⟩
  · exact ⟨rfl, rfl, .inl⟩

/-- One record is rewritten without touching its joins. -/
theorem Lifecycle.single (h : Lifecycle self) (hr : self.find id = some r)
    (hf : Faithful f) (hjoin : ∀ x, (f x).outgoingJoin = x.outgoingJoin ∧
      (f x).incomingJoin = x.incomingJoin ∧ (f x).joined = x.joined)
    (hrun : (f r).snapshot.state = .running → r.snapshot.state = .running)
    (hm : Mapped (onlyAt id f) self self') : Advances self self' := by
  refine h.mapped hm (hf.onlyAt id) (h.running.of_same fun t x hx => ?_) (h.joins.onlyAt hjoin id)
  by_cases ht : x.snapshot.id = id
  · rw [onlyAt_of_eq ht]
    rw [(find_eq_some hx).2] at ht
    rw [ht] at hx
    obtain rfl := Option.mem_unique hr hx
    exact hrun
  · rw [onlyAt_of_ne ht]
    exact fun h => h

/-- A record in another state. -/
def inState (state : ThreadState) (r : Record) : Record :=
  { r with snapshot := { r.snapshot with state } }

theorem faithful_inState (state : ThreadState) : Faithful (inState state) :=
  ⟨fun _ => rfl, fun _ => rfl, fun _ h => h, fun _ h => h⟩

/-- A transition from the source state, or nothing. -/
theorem wp_transition (hself : SlotsMatch self) (hR : ∀ e, R e self)
    (hQ : ∀ r self', id.process = owner → self.find id = some r → r.snapshot.state = source →
      Mapped (onlyAt id (inState target)) self self' → self'.processes = self.processes →
      Q () self') : (transition owner id source target).wp Q R self := by
  unfold transition
  simp only [wp_rules, record_eq_ok]
  refine ⟨?_, fun _ _ => hR _⟩
  rintro r ⟨hprocess, hfind⟩
  refine ⟨fun _ => hR _, fun hstate => ?_⟩
  rw [not_not] at hstate
  rw [← hprocess]
  exact wp_mapRecord hself hfind fun self' hm hp => hQ r self' hprocess hfind hstate hm hp

/-- A state changes to one that does not run. -/
theorem transition_safe (h : Lifecycle self)
    (htarget : target ≠ .running) : Safe (transition owner id source target) self := by
  refine wp_transition h.slotsMatch (fun _ => rfl) fun r self' _ hr _ hm _ => ?_
  exact h.single hr (faithful_inState target) (fun _ => ⟨rfl, rfl, rfl⟩)
    (fun hrun => absurd hrun htarget) hm

/-! ## Processes -/

/-- A write to a process that keeps its identity and quota. -/
theorem slotAt_updateProcessSlot {f : ThreadProcess → ThreadProcess}
    (hf : ∀ p, (f p).id = p.id ∧ (f p).quota = p.quota) (processes : List (Option ThreadProcess))
    (i : ℕ) : (slotAt (updateProcessSlot owner f processes) i).map (fun p => (p.id, p.quota))
      = (slotAt processes i).map fun p => (p.id, p.quota) := by
  induction processes generalizing i with
  | nil => rfl
  | cons slot rest ih =>
    cases slot with
    | none =>
      cases i with
      | zero => rfl
      | succ i => exact ih i
    | some p =>
      rw [updateProcessSlot]
      split
      · cases i with
        | zero =>
          show some ((f p).id, (f p).quota) = some (p.id, p.quota)
          rw [(hf p).1, (hf p).2]
        | succ i => rfl
      · cases i with
        | zero => rfl
        | succ i => exact ih i

theorem mem_liveProcesses : p ∈ self.liveProcesses ↔ ∃ i, slotAt self.processes i = some p := by
  unfold liveProcesses slotAt
  rw [List.mem_filterMap]
  constructor
  · rintro ⟨slot, hslot, rfl⟩
    obtain ⟨i, hi⟩ := List.mem_iff_getElem?.mp hslot
    exact ⟨i, by rw [hi]; rfl⟩
  · rintro ⟨i, hi⟩
    cases hget : self.processes[i]? with
    | none =>
      rw [hget] at hi
      cases hi
    | some slot =>
      rw [hget] at hi
      exact ⟨slot, List.mem_of_getElem? hget, hi⟩

theorem process_eq_ok (h : self.process owner = .ok p) :
    p.id = owner ∧ ∃ i, slotAt self.processes i = some p := by
  rw [process, okOr_eq_ok] at h
  exact ⟨of_decide_eq_true (List.find?_some (p := fun q : ThreadProcess => decide (q.id = owner)) h),
    mem_liveProcesses.mp (List.mem_of_find?_eq_some h)⟩

/-- A process in the table is found by its identity. -/
theorem exists_process {i : ℕ} (hp : slotAt self.processes i = some p)
    (hid : p.id = owner) : ∃ q, self.process owner = .ok q := by
  unfold process
  cases hfind : self.liveProcesses.find? (fun q => decide (q.id = owner)) with
  | some q => exact ⟨q, rfl⟩
  | none =>
    rw [List.find?_eq_none] at hfind
    exact absurd (decide_eq_true hid) (hfind p (mem_liveProcesses.mpr ⟨i, hp⟩))

/-- An update of a process changes no record. -/
theorem wp_mapProcess {f : ThreadProcess → ThreadProcess}
    (hf : ∀ p, (f p).id = p.id ∧ (f p).quota = p.quota)
    (hp : self.process owner = .ok p)
    (hQ : ∀ self', Mapped (fun r => r) self self' → Q () self') :
    (updateProcess owner f).wp Q R self := by
  simp only [updateProcess, wp_quiet, hp, Except.ok.injEq, reduceCtorEq, false_imp_iff, forall_eq']
  exact hQ _ ⟨fun k => by simp, fun _ => rfl, rfl, slotAt_updateProcessSlot hf _, rfl⟩

/-! ## Calls that write one record -/

section

variable (h : Lifecycle self)
include h

/-- An update that starts no thread and moves no join is safe. -/
theorem updateRecord_safe (hf : Faithful f)
    (hjoin : ∀ x, (f x).outgoingJoin = x.outgoingJoin ∧ (f x).incomingJoin = x.incomingJoin ∧
      (f x).joined = x.joined)
    (hrun : ∀ r, self.find id = some r → (f r).snapshot.state = .running →
      r.snapshot.state = .running) : Safe (updateRecord owner id f) self := by
  cases hrecord : self.record owner id with
  | error e =>
    unfold Safe updateRecord
    simp [hrecord]
  | ok r =>
    obtain ⟨hprocess, hr⟩ := record_eq_ok.mp hrecord
    rw [← hprocess]
    exact wp_mapRecord h.slotsMatch hr fun self' hm _ => h.single hr hf hjoin (hrun r hr) hm

theorem start_safe : Safe (start owner id) self := by
  unfold Safe start
  simp only [wp_quiet]
  exact fun _ _ _ => transition_safe h (by simp)

theorem yieldRunning_safe : Safe (yieldRunning owner id) self :=
  transition_safe h (by simp)

theorem block_safe : Safe (block owner id) self := by
  unfold Safe block
  simp only [wp_quiet]
  intro _ _ r _ sequence _
  exact updateRecord_safe h ⟨fun _ => rfl, fun _ => rfl, fun _ h => h, fun _ h => h⟩
    (fun _ => ⟨rfl, rfl, rfl⟩) (fun _ _ hrun => by cases hrun)

theorem wake_safe {wait : ThreadWait} : Safe (wake owner wait) self := by
  unfold Safe wake
  simp only [wp_quiet]
  intro r _ _ _
  exact updateRecord_safe h (faithful_inState .ready) (fun _ => ⟨rfl, rfl, rfl⟩)
    (fun _ _ hrun => by cases hrun)

theorem requestStop_safe : Safe (requestStop owner id) self :=
  updateRecord_safe h ⟨fun _ => rfl, fun _ => rfl, fun _ h => h, fun _ h => h⟩
    (fun _ => ⟨rfl, rfl, rfl⟩) (fun _ _ hrun => hrun)

theorem detach_safe : Safe (detach owner id) self := by
  unfold Safe detach
  simp only [wp_quiet]
  intro r _ _ _
  exact updateRecord_safe h ⟨fun _ => rfl, fun _ => rfl, fun _ h => h, fun _ h => h⟩
    (fun _ => ⟨rfl, rfl, rfl⟩) (fun _ _ hrun => hrun)

theorem releaseResources_safe : Safe (releaseResources owner id) self := by
  unfold Safe releaseResources
  simp only [wp_quiet]
  intro r _ _ _ _
  exact updateRecord_safe h ⟨fun _ => rfl, fun _ => rfl, fun _ _ => rfl, fun _ h => h⟩
    (fun _ => ⟨rfl, rfl, rfl⟩) (fun _ _ hrun => hrun)

end

theorem mem_records (h : self.find id = some r) : r ∈ self.records := by
  obtain ⟨hvalue, -⟩ := find_eq_some h
  obtain ⟨slot, hslot, hsome⟩ := Option.bind_eq_some_iff.mp hvalue
  exact List.mem_filterMap.mpr ⟨slot, List.mem_of_getElem? hslot, hsome⟩

/-- `dispatch` makes a thread run when no thread does. -/
theorem dispatch_safe (h : Lifecycle self) : Safe (dispatch owner id) self := by
  unfold Safe dispatch
  simp only [wp_quiet]
  intro _ _ _ _ hidle
  refine wp_transition h.slotsMatch (fun _ => rfl) fun r self' _ hr _ hm _ => ?_
  have hnone : ∀ t x, self.find t = some x → x.snapshot.state ≠ .running := by
    intro t x hx hrun
    exact hidle (List.any_eq_true.mpr ⟨x, mem_records hx, decide_eq_true hrun⟩)
  have hat : ∀ t x, (self.find t).map (onlyAt id (inState .running)) = some x →
      x.snapshot.state = .running → t = id := by
    intro t x hx hrun
    obtain ⟨x0, hx0, rfl⟩ := Option.map_eq_some_iff.mp hx
    by_contra hne
    rw [onlyAt_of_ne (by rwa [(find_eq_some hx0).2])] at hrun
    exact hnone t x0 hx0 hrun
  exact h.mapped hm ((faithful_inState .running).onlyAt id)
    (fun t t' x x' hx hx' hrun hrun' => (hat t x hx hrun).trans (hat t' x' hx' hrun').symm)
    (h.joins.onlyAt (f := inState .running) (fun _ => ⟨rfl, rfl, rfl⟩) id)

end ThreadTable

end Troe.Task
