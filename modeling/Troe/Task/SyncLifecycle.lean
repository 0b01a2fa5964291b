import Troe.Task.SyncCalls

/-!
# Objects, processes and threads that come and go

The remaining calls keep consistency as well: creating and destroying objects, registering and
removing processes, a thread that exits, a process that is stopped, and the calls on the thread
table in between.
-/

namespace Troe.Task

open Lib
open Function (update update_apply update_of_ne update_self)

namespace View

variable {v : View} {id : ObjectId} {debt : ObjectId → ℕ} {past : List SyncEvent}

/-! ## Objects -/

/-- A new object. -/
def create (v : View) (id : ObjectId) (k : Kind) : View :=
  { v with
    kind := update v.kind id (some k)
    history := v.history ++ [.created id k]
    objectGeneration := update v.objectGeneration id.slot id.generation }

/-- An object is gone. -/
def destroy (v : View) (id : ObjectId) : View :=
  { v with kind := update v.kind id none }

/-- No event is about an object that does not exist yet. -/
theorem Ledger.object_ne (h : v.Ledger debt) (hid : v.objectGeneration id.slot < id.generation)
    {e : SyncEvent} (he : e ∈ v.history) : e.object ≠ id := by
  intro heq
  have := h.past e he
  rw [heq] at this
  omega

/-- What only the events of an object add up to is zero before it exists. -/
theorem Ledger.sum_eq_zero (h : v.Ledger debt) (hid : v.objectGeneration id.slot < id.generation)
    {f : SyncEvent → ℕ} (hf : ∀ e, e.object ≠ id → f e = 0) : (v.history.map f).sum = 0 := by
  rw [List.sum_eq_zero_iff_forall_eq_nat]
  intro n hn
  obtain ⟨e, he, rfl⟩ := List.mem_map.mp hn
  exact hf e (h.object_ne hid he)

namespace Consistent

/-- A new object is in a slot of its own: it has no queue, no owner and no events before it. -/
theorem create (h : v.Consistent past none fun _ => 0) {k : Kind} (hdead : v.kind id = none)
    (hgeneration : v.objectGeneration id.slot < id.generation) (howner : k.owner = none)
    (hstock : ∀ count maximum, k = .permit count maximum → count ≤ maximum) :
    (v.create id k).Consistent past none fun _ => 0 := by
  have hempty := h.inv.queue_of_dead hdead
  have hcases : ∀ id' k', update v.kind id (some k) id' = some k' →
      (id' = id ∧ k' = k) ∨ (id' ≠ id ∧ v.kind id' = some k') := fun _ _ => update_eq_some.mp
  -- a live object is not the new one
  have hkeep : ∀ id' k', v.kind id' = some k' → update v.kind id (some k) id' = some k' := by
    intro id' k' hk'
    refine update_eq_some.mpr (.inr ⟨fun heq => ?_, hk'⟩)
    rw [heq, hdead] at hk'
    cases hk'
  have hgrow : ∀ n, v.objectGeneration n ≤ update v.objectGeneration id.slot id.generation n := by
    intro n
    by_cases hn : n = id.slot
    · rw [hn, update_self]
      exact Nat.le_of_lt hgeneration
    · exact Nat.le_of_eq (update_of_ne hn _ _).symm
  have hinv : (v.create id k).Inv none :=
    { h.inv with
      sound := fun i w hw => (h.inv.sound i w hw).congr
        (fun _ k0 hk0 hne => ⟨k0, hkeep _ _ hk0, hne⟩) (fun _ _ hk0 => hkeep _ _ hk0)
        fun _ owner poisoned policy _ hk0 => ⟨owner, poisoned, policy, hkeep _ _ hk0⟩
      holder := fun id' k' t hk' howner' => by
        rcases hcases id' k' hk' with ⟨-, rfl⟩ | ⟨-, hold⟩
        · rw [howner] at howner'
          cases howner'
        · exact h.inv.holder id' k' t hold howner'
      idle := fun id' poisoned policy hk' hopen => by
        rcases hcases id' _ hk' with ⟨rfl, -⟩ | ⟨-, hold⟩
        · exact hempty
        · exact h.inv.idle id' poisoned policy hold hopen
      stock := fun id' count maximum hk' => by
        rcases hcases id' _ hk' with ⟨rfl, hk⟩ | ⟨-, hold⟩
        · exact ⟨hstock count maximum hk.symm, fun _ => hempty⟩
        · exact h.inv.stock id' count maximum hold }
  have hfifo : (v.create id k).Fifo :=
    { h.fifo.emit (e := .created id k) (fun _ => rfl) (fun _ => rfl) with }
  -- no wait is for an object that was not there
  have howned : (v.create id k).Owned := by
    refine ⟨fun i w owner poisoned policy hw hk' => ?_, h.owned.cause, fun id' owner policy hk' => ?_⟩
    · obtain ⟨k0, hk0⟩ := (h.inv.sound i w hw).kind_target
      rcases hcases _ _ hk' with ⟨heq, -⟩ | ⟨-, hold⟩
      · rw [heq, hdead] at hk0
        cases hk0
      · exact h.owned.holds i w owner poisoned policy hw hold
    · rcases hcases _ _ hk' with ⟨-, rfl⟩ | ⟨-, hold⟩
      · exact howner
      · exact h.owned.dead id' owner policy hold
  refine ⟨⟨hinv, hfifo, ⟨fun id' count maximum hk' => ?_, fun e he => ?_, fun id' k' hk' => ?_,
    fun id' k0 k' hmem hk' => ?_, fun id' k' hk' => ?_⟩, ?_⟩, howned⟩
  · show Task.income (v.history ++ [_]) id' + 0 = count + Task.outgo (v.history ++ [_]) id'
    rw [income_append, outgo_append]
    rcases hcases id' _ hk' with ⟨rfl, hk⟩ | ⟨hne, hold⟩
    · rw [Task.income, h.ledger.sum_eq_zero hgeneration fun _ => SyncEvent.income_of_ne,
        Task.outgo, h.ledger.sum_eq_zero hgeneration fun _ => SyncEvent.outgo_of_ne, ← hk]
      simp [SyncEvent.income, SyncEvent.outgo]
    · have hbalance := h.ledger.balance id' count maximum hold
      rw [SyncEvent.income_of_ne (Ne.symm hne)]
      exact hbalance
  · rcases List.mem_append.mp he with he | he
    · exact Nat.le_trans (h.ledger.past e he) (hgrow _)
    · rw [List.mem_singleton.mp he]
      exact Nat.le_of_eq (update_self (β := fun _ => ℕ) ..).symm
  · rcases hcases id' k' hk' with ⟨rfl, -⟩ | ⟨-, hold⟩
    · exact Nat.le_of_eq (update_self (β := fun _ => ℕ) ..).symm
    · exact Nat.le_trans (h.ledger.live id' k' hold) (hgrow _)
  · rcases List.mem_append.mp hmem with hpast | hnew
    · rcases hcases id' k' hk' with ⟨heq, -⟩ | ⟨-, hold⟩
      · exact absurd heq (h.ledger.object_ne hgeneration hpast)
      · exact h.ledger.kinds id' k0 k' hpast hold
    · obtain ⟨rfl, rfl⟩ := SyncEvent.created.inj (List.mem_singleton.mp hnew)
      rcases hcases id' k' hk' with ⟨-, rfl⟩ | ⟨hne, -⟩
      · cases k' <;> trivial
      · exact absurd rfl hne
  · rcases hcases id' k' hk' with ⟨rfl, -⟩ | ⟨-, hold⟩
    · exact ⟨k, List.mem_append_right _ (List.mem_singleton.mpr rfl)⟩
    · obtain ⟨k0, hmem⟩ := h.ledger.born id' k' hold
      exact ⟨k0, List.mem_append_left _ hmem⟩
  · refine h.recorded.mono [.created id k] rfl (by simp) (by simp)
      (fun _ w hw => ⟨w, hw, rfl, rfl, rfl⟩) fun id' k' hpast hk' => ?_
    rcases hcases id' k' hk' with ⟨heq, -⟩ | ⟨-, hold⟩
    · exact absurd heq (h.ledger.object_ne hgeneration hpast)
    · exact .inl hold

/-- An object that no wait refers to takes nothing with it. -/
theorem destroy (h : v.Consistent past none fun _ => 0)
    (hfree : ∀ i w, v.wait i = some w → ¬ SyncState.Refers w id) :
    (v.destroy id).Consistent past none fun _ => 0 := by
  have hkind : ∀ id' k', (v.destroy id).kind id' = some k' ↔ v.kind id' = some k' ∧ id' ≠ id := by
    intro id' k'
    show update v.kind id none id' = some k' ↔ _
    by_cases heq : id' = id <;> simp [heq]
  have hcases : ∀ id' k', update v.kind id none id' = some k' → v.kind id' = some k' :=
    fun id' k' hk' => ((hkind id' k').mp hk').1
  have hinv : (v.destroy id).Inv none := by
    refine h.inv.restrict (W := fun _ => True) (K := (· ≠ id))
      (fun _ _ => (iff_of_eq (and_true _)).symm) hkind (fun _ _ => rfl) (fun id' hid => ?_)
      (fun i w hw _ => ⟨fun heq => hfree i w hw (.inl heq), fun m hm heq =>
        hfree i w hw (.inr ⟨m, hm, heq⟩)⟩)
      (fun i w id' hw hplace => iff_of_true trivial fun heq =>
        hfree i w hw (heq ▸ SyncState.refers_of_place hplace))
      (fun _ _ _ hr => hr) (fun _ _ r _ _ hr => ⟨r, hr⟩) h.inv.counted h.inv.retired
    rw [List.eq_nil_iff_forall_not_mem]
    intro i hi
    obtain ⟨w, hw, hplace⟩ := (h.inv.member id' i).mp hi
    exact hfree i w hw (not_not.mp hid ▸ SyncState.refers_of_place hplace)
  have hledger : (v.destroy id).Ledger fun _ => 0 :=
    { h.ledger with
      balance := fun id' count maximum hk' =>
        h.ledger.balance id' count maximum (hcases id' _ hk')
      live := fun id' k' hk' => h.ledger.live id' k' (hcases id' k' hk')
      kinds := fun id' k0 k' hmem hk' => h.ledger.kinds id' k0 k' hmem (hcases id' k' hk')
      born := fun id' k' hk' => h.ledger.born id' k' (hcases id' k' hk') }
  exact ⟨⟨hinv, { h.fifo with }, hledger, h.recorded.congr rfl
      (fun _ w hw => ⟨w, hw, rfl, rfl, rfl⟩) fun id' k' hk' => hcases id' k' hk'⟩,
    h.owned.mono (fun _ _ hw => hw) fun id' _ _ _ hk' => hcases id' _ hk'⟩

end Consistent

/-! ## Processes -/

/-- A process is stopped: its waits and objects are gone, its threads are revoked. -/
def stop (v : View) (owner : ProcessId) (gone : List ObjectId) : View :=
  { v with
    history := v.history ++ gone.map .retired
    wait := fun i => (v.wait i).filter (·.token.thread.process ≠ owner)
    queue := fun id => if id.process = owner then [] else v.queue id
    kind := fun id => if id.process = owner then none else v.kind id
    thread := fun t => (v.thread t).map fun r =>
      if t.process = owner then SyncState.drainedRecord (ThreadTable.stoppedRecord r) else r
    owned := fun t => if t.process = owner then 0 else v.owned t }

namespace Consistent

variable {owner : ProcessId}

/-- What is left after a process was stopped belongs to other processes. -/
theorem stop (h : v.Consistent past none fun _ => 0) (owner : ProcessId) (gone : List ObjectId)
    (hgone : ∀ id ∈ gone, id.process = owner ∧ ∃ k, v.kind id = some k) :
    (v.stop owner gone).Consistent past none fun _ => 0 := by
  have hwait : ∀ i w, (v.stop owner gone).wait i = some w ↔
      v.wait i = some w ∧ w.token.thread.process ≠ owner := by
    intro i w
    show (v.wait i).filter _ = some w ↔ _
    rw [Option.filter_eq_some_iff, decide_eq_true_eq]
  have hkind : ∀ id k, (v.stop owner gone).kind id = some k ↔
      v.kind id = some k ∧ id.process ≠ owner := by
    intro id k
    show (if id.process = owner then none else v.kind id) = some k ↔ _
    by_cases hid : id.process = owner <;> simp [hid]
  have hqueue : ∀ id, id.process ≠ owner → (v.stop owner gone).queue id = v.queue id :=
    fun id hid => if_neg hid
  have hempty : ∀ id, ¬ id.process ≠ owner → (v.stop owner gone).queue id = [] :=
    fun id hid => if_pos (not_not.mp hid)
  have hthread : ∀ t r, t.process ≠ owner → v.thread t = some r →
      (v.stop owner gone).thread t = some r := by
    intro t r ht hr
    show (v.thread t).map _ = some r
    rw [hr, Option.map_some, if_neg ht]
  have hthread' : ∀ t r, (v.stop owner gone).thread t = some r → ∃ r0, v.thread t = some r0 ∧
      r = if t.process = owner then SyncState.drainedRecord (ThreadTable.stoppedRecord r0)
        else r0 := by
    intro t r hr
    obtain ⟨r0, hr0, heq⟩ := Option.map_eq_some_iff.mp hr
    exact ⟨r0, hr0, heq.symm⟩
  have hinv : (v.stop owner gone).Inv none := by
    refine h.inv.restrict (K := (·.process ≠ owner)) hwait hkind hqueue hempty (fun i w hw hne => ?_)
      (fun i w id hw hplace => ?_) (fun w r => hthread _ r)
      (fun id t r hid hprocess hr => ⟨r, hthread t r (hprocess ▸ hid) hr⟩)
      (fun t r hr => ?_) fun t r hr => ?_
    · have hsound := h.inv.sound i w hw
      refine ⟨by rwa [hsound.process], fun m hm => ?_⟩
      rwa [(hsound.condition m hm).2.1]
    · rw [(h.inv.sound i w hw).process_of_place hplace]
    · obtain ⟨r0, hr0, rfl⟩ := hthread' t r hr
      show _ = if t.process = owner then 0 else v.owned t
      by_cases ht : t.process = owner
      · rw [if_pos ht, if_pos ht]
        rfl
      · rw [if_neg ht, if_neg ht]
        exact h.inv.counted t r0 hr0
    · obtain ⟨r0, hr0, rfl⟩ := hthread' t r hr
      by_cases ht : t.process = owner
      · rw [if_pos ht]
        exact fun _ => ⟨rfl, rfl, .inr rfl⟩
      · rw [if_neg ht]
        exact h.inv.retired t r0 hr0
  have hold : ∀ t r, (v.stop owner gone).thread t = some r → ∃ r0, v.thread t = some r0 ∧
      r0.waitSequence ≤ r.waitSequence := by
    intro t r hr
    obtain ⟨r0, hr0, rfl⟩ := hthread' t r hr
    refine ⟨r0, hr0, ?_⟩
    by_cases ht : t.process = owner
    · rw [if_pos ht]
      exact le_rfl
    · exact Nat.le_of_eq (congrArg Record.waitSequence (if_neg ht)).symm
  have hfifo : (v.stop owner gone).Fifo := by
    refine h.fifo.mono (arrivals_retired _ _) (grants_retired _ _) (fun id => ?_)
      (fun t r hr => .inl (hold t r hr))
      (fun t r hr => ?_) (fun _ => le_rfl) fun i w m hw _ _ => ⟨i, ((hwait i w).mp hw).1⟩
    · by_cases hid : id.process = owner
      · rw [tokens, hempty id (not_not.mpr hid)]
        exact List.nil_sublist _
      · have htokens : (v.stop owner gone).tokens id = v.tokens id := by
          rw [tokens, hqueue id hid]
          apply List.filterMap_congr
          intro i hi
          obtain ⟨w, hw, hplace⟩ := (h.inv.member id i).mp hi
          have hw' := (hwait i w).mpr ⟨hw, by
            rwa [← (h.inv.sound i w hw).process_of_place hplace]⟩
          rw [hw, hw']
        rw [htokens]
    · obtain ⟨r0, hr0, -⟩ := hold t r hr
      exact h.fifo.live t r0 hr0
  have hledger : (v.stop owner gone).Ledger fun _ => 0 :=
    { h.ledger with
      balance := fun id count maximum hk => by
        show Task.income (v.history ++ _) id + 0 = count + Task.outgo (v.history ++ _) id
        rw [income_retired, outgo_retired]
        exact h.ledger.balance id count maximum ((hkind id _).mp hk).1
      past := fun e he => by
        rcases List.mem_append.mp he with he | he
        · exact h.ledger.past e he
        · obtain ⟨id, hid, rfl⟩ := List.mem_map.mp he
          obtain ⟨-, k, hk⟩ := hgone id hid
          exact h.ledger.live id k hk
      live := fun id k hk => h.ledger.live id k ((hkind id k).mp hk).1
      kinds := fun id k0 k hmem hk => by
        refine h.ledger.kinds id k0 k ?_ ((hkind id k).mp hk).1
        simpa [View.stop] using hmem
      born := fun id k hk => by
        obtain ⟨k0, hmem⟩ := h.ledger.born id k ((hkind id k).mp hk).1
        exact ⟨k0, List.mem_append_left _ hmem⟩ }
  -- the objects that are gone have no kind any more
  have hrecorded : (v.stop owner gone).Recorded past := by
    refine ⟨h.recorded.past.trans (List.prefix_append _ _), fun i w source mutex hw he => ?_,
      fun token source mutex he => ?_, fun id k he hk => ?_⟩
    · exact h.recorded.waits i w source mutex ((hwait i w).mp hw).1 (by simpa [View.stop] using he)
    · show token ∈ arrivals (v.history ++ _) source
      rw [arrivals_retired]
      exact h.recorded.queued token source mutex (by simpa [View.stop] using he)
    · obtain ⟨hk, hid⟩ := (hkind id k).mp hk
      rcases List.mem_append.mp he with he | he
      · exact h.recorded.retired id k he hk
      · obtain ⟨id', hid', heq⟩ := List.mem_map.mp he
        cases heq
        exact absurd (hgone id hid').1 hid
  exact ⟨⟨hinv, hfifo, hledger, hrecorded⟩, h.owned.mono (fun i w hw => ((hwait i w).mp hw).1)
    fun id _ _ _ hk => ((hkind id _).mp hk).1⟩

end Consistent

end View

namespace SyncState

variable {s : SyncState} {v : View} {id : ObjectId} {owner : ProcessId} {caller : ThreadId}
  {past : List SyncEvent}

/-! ## Calls on the thread table -/

/-- A calm change of the thread table. -/
theorem Consistent.calm {threads : ThreadTable} (hs : Consistent past s)
    (hcalm : ThreadTable.Calm s.threads threads) : Consistent past { s with threads } := by
  obtain ⟨v, h, hc⟩ := hs
  refine ⟨{ v with thread := threads.find, threadGeneration := threads.slots.generation },
    { h with thread := fun _ => rfl, threadGeneration := fun _ => rfl },
    ⟨?_, ?_, { hc.ledger with }, { hc.recorded with }⟩, { hc.owned with }⟩
  · -- the record of a thread that matters is still there
    have hkeep : ∀ t r, v.thread t = some r → r.syncWait = true ∨ 0 < v.owned t →
        ∃ r', threads.find t = some r' ∧ r.Keeps r' := by
      intro t r hr hmatters
      rcases hcalm.record t r (by rw [← h.thread, hr]) with hkept | ⟨-, hgone⟩
      · exact hkept
      · obtain ⟨hsync, howned⟩ := hgone (hc.inv.retired t r hr)
        rw [← hc.inv.counted t r hr, howned, hsync] at hmatters
        simp at hmatters
    exact
      { hc.inv with
        asleep := fun i w hw => by
          obtain ⟨r, hr, hsync, hseq, hblocked⟩ := hc.inv.asleep i w hw
          obtain ⟨r', hr', hk⟩ := hkeep _ r hr (.inl hsync)
          obtain ⟨hsync', hseq', hblocked'⟩ := hk.waiting hsync
          exact ⟨r', hr', hsync', hseq'.trans hseq, fun hp => hblocked' (hblocked hp)⟩
        holder := fun id k t hk howner => by
          obtain ⟨hprocess, r, hr⟩ := hc.inv.holder id k t hk howner
          obtain ⟨r', hr', -⟩ := hkeep t r hr (.inr (h.owned_pos hk howner))
          exact ⟨hprocess, r', hr'⟩
        counted := fun t r' hr' => by
          show r'.ownedMutexes = v.owned t
          rcases hcalm.origin hr' with ⟨r, hr, hk⟩ | ⟨hnone, howned, -⟩
          · rw [hk.owned]
            exact hc.inv.counted t r ((h.thread t).trans hr)
          · rw [howned]
            by_contra hne
            obtain ⟨id, k, hk, howner⟩ := h.exists_owner (t := t) (by omega)
            obtain ⟨-, r, hr⟩ := hc.inv.holder id k t hk howner
            rw [h.thread, hnone] at hr
            cases hr
        retired := fun t r' hr' => by
          rcases hcalm.origin hr' with ⟨r, hr, hk⟩ | ⟨-, -, hretired, -⟩
          · exact hk.retired (hc.inv.retired t r ((h.thread t).trans hr))
          · exact hretired }
  · refine hc.fifo.mono (fun _ => rfl) (fun _ => rfl) (fun _ => List.Sublist.refl _)
      (fun t r' hr' => ?_) (fun t r' hr' => ?_) (fun k => ?_) fun i w _ hw _ _ => ⟨i, hw⟩
    · rcases hcalm.origin hr' with ⟨r, hr, hk⟩ | ⟨-, -, -, hlt, -⟩
      · exact .inl ⟨r, (h.thread t).trans hr, hk.sequence⟩
      · rw [h.threadGeneration]
        exact .inr hlt
    · rcases hcalm.origin hr' with ⟨r, hr, -⟩ | ⟨-, -, -, -, hle⟩
      · have hlive := hc.fifo.live t r ((h.thread t).trans hr)
        rw [h.threadGeneration] at hlive
        exact Nat.le_trans hlive (hcalm.generation _)
      · exact hle
    · rw [h.threadGeneration]
      exact hcalm.generation k

/-- Calls on the thread table that are calm keep consistency. -/
theorem onThreads_preserves {α : Type} {x : ThreadAct α} (hx : ThreadTable.StaysCalm x) :
    Preserves (onThreads x) := by
  intro past s hs
  rw [wp_onThreads]
  exact Act.always_mono (hx s.threads) fun _ h => hs.calm h

/-- The registrations are no part of the view. -/
theorem preserves_processes (f : SyncState → List (Option SyncProcess)) :
    Preserves (Act.modify fun s => { s with sync := { s.sync with processes := f s } }) := by
  rintro past s ⟨v, h, hc⟩
  exact ⟨v, { h with }, hc⟩

/-- A registration changes no object and no wait. -/
theorem registerProcess_preserves {owner : ProcessId} {quota : SyncQuota} :
    Preserves (registerProcess owner quota) :=
  .get fun _ => .ofExcept fun _ => .reject fun _ => .reject fun _ => .reject fun _ => .okOr fun _ =>
    .bind (preserves_processes _) fun _ =>
      onThreads_preserves (ThreadTable.stays_updateProcess _).calm

/-- Nor does its removal. -/
theorem removeProcess_preserves {owner : ProcessId} : Preserves (removeProcess owner) :=
  .get fun _ => .ofExcept fun _ => .reject fun _ =>
    .bind (onThreads_preserves (ThreadTable.stays_updateProcess _).calm) fun _ =>
      preserves_processes _

/-! ## Objects -/

variable {owner : ProcessId} {caller : ThreadId}

/-- An object in a slot that was free. -/
theorem Represents.create (h : Represents s v) {opened : Option ObjectId} (hinv : v.Inv opened)
    {k : Kind} (hlt : id.slot < s.sync.objects.length)
    (hfree : s.sync.objects.value id.slot = none)
    (hgeneration : id.generation = s.sync.objects.generation id.slot + 1) (howner : k.owner = none) :
    Represents { s with
      sync := { s.sync with
        objects := s.sync.objects.occupy id.slot
          { id, kind := k, queue := { head := none, tail := none } } }
      history := s.history ++ [.created id k] } (v.create id k) := by
  have hdead : v.kind id = none := by
    rw [h.kind, SyncTable.find, hfree]
    rfl
  refine h.replace (GenSlab.value_occupy hlt _) GenSlab.length_occupy (by rw [h.history])
    (fun n => ?_) (fun o ho => Option.some.inj ho ▸ rfl) (fun o ho => ?_) (fun t => ?_)
    (fun o ho => ?_) fun hnone => by cases hnone
  · rw [GenSlab.generation_occupy hlt, update_apply, hgeneration, h.objectGeneration]
  · rw [hfree] at ho
    cases ho
  · rw [h.owned]
    refine (GenSlab.count_congr GenSlab.length_occupy fun n => ?_).symm
    rw [GenSlab.value_occupy hlt]
    split
    next hn =>
      rw [hn, hfree, Option.any_some, howner]
      rfl
    · rfl
  · rw [hinv.queue_of_dead hdead, ← Option.some.inj ho]
    exact linked_nil

/-- A new object starts without an owner and within its limit. -/
theorem create_preserves {kind : Kind} (howner : kind.owner = none)
    (hstock : ∀ count maximum, kind = .permit count maximum → count ≤ maximum) :
    Preserves (create owner caller kind) := by
  rintro past s ⟨v, h, hc⟩
  have hgood : Consistent past s := ⟨v, h, hc⟩
  unfold create
  rw [Act.wp_bind]
  refine wp_requireCaller (fun _ => hgood) fun _ _ _ _ _ => ?_
  simp only [wp_rules]
  refine ⟨fun _ _ => ⟨fun _ => hgood, fun _ => ⟨fun index hindex => ?_, fun _ => hgood⟩⟩,
    fun _ _ => hgood⟩
  obtain ⟨hlt, hfree⟩ := GenSlab.firstFree_eq_some hindex
  -- the event is logged with the write, before anything else can fail
  refine onThreads_preserves (ThreadTable.stays_updateProcess _).calm _ _ ?_
  refine ⟨_, h.create hc.inv hlt hfree rfl howner, hc.create ?_ ?_ howner hstock⟩
  · rw [h.kind, SyncTable.find, hfree]
    rfl
  · rw [h.objectGeneration]
    exact Nat.lt_succ_self _

theorem createMutex_preserves {policy : OwnerDeath} : Preserves (createMutex owner caller policy) :=
  (create_preserves rfl fun _ _ h => by cases h).bind fun _ => .pure _

theorem createCondition_preserves : Preserves (createCondition owner caller) :=
  (create_preserves rfl fun _ _ h => by cases h).bind fun _ => .pure _

/-- The initial count is checked against the maximum. -/
theorem createPermit_preserves {initial maximum : ℕ} :
    Preserves (createPermit owner caller initial maximum) := by
  intro past s hs
  unfold createPermit
  rw [Act.wp_bind, Act.wp_reject]
  refine ⟨fun _ => hs, fun hlimit => ?_⟩
  refine (create_preserves rfl ?_).bind (fun _ => .pure _) past s hs
  intro count maximum' heq
  obtain ⟨rfl, rfl⟩ := Kind.permit.inj heq
  omega

/-- An object nobody waits for and nobody owns is taken away. -/
theorem Represents.destroy (h : Represents s v) {opened : Option ObjectId} (hinv : v.Inv opened)
    {o : Object} (ho : s.sync.find id = some o) (howner : o.kind.owner = none)
    (hfree : ∀ i w, v.wait i = some w → ¬ Refers w id) :
    Represents (s.setObject id.slot none) (v.destroy id) := by
  obtain ⟨hvalue, hid⟩ := find_eq_some ho
  have hlt := GenSlab.lt_length_of_value hvalue
  have hempty : v.queue id = [] := by
    rw [List.eq_nil_iff_forall_not_mem]
    intro i hi
    obtain ⟨w, hw, hplace⟩ := (hinv.member id i).mp hi
    exact hfree i w hw (refers_of_place hplace)
  refine h.replace (GenSlab.value_put hlt _) (GenSlab.length_put _) h.history
    (fun n => (h.objectGeneration n).trans (GenSlab.generation_put _ _).symm)
    (fun o' ho' => by cases ho') (fun o' ho' => Option.mem_unique hvalue ho' ▸ hid)
    (fun t => ?_) (fun o' ho' => by cases ho') fun _ => hempty
  rw [h.owned]
  refine (GenSlab.count_congr (GenSlab.length_put _) fun n => ?_).symm
  rw [GenSlab.value_put hlt]
  split
  next hn =>
    rw [hn, hvalue, Option.any_some, howner]
    rfl
  · rfl

/-- An object is destroyed only when nobody holds it or refers to it. -/
theorem destroy_preserves : Preserves (destroy owner caller id) := by
  rintro past s ⟨v, h, hc⟩
  have hgood : Consistent past s := ⟨v, h, hc⟩
  unfold destroy
  rw [Act.wp_bind]
  refine wp_requireCaller (fun _ => hgood) fun _ _ _ _ _ => ?_
  simp only [wp_quiet, object_eq_ok, hgood, not_or, Bool.not_eq_true]
  rintro o ⟨-, ho⟩ hbusy
  have howner : o.kind.owner = none := by
    cases hkind : o.kind with
    | mutex holder poisoned policy =>
      have := hbusy.1
      simp only [Object.isHeld, hkind, Option.isSome_eq_false_iff, Option.isNone_iff_eq_none] at this
      exact this
    | _ => rfl
  have hfree : ∀ i w, v.wait i = some w → ¬ Refers w id := by
    intro i w hw hrefers
    obtain ⟨w0, hw0, rfl⟩ := h.waiter_eq hw
    have hmem : w0 ∈ s.sync.waiters := by
      have hlt := lt_length_of_slotAt hw0
      have hget : s.sync.waits[i] = some w0 := by simpa [SyncTable.waiter, slotAt, hlt] using hw0
      exact List.mem_filterMap.mpr ⟨some w0, hget ▸ List.getElem_mem hlt, rfl⟩
    exact List.any_eq_false.mp hbusy.2 w0 hmem (references_info.mpr hrefers)
  refine onThreads_preserves (ThreadTable.stays_updateProcess _).calm _ _ ?_
  exact ⟨_, h.destroy hc.inv ho howner hfree, hc.destroy hfree⟩

end SyncState

end Troe.Task
