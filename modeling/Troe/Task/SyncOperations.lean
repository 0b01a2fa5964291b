import Troe.Task.SyncTransitions

/-!
# The operations of the synchronization table

Weakest preconditions for the parts the operations share: granting a mutex, moving a wait from a
condition to its mutex, admitting a wait and poisoning a mutex. None of them can fail in a
consistent state.
-/

namespace Troe.Task

open Lib
open Act (wp_bind wp_get wp_ite)
open Function (update update_of_ne update_self)

namespace SyncState

variable {s s' : SyncState} {v : View} {i : ℕ} {id : ObjectId} {w : WaitInfo} {r : Record}
  {debt : ObjectId → ℕ} {past : List SyncEvent} {Q : Unit → SyncState → Prop}
  {R : SyncError → SyncState → Prop} {options : WaitOptions} {now : ℕ} {cause outcome : SyncOutcome}
  {t : ThreadId} {α : Type} {q : List ℕ} {opened : Option ObjectId} {mutex m : MutexId}
  {policy : OwnerDeath} {w0 : Waiter} {poisoned : Bool} {owner : Option ThreadId} {token : SyncWait}
  {source : ObjectId} {v' : View}

/-- What `due` answers for a thread with the given record. -/
def dueOutcome (r : Record) (options : WaitOptions) (now : ℕ) : Option SyncOutcome :=
  if options.deadline.any (· ≤ now) then some .timedOut
  else if options.observeStop && r.snapshot.stopRequested then some .stopped else none

theorem dueOutcome_ne
    (h : dueOutcome r options now = some cause) : cause ≠ .acquired ∧ cause ≠ .poisoned := by
  unfold dueOutcome at h
  split at h
  · cases h
    simp
  · split at h
    · cases h
      simp
    · cases h

theorem due_eq {threads : ThreadTable} (h : threads.find t = some r)
    (options : WaitOptions) (now : ℕ) :
    due threads t options now = .ok (dueOutcome r options now) := by
  have hrecord : threads.record t.process t = .ok r := ThreadTable.record_eq_ok.mpr ⟨rfl, h⟩
  unfold due dueOutcome
  rw [hrecord]
  by_cases hdeadline : options.deadline.any (· ≤ now) = true
  · rw [if_pos hdeadline, if_pos hdeadline]
  · rw [if_neg hdeadline, if_neg hdeadline]
    cases options.observeStop <;> simp [Except.mapError, bind, Except.bind, pure, Except.pure]

/-- `due` on a thread that is alive. -/
theorem Represents.wp_due {f : Option SyncOutcome → SyncAct α}
    {Q : α → SyncState → Prop} (h : Represents s v) (hr : v.thread t = some r)
    (hf : (f (dueOutcome r options now)).wp Q R s) :
    (Act.ofExcept (due s.threads t options now) >>= f).wp Q R s := by
  rw [h.thread] at hr
  rw [due_eq hr, wp_bind]
  simpa using hf

/-- Reading a wait slot that is occupied. -/
theorem Represents.wp_read {f : Waiter → SyncAct α} {Q : α → SyncState → Prop}
    (h : Represents s v) (hw : v.wait i = some w)
    (hf : ∀ w0 : Waiter, s.sync.waiter i = some w0 → w0.info = w → (f w0).wp Q R s) :
    (waiter i >>= f).wp Q R s := by
  obtain ⟨w0, hw0, hinfo⟩ := h.waiter_eq hw
  rw [wp_bind, wp_waiter hw0]
  exact hf w0 hw0 hinfo

/-! ## Granting a mutex -/

/-- All objects but one are as before. -/
def SameElsewhere (id : ObjectId) (v v' : View) : Prop :=
  ∀ id', id' ≠ id → v'.kind id' = v.kind id' ∧ v'.queue id' = v.queue id'

theorem sameElsewhere_complete (v : View) (id : ObjectId) (i : ℕ) (w : WaitInfo) (r : Record)
    (outcome : SyncOutcome) : SameElsewhere id v ((v.leave id i).complete i w r outcome) :=
  fun _ hne => ⟨rfl, update_of_ne hne _ _⟩

theorem queue_complete (hq : v.queue id = i :: q) (w : WaitInfo) (r : Record)
    (outcome : SyncOutcome) : ((v.leave id i).complete i w r outcome).queue id = q := by
  show update v.queue id ((v.queue id).erase i) id = q
  rw [update_self, hq, List.erase_cons_head]

/-- `complete_wait` on a wait that was just taken off its queue. -/
theorem Represents.wp_finish (h : Represents s (v.leave id i))
    (hc : v.Consistent past opened debt) (hi : i ∈ v.queue id)
    (hloses : ∀ w, v.wait i = some w → w.Loses v.kind outcome)
    (hQ : ∀ s' w r, v.wait i = some w → v.thread w.token.thread = some r →
      Represents s' ((v.leave id i).complete i w r outcome) →
      ((v.leave id i).complete i w r outcome).Consistent past opened debt → Q () s') :
    (completeWait i outcome).wp Q R s := by
  obtain ⟨w, r, hw, -, hr, hsync, hseq, hblocked⟩ := hc.inv.blocked_of_mem hi
  refine h.wp_completeWait hw (hc.inv.notMem_leave hi) hr hsync hblocked hseq fun s' h' => ?_
  exact hQ s' w r hw hr h' (hc.finish hi hw hr (hloses w hw))

/-- The first waiter gets the mutex. -/
theorem Represents.wp_grantTo (h : Represents s (v.leave mutex.object i))
    (hc : v.Consistent past (some mutex.object) debt)
    (hk : v.kind mutex.object = some (.mutex none false policy))
    (hq : v.queue mutex.object = i :: q) (hw : v.wait i = some w0.info)
    (hholds : WaitInfo.Holds { w0.info with phase := .complete outcome })
    (hQ : ∀ s' v', Represents s' v' → v'.Consistent past none debt →
      SameElsewhere mutex.object v v' → Q () s') :
    (grantTo mutex i w0 outcome).wp Q R s := by
  have hi : i ∈ v.queue mutex.object := by simp [hq]
  obtain ⟨w, r, hw', -, hr, hsync, hseq, hblocked⟩ := hc.inv.blocked_of_mem hi
  obtain rfl := Option.mem_unique hw hw'
  unfold grantTo
  rw [wp_bind]
  refine h.wp_setOwner_some hk hr fun s1 h1 => ?_
  rw [wp_bind]
  refine h1.wp_completeWait (r := { r with ownedMutexes := r.ownedMutexes + 1 }) hw
    (hc.inv.notMem_leave hi) (update_self ..) hsync hblocked hseq fun s2 h2 => ?_
  have htarget := ((hc.inv.sound i _ hw).target_of_place (hc.inv.place_of_mem hi hw) hk).1
  refine hQ _ _ (h2.emit _) (hc.grantMutex hk hq hw hr htarget hholds) fun id' hne => ?_
  exact ⟨update_of_ne hne _ _, update_of_ne hne _ _⟩

/-- The loop of `grant_mutex` on an open mutex. -/
theorem Represents.wp_grantLoop
    {fuel : ℕ} (h : Represents s v) (hc : v.Consistent past (some mutex.object) debt)
    (hk : v.kind mutex.object = some (.mutex none poisoned policy))
    (hfuel : (v.queue mutex.object).length < fuel)
    (hQ : ∀ s' v', Represents s' v' → v'.Consistent past none debt →
      SameElsewhere mutex.object v v' → Q () s') :
    (grantLoop mutex poisoned now fuel).wp Q R s := by
  induction fuel generalizing s v with
  | zero => cases hfuel
  | succ fuel ih =>
    rw [grantLoop, wp_bind]
    refine h.wp_pop hk (fun hempty => ?_) fun i q s1 hq h1 => ?_
    · exact hQ s v h (hc.close fun _ _ _ => hempty) fun _ _ => ⟨rfl, rfl⟩
    have hi : i ∈ v.queue mutex.object := by simp [hq]
    -- a wait that is not granted the mutex leaves a shorter queue
    have hnext : ∀ outcome, (∀ w, v.wait i = some w → w.Loses v.kind outcome) →
        (completeWait i outcome >>= fun _ => grantLoop mutex poisoned now fuel).wp Q R s1 := by
      intro outcome hloses
      rw [wp_bind]
      refine h1.wp_finish hc hi hloses fun s2 w r _ _ h2 hc2 => ?_
      refine ih h2 hc2 hk ?_ fun s' v' h' hc' hsame => hQ s' v' h' hc' fun id' hne => ?_
      · rw [queue_complete hq]
        rw [hq, List.length_cons] at hfuel
        omega
      · obtain ⟨hkind, hqueue⟩ := hsame id' hne
        obtain ⟨hkind0, hqueue0⟩ := sameElsewhere_complete v mutex.object i w r outcome id' hne
        exact ⟨hkind.trans hkind0, hqueue.trans hqueue0⟩
    obtain ⟨w, r, hw, -, hr, -⟩ := hc.inv.blocked_of_mem hi
    refine h1.wp_read hw fun w0 _ hinfo => ?_
    subst hinfo
    rw [wp_ite]
    refine ⟨fun _ => hnext .poisoned fun w _ => w.loses_poisoned _, fun halive => ?_⟩
    rw [Bool.not_eq_true] at halive
    subst halive
    obtain ⟨-, hcases⟩ :=
      (hc.inv.sound i _ hw).target_of_place (hc.inv.place_of_mem hi hw) hk
    rcases hcases with ⟨cause, hphase, m, hm⟩ | ⟨hphase, hm⟩
    · have hheld : WaitInfo.Holds { w0.info with phase := .complete cause } := by
        simpa [WaitInfo.Holds, hm] using hc.owned.cause i _ cause hw hphase
      rw [show w0.phase = .reacquiring cause from hphase]
      exact h1.wp_grantTo hc hk hq hw hheld hQ
    · have hheld : WaitInfo.Holds { w0.info with phase := .complete .acquired } := by
        simp [WaitInfo.Holds, hm]
      rw [show w0.phase = .queued from hphase]
      refine h1.wp_due hr ?_
      cases hdue : dueOutcome r w0.options now with
      | some cause =>
        refine hnext cause fun x hx => ?_
        obtain rfl := Option.mem_unique hw hx
        exact WaitInfo.loses_of_mutex_eq_none hm (dueOutcome_ne hdue).1
      | none => exact h1.wp_grantTo hc hk hq hw hheld hQ

/-- `grant_mutex`. -/
theorem Represents.wp_grantMutex (h : Represents s v)
    (hc : v.Consistent past (some mutex.object) debt)
    (hk : v.kind mutex.object = some (.mutex owner poisoned policy))
    (hQ : ∀ s' v', Represents s' v' → v'.Consistent past none debt →
      SameElsewhere mutex.object v v' → Q () s') :
    (grantMutex mutex now).wp Q R s := by
  obtain ⟨o, ho, hkind⟩ := h.find_eq hk
  have hobject : s.sync.object mutex.object.process mutex.object = .ok o := by
    simp [SyncTable.object, rejectIf, okOr, ho, bind, Except.bind]
  unfold grantMutex
  simp only [wp_quiet, hobject, Except.ok.injEq, reduceCtorEq, false_imp_iff, forall_eq', hkind,
    wp_ite]
  refine ⟨fun howner => hQ s v h (hc.close fun _ _ hk' => ?_) fun _ _ => ⟨rfl, rfl⟩,
    fun howner => ?_⟩
  · rw [hk, Option.some.injEq, Kind.mutex.injEq] at hk'
    rw [hk'.1] at howner
    cases howner
  · rw [Bool.not_eq_true, Option.isSome_eq_false_iff, Option.isNone_iff_eq_none] at howner
    rw [howner] at hk
    refine h.wp_grantLoop hc hk ?_ hQ
    have := h.queue_length_le mutex.object
    rw [h.waitSlots] at this
    omega

/-! ## Conditions -/

/-- `reacquire` on a wait that was just taken off its condition. -/
theorem Represents.wp_reacquire
    (h : Represents s (v.leave id i)) (hc : v.Consistent past none debt) (hi : i ∈ v.queue id)
    (hw : v.wait i = some w) (hm : w.mutex = some m) (hphase : w.phase = .queued)
    (hcause : cause ≠ .poisoned)
    (hQ : ∀ s' v', Represents s' v' → v'.Consistent past none debt →
      SameElsewhere m.object (v.leave id i) v' → Q () s') :
    (reacquire i cause now).wp Q R s := by
  obtain ⟨owner, poisoned, policy, hk⟩ := ((hc.inv.sound i w hw).condition m hm).2.2
  have hout := hc.inv.notMem_leave hi
  refine h.wp_read hw fun w0 hw0 hinfo => ?_
  subst hinfo
  have hm' : w0.mutex = some m := hm
  have hqueued : w0.queuedOn = none := by simpa [queuedOn, hw0] using h.queuedOn_eq_none hout
  rw [hm']
  simp only [wp_known, wp_updateWaiter hw0]
  have h1 := h.setWaiter (lt_length_of_slotAt hw0) hout
    (w := some { w0 with phase := .reacquiring cause }) hqueued
  refine h1.wp_push (w := { w0.info with phase := .reacquiring cause }) (update_self ..) hout
    hk fun s2 h2 => ?_
  refine h2.wp_grantMutex (hc.move hi hw hm hphase hcause) hk fun s' v' h' hc' hsame => ?_
  refine hQ s' v' h' hc' fun id' hne => ?_
  obtain ⟨hkind, hqueue⟩ := hsame id' hne
  exact ⟨hkind, hqueue.trans (update_of_ne hne _ _)⟩

/-! ## Owners that die -/

/-- The owner of a mutex has its resources. -/
theorem Represents.holder_retains (h : Represents s v)
    (hinv : v.Inv opened) {k : Kind} (hk : v.kind id = some k)
    (howner : k.owner = some t) :
    ∃ r, v.thread t = some r ∧ r.snapshot.resourcesReleased = false := by
  obtain ⟨-, r, hr⟩ := hinv.holder id k t hk howner
  refine ⟨r, hr, ?_⟩
  have hpos := h.owned_pos hk howner
  rw [← hinv.counted t r hr] at hpos
  rw [← Bool.not_eq_true]
  intro hreleased
  have := (hinv.retired t r hr hreleased).2.1
  omega

/-- Whether a wait refers to an object, as `Waiter::references` tells. -/
def Refers (w : WaitInfo) (id : ObjectId) : Prop :=
  w.source = id ∨ ∃ m, w.mutex = some m ∧ m.object = id

theorem references_info : w0.references id = true ↔ Refers w0.info id := by
  simp only [Waiter.references, Refers, Waiter.info, Bool.or_eq_true, decide_eq_true_eq,
    Option.any_eq_true]

theorem refers_of_place (h : w.place = some id) : Refers w id := by
  unfold WaitInfo.place at h
  split at h
  · exact .inl (Option.some.inj h)
  · exact .inr (Option.map_eq_some_iff.mp h)
  · cases h

/-- A pending wait that refers to a mutex is on the queue `poison` looks at. -/
theorem place_for_poison {kind : ObjectId → Option Kind} (hsound : w0.info.Sound kind)
    (hk : kind mutex.object = some (.mutex owner poisoned policy)) (hpending : w0.phase.Pending)
    (hrefers : Refers w0.info mutex.object) :
    w0.info.place = some (placeForPoison mutex w0) := by
  unfold placeForPoison WaitInfo.place
  cases hphase : w0.phase with
  | queued => simp [Waiter.info, hphase]
  | complete outcome => exact absurd hphase (hpending outcome)
  | reacquiring cause =>
    obtain ⟨m, hm⟩ := hsound.reacquiring cause hphase
    simp only [Waiter.info, hphase]
    rcases hrefers with hsource | ⟨m', hm', heq⟩
    · -- the source of such a wait is a condition
      have hcondition := (hsound.condition m hm).1
      rw [hsource, hk] at hcondition
      cases hcondition
    · exact Option.map_eq_some_iff.mpr ⟨m', hm', heq⟩

/-- What the loop of `poison` keeps of the view it started in, with the slots it has passed. -/
structure Poisoning (past : List SyncEvent) (mutex : MutexId) (t : ThreadId) (debt : ObjectId → ℕ)
    (v0 : View) (visited : List ℕ) (s : SyncState) (v : View) : Prop where
  represents : Represents s v
  consistent : v.Consistent past (some mutex.object) debt
  kind : v.kind = v0.kind
  slots : v.waitSlots = v0.waitSlots
  history : v.history = v0.history
  quiet : v.Quiet t
  done : ∀ i ∈ visited, ∀ w, v.wait i = some w → Refers w mutex.object → ¬ w.phase.Pending

theorem Poisoning.wp_poisonWaiter
    {v0 : View} {visited : List ℕ} (h : Poisoning past mutex t debt v0 visited s v)
    (hk : v0.kind mutex.object = some (.mutex none true policy))
    (hQ : ∀ s' v', Poisoning past mutex t debt v0 (visited ++ [i]) s' v' → Q () s') :
    (poisonWaiter mutex i).wp Q R s := by
  -- a slot that is left alone
  have hskip : (∀ w, v.wait i = some w → Refers w mutex.object → ¬ w.phase.Pending) → Q () s := by
    intro hdone
    refine hQ s v { h with done := fun j hj => ?_ }
    rcases List.mem_append.mp hj with hj | hj
    · exact h.done j hj
    · rw [List.mem_singleton.mp hj]
      exact hdone
  rw [← h.kind] at hk
  unfold poisonWaiter
  rw [wp_bind, wp_get]
  cases hw0 : s.sync.waiter i with
  | none =>
    refine hskip fun w hw => ?_
    rw [h.represents.wait, hw0] at hw
    cases hw
  | some w0 =>
    have hw : v.wait i = some w0.info := by rw [h.represents.wait, hw0, Option.map_some]
    have hpoison : w0.phase.Pending → (if w0.references mutex.object = false then return ()
        else do
          unlink (placeForPoison mutex w0) i
          completeWait i .poisoned : SyncAct Unit).wp Q R s := by
      intro hpending
      rw [wp_ite]
      refine ⟨fun hno => hskip fun w hw' hrefers => ?_, fun hyes => ?_⟩
      · rw [← Option.mem_unique hw hw', ← references_info, hno] at hrefers
        cases hrefers
      · rw [Bool.not_eq_false, references_info] at hyes
        have hplace := place_for_poison (h.consistent.inv.sound i _ hw) hk hpending hyes
        have hi := (h.consistent.inv.member _ i).mpr ⟨_, hw, hplace⟩
        rw [wp_bind]
        refine h.represents.wp_unlink hi fun s1 h1 => ?_
        refine h1.wp_finish h.consistent hi (fun w _ => w.loses_poisoned _)
          fun s2 w r hw' _ h2 hc2 => hQ s2 _ ⟨h2, hc2, h.kind, h.slots, h.history,
            fun j x hx => ?_, fun j hj x hx hrefers => ?_⟩
        · rcases update_eq_some.mp hx with ⟨-, rfl⟩ | ⟨-, hx⟩
          · exact h.quiet i w hw'
          · exact h.quiet j x hx
        · rcases update_eq_some.mp hx with ⟨-, rfl⟩ | ⟨hj', hx⟩
          · exact fun hp => hp .poisoned rfl
          · have hj0 : j ∈ visited := by simpa [hj'] using hj
            exact h.done j hj0 x hx hrefers
    dsimp only
    cases hphase : w0.phase with
    | complete outcome =>
      refine hskip fun w hw' _ hp => ?_
      rw [← Option.mem_unique hw hw'] at hp
      exact hp outcome hphase
    | _ =>
      refine hpoison fun outcome heq => ?_
      rw [hphase] at heq
      cases heq

/-- A mutex was poisoned and retired, and no other object changed. -/
structure Poisoned (id : ObjectId) (t : ThreadId) (v v' : View) : Prop where
  quiet : v'.Quiet t
  history : v'.history = v.history ++ [.retired id]
  kind : ∃ policy, v'.kind = update v.kind id (some (.mutex none true policy))

/-- `poison` on a mutex that is owned. -/
theorem Represents.wp_poison (h : Represents s v) (hc : v.Consistent past none debt)
    (hk : v.kind mutex.object = some (.mutex (some t) poisoned policy)) (hquiet : v.Quiet t)
    (hQ : ∀ s' v', Represents s' v' → v'.Consistent past none debt →
      Poisoned mutex.object t v v' → Q () s') :
    (poison mutex).wp Q R s := by
  obtain ⟨r, hr, hretained⟩ := h.holder_retains hc.inv hk rfl
  unfold poison
  rw [wp_bind]
  refine h.wp_setOwner_none hk hr fun s1 h1 => ?_
  have hc1 := hc.release hk hr hretained hquiet
  have hk1 : (v.reown mutex.object (.mutex none poisoned policy) t r (· - 1)).kind mutex.object
      = some (.mutex none poisoned policy) := update_self ..
  obtain ⟨o, ho, hkind⟩ := h1.find_eq hk1
  simp only [wp_known, ho, hkind]
  refine h1.wp_setKind (.mutex none true policy) hk1 (fun o _ => rfl) rfl fun s2 h2 => ?_
  have hc2 := hc1.poison hk1
  have h3 := h2.emit (.retired mutex.object)
  refine Act.wp_forEach (fun visited s => ∃ v', Poisoning past mutex t debt _ visited s v')
    ⟨_, h3, hc2, rfl, rfl, rfl, hquiet, by simp⟩ ?_ ?_
  · rintro visited i s4 - ⟨v4, h4⟩
    exact h4.wp_poisonWaiter (update_self ..) fun s' v' h' => ⟨v', h'⟩
  · rintro s4 ⟨v4, h4⟩
    refine hQ s4 v4 h4.represents (h4.consistent.close fun _ _ _ => ?_)
      ⟨h4.quiet, h4.history, policy, h4.kind.trans (Function.update_idem ..)⟩
    -- a wait on the queue would refer to the mutex and be pending
    rw [List.eq_nil_iff_forall_not_mem]
    intro i hi
    obtain ⟨w, hw, hplace⟩ := (h4.consistent.inv.member _ i).mp hi
    have hlt : i ∈ List.range s2.sync.waits.length := by
      rw [List.mem_range, ← h2.waitSlots]
      exact Nat.lt_of_lt_of_eq (h4.represents.lt_waitSlots hw) h4.slots
    exact h4.done i hlt w hw (refers_of_place hplace) (WaitInfo.pending_of_place hplace)

/-! ## Admission -/

/-- A queued wait was added. -/
structure Admitted (token : SyncWait) (source : ObjectId) (mutex : Option MutexId) (v v' : View) :
    Prop where
  kind : v'.kind = v.kind
  wait : ∃ i w, v'.wait = update v.wait i (some w) ∧
    w.token = token ∧ w.source = source ∧ w.mutex = mutex ∧ w.phase = .queued
  logged : .waits token source mutex ∈ v'.history

/-- The new wait is for no mutex its thread owns. -/
theorem Admitted.owned {mutex : Option MutexId}
    (h : Admitted token source mutex v v') (howned : v.Owned)
    (hfree : ∀ owner poisoned policy, v.kind ((mutex.map MutexId.object).getD source)
      = some (.mutex owner poisoned policy) → owner ≠ some token.thread) : v'.Owned := by
  obtain ⟨i, w, hwait, rfl, rfl, rfl, hphase⟩ := h.wait
  have hnew := howned.admitWait (i := i) hphase hfree
  refine hnew.mono (fun j x hx => ?_) fun id owner poisoned policy hk => ?_
  · rw [hwait] at hx
    exact hx
  · rw [h.kind] at hk
    exact hk

/-- A thread that starts to wait on a condition gives up its mutex. -/
theorem Admitted.release (h : Admitted token source (some m) v v')
    (howned : v.Owned) (hk : v.kind m.object = some (.mutex (some token.thread) poisoned policy))
    (hquiet : v.Quiet token.thread) : (v'.setKind m.object (.mutex none poisoned policy)).Owned := by
  obtain ⟨i, w, hwait, -, -, hmutex, hphase⟩ := h.wait
  -- the order of the two writes does not matter to owners and outcomes
  have hnew := (howned.release hk hquiet).admitWait (i := i) (w := w) hphase
    fun owner poisoned' policy' hk' => by
      rw [WaitInfo.target_of_some hmutex] at hk'
      change update v.kind m.object _ m.object = _ at hk'
      rw [update_self, Option.some.injEq, Kind.mutex.injEq] at hk'
      rw [← hk'.1]
      simp
  refine hnew.mono (fun j x hx => ?_) fun id owner poisoned' policy' hk' => ?_
  · change v'.wait j = some x at hx
    rw [hwait] at hx
    exact hx
  · change update v'.kind m.object _ id = _ at hk'
    rw [h.kind] at hk'
    exact hk'

/-- `admit` for a running thread. -/
theorem Represents.wp_admitWait {Q : SyncWait → SyncState → Prop} {caller : ThreadId}
    {mutex : Option MutexId}
    (h : Represents s v) (hc : v.Balanced past opened debt)
    (hsound : ∀ sequence, WaitInfo.Sound v.kind
      { token := { thread := caller, sequence }, source, mutex, phase := .queued, options })
    (hidle : ∀ poisoned policy, v.kind source ≠ some (.mutex none poisoned policy))
    (hstock : ∀ count maximum, v.kind source = some (.permit count maximum) → count = 0)
    (hR : ∀ e, R e s)
    (hQ : ∀ token s' v', token.thread = caller → Represents s' v' →
      v'.Balanced past opened debt → Admitted token source mutex v v' → Q token s') :
    (admitWait caller source mutex options).wp Q R s := by
  unfold admitWait
  simp only [wp_bind, wp_get, Act.wp_ofExcept, Act.wp_reject, Act.wp_okOr]
  refine ⟨fun _ _ => ⟨fun _ => hR _, fun _ => ⟨fun index hindex => ?_, fun _ => hR _⟩⟩,
    fun _ _ => hR _⟩
  obtain ⟨hlt, hfree, -⟩ := List.findIdx?_eq_some_iff_getElem.mp hindex
  have hslot : s.sync.waiter index = none := by
    simpa [SyncTable.waiter, slotAt, hlt] using hfree
  rw [wp_onThreads]
  refine ThreadTable.wp_block (fun e => hR _) fun r threads hfind hsync hstate hfind' hgen => ?_
  have hr : v.thread caller = some r := by rw [h.thread, hfind]
  have h1 := h.setThread hfind' hgen
  refine h1.wp_updateRecord (update_self ..) rfl fun s2 h2 => ?_
  rw [View.setThread_setThread] at h2
  have hv : v.wait index = none := by rw [h.wait, hslot, Option.map_none]
  have hout : ∀ id, index ∉ v.queue id := by
    intro id hi
    obtain ⟨w, hw, -⟩ := (hc.inv.member id index).mp hi
    rw [hv] at hw
    cases hw
  have hlt2 : index < s2.sync.waits.length := by
    rw [← h2.waitSlots]
    show index < v.waitSlots
    rw [h.waitSlots]
    exact hlt
  have h3 := h2.setWaiter hlt2 hout (w := some
    { token := { thread := caller, sequence := r.waitSequence + 1 }, source, mutex,
      phase := .queued, options, queuedOn := none, previous := none, next := none }) rfl
  obtain ⟨k, hk⟩ : ∃ k, v.kind source = some k := (hsound 0).kind_of_place rfl
  refine h3.wp_push (update_self ..) hout hk fun s4 h4 => ?_
  have hretained : r.snapshot.resourcesReleased = false :=
    (hc.inv.retired caller r hr).released_eq_false (.inr hstate)
  refine hQ _ _ _ rfl (h4.emit _)
    (hc.admitWait hv hr hsync (hsound _) rfl hidle hstock rfl rfl rfl rfl rfl ?_)
    ⟨rfl, ⟨index, _, rfl, rfl, rfl, rfl, rfl⟩, List.mem_append_right _ (List.mem_singleton.mpr rfl)⟩
  exact fun hreleased => absurd (hretained.symm.trans hreleased) Bool.false_ne_true

end SyncState

end Troe.Task
