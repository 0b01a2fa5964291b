import Troe.Task.SyncHistory

/-!
# The transitions of the synchronization table

`View.Balanced` joins the invariant with the three invariants of the history. Each theorem here is
one step the operations are made of.
-/

namespace Troe.Task

open Lib
open Function (update update_of_ne update_self)
open SyncEvent (object)

namespace View

variable {v : View} {i : ℕ} {id : ObjectId} {w : WaitInfo} {r : Record} {t : ThreadId}
  {opened : Option ObjectId} {debt : ObjectId → ℕ} {past : List SyncEvent}

/-- The invariants, with a mutex possibly open and permits possibly owed. -/
structure Balanced (past : List SyncEvent) (opened : Option ObjectId) (debt : ObjectId → ℕ)
    (v : View) : Prop where
  inv : v.Inv opened
  fifo : v.Fifo
  ledger : v.Ledger debt
  recorded : v.Recorded past

namespace Balanced

variable {r' : Record} {poisoned : Bool} {policy : OwnerDeath} {q : List ℕ} {count maximum : ℕ}

/-! ## Waits -/

theorem finish (h : v.Balanced past opened debt) (hi : i ∈ v.queue id) (hw : v.wait i = some w)
    (hr : v.thread w.token.thread = some r) (outcome : SyncOutcome) :
    ((v.leave id i).complete i w r outcome).Balanced past opened debt :=
  ⟨h.inv.finish hi hw hr outcome, h.fifo.finish id hw hr outcome, { h.ledger with },
    { h.recorded.rewait { w with phase := .complete outcome } hw rfl with }⟩

section

variable (h : v.Balanced past opened debt)
include h

/-- A token with the next sequence number of its thread was never queued. -/
theorem token_new {token : SyncWait} (hr : v.thread token.thread = some r)
    (hnext : token.sequence = r.waitSequence + 1) (id : ObjectId) :
    token ∉ arrivals v.history id := by
  intro hmem
  have hle := (h.fifo.known id token hmem).2 r hr
  omega

/-- A thread that does not wait has no wait slot. -/
theorem slot_cases (hr : v.thread w.token.thread = some r) (hfree : r.syncWait = false) {j : ℕ}
    {x : WaitInfo} (hx : update v.wait i (some w) j = some x) :
    j = i ∧ x = w ∨ x.token.thread ≠ w.token.thread ∧ v.wait j = some x := by
  rcases update_eq_some.mp hx with hnew | ⟨-, hx⟩
  · exact .inl hnew
  · refine .inr ⟨fun heq => ?_, hx⟩
    obtain ⟨r0, hr0, hsync0, -⟩ := h.inv.asleep j x hx
    rw [heq, hr, Option.some.injEq] at hr0
    rw [← hr0, hfree] at hsync0
    cases hsync0

theorem fifo_admitWait (hslot : v.wait i = none) (hr : v.thread w.token.thread = some r)
    (hfree : r.syncWait = false) (hsound : w.Sound v.kind)
    (hseq : r'.waitSequence = w.token.sequence) (hnext : w.token.sequence = r.waitSequence + 1) :
    (((v.setThread w.token.thread r').setWait i (some w)).push w.source i w.token).Fifo := by
  have hout : ∀ id j, j ∈ v.queue id → j ≠ i := by
    intro id j hj heq
    obtain ⟨x, hx, -⟩ := (h.inv.member id j).mp hj
    rw [heq, hslot] at hx
    cases hx
  have hthread := h.fifo.setThread r' hr (by omega)
  have hfifo : ((v.setThread w.token.thread r').setWait i (some w)).Fifo :=
    { hthread with
      order := fun id => by
        have htokens : ((v.setThread w.token.thread r').setWait i (some w)).tokens id
            = v.tokens id := by
          apply List.filterMap_congr
          intro j hj
          show (update v.wait i (some w) j).map _ = _
          rw [update_of_ne (hout id j hj)]
        rw [htokens]
        exact h.fifo.order id
      fresh := fun j x m hx hm hq => by
        rcases h.slot_cases hr hfree hx with ⟨-, rfl⟩ | ⟨-, hx⟩
        · exact h.token_new hr hnext _
        · exact h.fifo.fresh j x m hx hm hq }
  refine hfifo.push (r := r') (update_self ..) (h.token_new hr hnext _)
    (update_self ..) (Nat.le_of_eq hseq.symm) ?_
  intro j x m hx hm hq heq htoken
  rcases h.slot_cases hr hfree hx with ⟨-, rfl⟩ | ⟨hne, -⟩
  · -- the wait itself is not for the mutex it would wait for again
    obtain ⟨hcondition, -, owner, poisoned, policy, hmutex⟩ := hsound.condition m hm
    rw [heq, hcondition] at hmutex
    cases hmutex
  · exact hne (congrArg _ htoken)

/-- Nothing is on record about a new token. -/
theorem recorded_admitWait (r' : Record) (hr : v.thread w.token.thread = some r)
    (hfree : r.syncWait = false) (hnext : w.token.sequence = r.waitSequence + 1) :
    ((((v.setThread w.token.thread r').setWait i (some w)).push w.source i w.token).emit
      (.waits w.token w.source w.mutex)).Recorded past := by
  have hcases : ∀ token source mutex, .waits token source mutex ∈
      (v.history ++ [.queued w.source w.token]) ++ [.waits w.token w.source w.mutex] →
      .waits token source mutex ∈ v.history ∨
        token = w.token ∧ source = w.source ∧ mutex = w.mutex := by
    intro token source mutex he
    simpa using he
  refine ⟨?_, fun j x source mutex hx he => ?_, fun token source mutex he => ?_,
    fun id k he hk => ?_⟩
  · exact (h.recorded.past.trans (List.prefix_append _ _)).trans (List.prefix_append _ _)
  · rcases h.slot_cases hr hfree hx with ⟨-, rfl⟩ | ⟨hne, hx⟩ <;>
      rcases hcases _ _ _ he with hold | hnow
    · exact absurd (h.recorded.queued _ _ _ hold) (h.token_new hr hnext _)
    · exact ⟨hnow.2.1.symm, hnow.2.2.symm⟩
    · exact h.recorded.waits j x source mutex hx hold
    · exact absurd (congrArg _ hnow.1) hne
  · show token ∈ arrivals ((v.history ++ [_]) ++ [_]) source
    rw [arrivals_append]
    rcases hcases _ _ _ he with hold | ⟨rfl, rfl, -⟩
    · simp [h.recorded.queued _ _ _ hold]
    · simp [SyncEvent.arrival]
  · change .retired id ∈ (v.history ++ [.queued w.source w.token])
      ++ [.waits w.token w.source w.mutex] at he
    exact h.recorded.retired id k (by simpa using he) hk

/-- A running thread starts to wait under a new sequence number. -/
theorem admitWait (hslot : v.wait i = none) (hr : v.thread w.token.thread = some r)
    (hfree : r.syncWait = false) (hsound : w.Sound v.kind) (hphase : w.phase = .queued)
    (hidle : ∀ poisoned policy, v.kind w.source ≠ some (.mutex none poisoned policy))
    (hstock : ∀ count maximum, v.kind w.source = some (.permit count maximum) → count = 0)
    (hsync : r'.syncWait = true) (hseq : r'.waitSequence = w.token.sequence)
    (hnext : w.token.sequence = r.waitSequence + 1) (hblocked : r'.snapshot.state = .blocked)
    (howned : r'.ownedMutexes = r.ownedMutexes) (hretired : r'.Retired) :
    ((((v.setThread w.token.thread r').setWait i (some w)).push w.source i w.token).emit
      (.waits w.token w.source w.mutex)).Balanced past opened debt := by
  have hplace : w.place = some w.source := by rw [WaitInfo.place, hphase]
  obtain ⟨k, hk⟩ := hsound.kind_of_place hplace
  have hinv := h.inv.admitWait hslot hr hfree hsound hphase hidle hstock hsync hseq hblocked howned
    hretired
  have hledger : (((v.setThread w.token.thread r').setWait i (some w)).push w.source i
      w.token).Ledger debt := { h.ledger.push hk i w.token with }
  have hfifo := h.fifo_admitWait hslot hr hfree hsound hseq hnext
  exact ⟨hinv.emit _, hfifo.emit (fun _ => rfl) fun _ => rfl,
    hledger.emit hk (by simp) fun _ _ _ _ => by simp [SyncEvent.income, SyncEvent.outgo],
    h.recorded_admitWait r' hr hfree hnext⟩

theorem reown {opened' : Option ObjectId} {owner owner' : Option ThreadId} (f : ℕ → ℕ)
    (hk : v.kind id = some (.mutex owner poisoned policy)) (hr : v.thread t = some r)
    (hretired : r.snapshot.resourcesReleased = false)
    (howner : ∀ t', owner' = some t' → t' = t ∧ t.process = id.process)
    (hself : owner' = none → opened' = some id)
    (hother : ∀ id', id' ≠ id → opened' ≠ some id' → opened ≠ some id')
    (halive : owner = none → poisoned = false) :
    (v.reown id (.mutex owner' poisoned policy) t r f).Balanced past opened' debt := by
  refine ⟨h.inv.reown f hk hr hretired howner hself hother, ?_, ?_, ?_⟩
  · have hfifo := h.fifo.setThread { r with ownedMutexes := f r.ownedMutexes } hr (le_rfl)
    exact { hfifo with }
  · have hledger : (v.setKind id (.mutex owner' poisoned policy)).Ledger debt :=
      h.ledger.setKind hk trivial (fun _ _ hk' => by cases hk') fun _ _ => rfl
    exact { hledger with }
  · have hrecorded : (v.setKind id (.mutex owner' poisoned policy)).Recorded past := by
      refine h.recorded.setKind hk fun ⟨policy', hdead⟩ => ?_
      rw [Kind.mutex.injEq] at hdead
      rw [halive hdead.1] at hdead
      cases hdead.2.1
    exact { hrecorded with }

end

/-- The owner gives up a mutex, which is then open. -/
theorem release (h : v.Balanced past none debt)
    (hk : v.kind id = some (.mutex (some t) poisoned policy)) (hr : v.thread t = some r)
    (hretired : r.snapshot.resourcesReleased = false) :
    (v.reown id (.mutex none poisoned policy) t r (· - 1)).Balanced past (some id) debt :=
  h.reown _ hk hr hretired (fun _ ht => by cases ht) (fun _ => rfl) (fun _ _ _ => by simp) (by simp)

end Balanced

end View

/-! ## Outcomes and owners

A wait for a mutex that has ended says by its outcome whether its thread owns the mutex. The outcome
is collected later, so `View.Owned` ties the two together for as long as the wait is retained. -/

namespace WaitInfo

/-- The object a wait is for in the end: a condition wait has to get its mutex back. -/
def target (w : WaitInfo) : ObjectId := (w.mutex.map MutexId.object).getD w.source

/-- Whether the wait has ended with its thread owning the mutex. -/
def Holds (w : WaitInfo) : Prop :=
  match w.phase, w.mutex with
  | .complete outcome, none => outcome = .acquired
  | .complete outcome, some _ => outcome ≠ .poisoned
  | _, _ => False

variable {w : WaitInfo} {id : ObjectId} {kind : ObjectId → Option Kind}

theorem not_holds_of_pending (h : w.phase.Pending) : ¬ w.Holds := by
  unfold Holds
  cases hphase : w.phase with
  | complete outcome => exact absurd hphase (h outcome)
  | _ => simp

theorem not_holds_poisoned (w : WaitInfo) : ¬ Holds { w with phase := .complete .poisoned } := by
  cases hm : w.mutex <;> simp [Holds]

theorem target_of_none (h : w.mutex = none) : w.target = w.source := by simp [target, h]

theorem target_of_some {m : MutexId} (h : w.mutex = some m) : w.target = m.object := by
  simp [target, h]

/-- The wait can end with this outcome without its thread getting a mutex. -/
def Loses (w : WaitInfo) (kind : ObjectId → Option Kind) (outcome : SyncOutcome) : Prop :=
  ∀ owner poisoned policy, kind w.target = some (.mutex owner poisoned policy) →
    ¬ Holds { w with phase := .complete outcome }

theorem loses_poisoned (w : WaitInfo) (kind : ObjectId → Option Kind) : w.Loses kind .poisoned :=
  fun _ _ _ _ => w.not_holds_poisoned

theorem loses_of_mutex_eq_none {outcome : SyncOutcome}
    (hm : w.mutex = none) (hne : outcome ≠ .acquired) : w.Loses kind outcome := by
  intro _ _ _ _ hholds
  rw [hm] at hholds
  exact hne hholds

variable (h : w.Sound kind)
include h

/-- The target of a wait is alive. -/
theorem Sound.kind_target : ∃ k, kind w.target = some k := by
  cases hm : w.mutex with
  | none =>
    rw [target_of_none hm]
    obtain ⟨k, hk, -⟩ := h.resource hm
    exact ⟨k, hk⟩
  | some m =>
    rw [target_of_some hm]
    obtain ⟨owner, poisoned, policy, hk⟩ := (h.condition m hm).2.2
    exact ⟨_, hk⟩

variable (hplace : w.place = some id)
include hplace

/-- Where a wait stands in a queue: on the mutex it reacquires, on its condition, or on what it asks
for. -/
theorem Sound.place_cases :
    (∃ cause m owner poisoned policy, w.phase = .reacquiring cause ∧ w.mutex = some m ∧
      m.object = id ∧ kind id = some (.mutex owner poisoned policy)) ∨
    w.phase = .queued ∧ w.source = id ∧
      ((∃ m, w.mutex = some m ∧ m.object ≠ id ∧ kind id = some .condition) ∨
        ∃ k, w.mutex = none ∧ kind id = some k ∧ k ≠ .condition) := by
  cases hphase : w.phase with
  | complete outcome => exact absurd hphase (pending_of_place hplace outcome)
  | reacquiring cause =>
    simp only [place, hphase] at hplace
    obtain ⟨m, hm, rfl⟩ := Option.map_eq_some_iff.mp hplace
    obtain ⟨owner, poisoned, policy, hk⟩ := (h.condition m hm).2.2
    exact .inl ⟨cause, m, owner, poisoned, policy, rfl, hm, rfl, hk⟩
  | queued =>
    simp only [place, hphase, Option.some.injEq] at hplace
    refine .inr ⟨rfl, hplace, ?_⟩
    cases hm : w.mutex with
    | none =>
      obtain ⟨k, hk, hne⟩ := h.resource hm
      exact .inr ⟨k, rfl, hplace ▸ hk, hne⟩
    | some m =>
      obtain ⟨hcondition, -, owner, poisoned, policy, hmutex⟩ := h.condition m hm
      rw [hplace] at hcondition
      refine .inl ⟨m, rfl, fun heq => ?_, hcondition⟩
      rw [heq, hcondition] at hmutex
      cases hmutex

/-- What is queued on a mutex is for that mutex. -/
theorem Sound.target_of_place {owner : Option ThreadId} {poisoned : Bool} {policy : OwnerDeath}
    (hk : kind id = some (.mutex owner poisoned policy)) :
    w.target = id ∧
      ((∃ cause, w.phase = .reacquiring cause ∧ ∃ m, w.mutex = some m) ∨
        (w.phase = .queued ∧ w.mutex = none)) := by
  rcases h.place_cases hplace with ⟨cause, m, -, -, -, hphase, hm, heq, -⟩ |
    ⟨hphase, hsource, ⟨m, -, -, hk'⟩ | ⟨k, hm, -, -⟩⟩
  · exact ⟨(target_of_some hm).trans heq, .inl ⟨cause, hphase, m, hm⟩⟩
  · cases hk.symm.trans hk'
  · exact ⟨(target_of_none hm).trans hsource, .inr ⟨hphase, hm⟩⟩

/-- What is queued on a permit waits for it, without a mutex. -/
theorem Sound.permit_of_place {count maximum : ℕ} (hk : kind id = some (.permit count maximum)) :
    w.source = id ∧ w.mutex = none ∧ w.phase = .queued := by
  rcases h.place_cases hplace with ⟨_, _, _, _, _, -, -, -, hk'⟩ |
    ⟨hphase, hsource, ⟨m, -, -, hk'⟩ | ⟨k, hm, -, -⟩⟩
  · cases hk.symm.trans hk'
  · cases hk.symm.trans hk'
  · exact ⟨hsource, hm, hphase⟩

theorem Sound.loses_of_permit {count maximum : ℕ} (hk : kind id = some (.permit count maximum))
    (outcome : SyncOutcome) :
    w.Loses kind outcome := by
  intro owner poisoned policy htarget
  obtain ⟨hsource, hm, -⟩ := h.permit_of_place hplace hk
  rw [target_of_none hm, hsource, hk] at htarget
  cases htarget

end WaitInfo

namespace View

variable {v : View} {i : ℕ} {id : ObjectId} {w : WaitInfo} {r : Record} {t : ThreadId}

/-- A thread has no wait. -/
def Quiet (v : View) (t : ThreadId) : Prop :=
  ∀ i w, v.wait i = some w → w.token.thread ≠ t

/-- Outcomes tell who owns a mutex, and a poisoned mutex has no owner. -/
structure Owned (v : View) : Prop where
  holds : ∀ i w owner poisoned policy, v.wait i = some w →
    v.kind w.target = some (.mutex owner poisoned policy) →
    (owner = some w.token.thread ↔ w.Holds)
  cause : ∀ i w cause, v.wait i = some w → w.phase = .reacquiring cause → cause ≠ .poisoned
  dead : ∀ id owner policy, v.kind id = some (.mutex owner true policy) → owner = none

namespace Owned

variable {poisoned : Bool} {policy : OwnerDeath}

variable (h : v.Owned)
include h

/-- Fewer waits and fewer objects. -/
theorem mono {v' : View} (hwait : ∀ i w, v'.wait i = some w → v.wait i = some w)
    (hkind : ∀ id owner poisoned policy, v'.kind id = some (.mutex owner poisoned policy) →
      v.kind id = some (.mutex owner poisoned policy)) : v'.Owned where
  holds i w owner poisoned policy hw hk :=
    h.holds i w owner poisoned policy (hwait i w hw) (hkind _ _ _ _ hk)
  cause i w cause hw := h.cause i w cause (hwait i w hw)
  dead id owner policy hk := h.dead id owner policy (hkind _ _ _ _ hk)

/-- A wait changes phase without its thread getting or losing the mutex. -/
theorem rewait (w' : WaitInfo) (hw : v.wait i = some w) (hw' : w' = { w with phase := w'.phase })
    (hholds : ∀ owner poisoned policy, v.kind w.target = some (.mutex owner poisoned policy) →
      (w'.Holds ↔ w.Holds)) (hcause : ∀ cause, w'.phase = .reacquiring cause → cause ≠ .poisoned) :
    (v.setWait i (some w')).Owned := by
  have htarget : w'.target = w.target := by
    rw [hw']
    rfl
  have htoken : w'.token = w.token := by rw [hw']
  refine ⟨fun j x owner poisoned policy hx hk => ?_, fun j x cause hx hphase => ?_, h.dead⟩
  · rcases update_eq_some.mp hx with ⟨-, rfl⟩ | ⟨-, hold⟩
    · rw [htarget] at hk
      rw [htoken, hholds owner poisoned policy hk]
      exact h.holds i w owner poisoned policy hw hk
    · exact h.holds j x owner poisoned policy hold hk
  · rcases update_eq_some.mp hx with ⟨-, rfl⟩ | ⟨-, hold⟩
    · exact hcause cause hphase
    · exact h.cause j x cause hold hphase

/-- A new wait for a mutex its thread does not own. -/
theorem admitWait (hphase : w.phase = .queued)
    (hfree : ∀ owner poisoned policy, v.kind w.target = some (.mutex owner poisoned policy) →
      owner ≠ some w.token.thread) : (v.setWait i (some w)).Owned := by
  refine ⟨fun j x owner poisoned policy hx hk => ?_, fun j x cause hx hc => ?_, h.dead⟩
  · rcases update_eq_some.mp hx with ⟨-, rfl⟩ | ⟨-, hold⟩
    · have hpending : x.phase.Pending := fun outcome heq => by
        rw [hphase] at heq
        cases heq
      exact iff_of_false (hfree owner poisoned policy hk) (WaitInfo.not_holds_of_pending hpending)
    · exact h.holds j x owner poisoned policy hold hk
  · rcases update_eq_some.mp hx with ⟨-, rfl⟩ | ⟨-, hold⟩
    · rw [hphase] at hc
      cases hc
    · exact h.cause j x cause hold hc

/-- The state of a mutex is rewritten so that the outcomes still tell its owner. -/
theorem setKind {owner : Option ThreadId} (hdead : poisoned = true → owner = none)
    (hholds : ∀ i w, v.wait i = some w → w.target = id → (owner = some w.token.thread ↔ w.Holds)) :
    (v.setKind id (.mutex owner poisoned policy)).Owned := by
  refine ⟨fun i w owner' poisoned' policy' hw hk => ?_, h.cause, fun id' owner' policy' hk => ?_⟩
  · rcases update_eq_some.mp hk with ⟨heq, hkind⟩ | ⟨-, hk⟩
    · rw [(Kind.mutex.inj hkind).1]
      exact hholds i w hw heq
    · exact h.holds i w owner' poisoned' policy' hw hk
  · rcases update_eq_some.mp hk with ⟨-, hkind⟩ | ⟨-, hk⟩
    · obtain ⟨rfl, hpoisoned, -⟩ := Kind.mutex.inj hkind
      exact hdead hpoisoned.symm
    · exact h.dead id' owner' policy' hk

/-- The state of an object that is no mutex is rewritten. -/
theorem setOther {k : Kind} (hk : ∀ owner poisoned policy, k ≠ .mutex owner poisoned policy) :
    (v.setKind id k).Owned := by
  refine h.mono (fun _ _ hw => hw) fun id' owner poisoned policy hk' => ?_
  rcases update_eq_some.mp hk' with ⟨-, hkind⟩ | ⟨-, hk'⟩
  · exact absurd hkind.symm (hk owner poisoned policy)
  · exact hk'

/-- A mutex loses its owner, who has no wait. -/
theorem release (hk : v.kind id = some (.mutex (some t) poisoned policy)) (hquiet : v.Quiet t) :
    (v.setKind id (.mutex none poisoned policy)).Owned := by
  refine h.setKind (fun _ => rfl) fun i w hw htarget => iff_of_false (by simp) fun hholds => ?_
  rw [← htarget] at hk
  exact hquiet i w hw (Option.some.inj ((h.holds i w _ _ _ hw hk).mpr hholds)).symm

/-- A mutex that nobody owns changes in another respect. -/
theorem setIdle (poisoned' : Bool) (hk : v.kind id = some (.mutex none poisoned policy)) :
    (v.setKind id (.mutex none poisoned' policy)).Owned := by
  refine h.setKind (fun _ => rfl) fun i w hw htarget => ?_
  rw [← htarget] at hk
  exact h.holds i w _ _ _ hw hk

/-- A wait ends at the very moment its thread becomes the owner. -/
theorem grant {opened : Option ObjectId} {outcome : SyncOutcome} (hinv : v.Inv opened)
    (hk : v.kind id = some (.mutex none poisoned policy)) (hw : v.wait i = some w)
    (htarget : w.target = id) (hholds : WaitInfo.Holds { w with phase := .complete outcome }) :
    ((v.setWait i (some { w with phase := .complete outcome })).setKind id
      (.mutex (some w.token.thread) false policy)).Owned := by
  refine ⟨fun j x owner poisoned policy' hx hk' => ?_, fun j x cause hx hphase => ?_,
    fun id' owner policy' hk' => ?_⟩
  · change update v.kind id _ x.target = _ at hk'
    rcases update_eq_some.mp hx with ⟨-, rfl⟩ | ⟨hj, hx⟩
    · rw [show WaitInfo.target { w with phase := .complete outcome } = id from htarget,
        update_self, Option.some.injEq, Kind.mutex.injEq] at hk'
      exact iff_of_true hk'.1.symm hholds
    · by_cases hx' : x.target = id
      · rw [hx', update_self, Option.some.injEq, Kind.mutex.injEq] at hk'
        refine iff_of_false (fun heq => ?_) fun hheld => ?_
        · rw [← hk'.1, Option.some.injEq] at heq
          exact hj (hinv.single j i x w hx hw heq.symm)
        · rw [← hx'] at hk
          cases (h.holds j x _ _ _ hx hk).mpr hheld
      · rw [update_of_ne hx'] at hk'
        exact h.holds j x _ _ _ hx hk'
  · rcases update_eq_some.mp hx with ⟨-, rfl⟩ | ⟨-, hx⟩
    · cases hphase
    · exact h.cause j x cause hx hphase
  · rcases update_eq_some.mp hk' with ⟨-, hkind⟩ | ⟨-, hk'⟩
    · cases (Kind.mutex.inj hkind).2.1
    · exact h.dead id' owner policy' hk'

end Owned

/-! ## Consistent views -/

variable {opened : Option ObjectId} {debt : ObjectId → ℕ} {past : List SyncEvent}

/-- Everything that is known of a view, with a mutex possibly open and permits possibly owed. -/
structure Consistent (past : List SyncEvent) (opened : Option ObjectId) (debt : ObjectId → ℕ)
    (v : View) : Prop extends v.Balanced past opened debt where
  owned : v.Owned

/-- A thread that has told nobody to wake it has no wait. -/
theorem Inv.quiet (h : v.Inv opened) (hr : v.thread t = some r) (hfree : r.syncWait = false) :
    v.Quiet t := by
  intro i w hw heq
  obtain ⟨r', hr', hsync, -⟩ := h.asleep i w hw
  rw [heq, hr, Option.some.injEq] at hr'
  rw [← hr', hfree] at hsync
  cases hsync

namespace Consistent

variable {outcome : SyncOutcome} {poisoned : Bool} {policy : OwnerDeath} {q : List ℕ}
  {count maximum : ℕ}

section

variable (h : v.Consistent past opened debt)
include h

/-- The history so far becomes the past. -/
theorem rebase : v.Consistent v.history opened debt :=
  { h with recorded := { h.recorded with past := List.prefix_refl _ } }

theorem weaken {past' : List SyncEvent} (hle : past' <+: past) : v.Consistent past' opened debt :=
  { h with recorded := { h.recorded with past := hle.trans h.recorded.past } }

/-! ### Waits -/

theorem finish (hi : i ∈ v.queue id) (hw : v.wait i = some w)
    (hr : v.thread w.token.thread = some r) (hloses : w.Loses v.kind outcome) :
    ((v.leave id i).complete i w r outcome).Consistent past opened debt := by
  have hpending := WaitInfo.pending_of_place (h.inv.place_of_mem hi hw)
  have howned := h.owned.rewait { w with phase := .complete outcome } hw rfl
    (fun owner poisoned policy hk =>
      iff_of_false (hloses owner poisoned policy hk) (WaitInfo.not_holds_of_pending hpending))
    (fun _ hphase => by cases hphase)
  exact ⟨h.toBalanced.finish hi hw hr outcome, { howned with }⟩

end

theorem move (h : v.Consistent past none debt) {m : MutexId} (hi : i ∈ v.queue id)
    (hw : v.wait i = some w) (hm : w.mutex = some m) (hphase : w.phase = .queued)
    {cause : SyncOutcome} (hcause : cause ≠ .poisoned) :
    (((v.leave id i).setWait i (some { w with phase := .reacquiring cause })).push m.object i
      w.token).Consistent past (some m.object) debt := by
  obtain ⟨r, hr, -, hseq, -⟩ := h.inv.asleep i w hw
  obtain ⟨owner, poisoned, policy, hk⟩ := ((h.inv.sound i w hw).condition m hm).2.2
  have hpending := WaitInfo.pending_of_place (h.inv.place_of_mem hi hw)
  have howned := h.owned.rewait { w with phase := .reacquiring cause } hw rfl
    (fun _ _ _ _ => iff_of_false (WaitInfo.not_holds_of_pending fun _ hp => by cases hp)
      (WaitInfo.not_holds_of_pending hpending))
    (fun cause' hphase' => by
      cases hphase'
      exact hcause)
  refine ⟨⟨h.inv.move hi hw hm hphase cause, ?_, ?_, ?_⟩, { howned with }⟩
  · have hfifo := h.fifo.rewait id { w with phase := .reacquiring cause } hw rfl (by simp)
    refine hfifo.push (w := { w with phase := .reacquiring cause }) (update_self ..)
      (h.fifo.fresh i w m hw hm hphase) hr (Nat.le_of_eq hseq.symm) ?_
    intro j x m' hx _ hq _ htoken
    rcases update_eq_some.mp hx with ⟨-, rfl⟩ | ⟨hj, hx⟩
    · cases hq
    · exact hj (h.inv.single j i x w hx hw (congrArg _ htoken))
  · exact { h.ledger.push hk i w.token with }
  · have hrecorded := (h.recorded.rewait { w with phase := .reacquiring cause } hw rfl).emit
      (e := .queued m.object w.token) (by simp) (by simp)
    exact { hrecorded with }

/-- A thread whose wait is over forgets it. -/
theorem forget (h : v.Consistent past opened debt) (hr : v.thread t = some r)
    (hdone : ∀ i w, v.wait i = some w → w.token.thread = t → ¬ w.phase.Pending) :
    (v.forget t r).Consistent past opened debt := by
  have hthread := h.fifo.setThread { r with syncWait := false } hr (le_rfl)
  refine ⟨⟨h.inv.forget hr hdone, ?_, { h.ledger with }, h.recorded.congr rfl
    (fun _ w hw => ⟨w, (Option.filter_eq_some_iff.mp hw).1, rfl, rfl, rfl⟩) fun _ _ hk => hk⟩,
    h.owned.mono (fun _ _ hw => (Option.filter_eq_some_iff.mp hw).1) fun _ _ _ _ hk => hk⟩
  refine hthread.mono (fun _ => rfl) (fun _ => rfl) (fun id => ?_)
    (fun _ r hr => .inl ⟨r, hr, le_rfl⟩) hthread.live (fun _ => le_rfl) ?_
  · have htokens : (v.forget t r).tokens id = v.tokens id := by
      apply List.filterMap_congr
      intro j hj
      obtain ⟨x, hx, hplace⟩ := (h.inv.member id j).mp hj
      have hne : x.token.thread ≠ t := fun heq =>
        hdone j x hx heq (WaitInfo.pending_of_place hplace)
      show ((v.wait j).filter _).map _ = _
      rw [hx, Option.filter_some, decide_eq_true hne, if_pos rfl]
    rw [htokens]
    exact List.Sublist.refl _
  · intro j x m hx _ _
    exact ⟨j, (Option.filter_eq_some_iff.mp hx).1⟩

/-! ### Mutexes -/

/-- The owner gives up a mutex, which is then open. -/
theorem release (h : v.Consistent past none debt)
    (hk : v.kind id = some (.mutex (some t) poisoned policy)) (hr : v.thread t = some r)
    (hretired : r.snapshot.resourcesReleased = false) (hquiet : v.Quiet t) :
    (v.reown id (.mutex none poisoned policy) t r (· - 1)).Consistent past (some id) debt :=
  ⟨h.toBalanced.release hk hr hretired, { h.owned.release hk hquiet with }⟩

/-- A thread takes a free mutex. -/
theorem acquire (h : v.Consistent past none debt)
    (hk : v.kind id = some (.mutex none false policy)) (hr : v.thread t = some r)
    (hretired : r.snapshot.resourcesReleased = false) (hprocess : t.process = id.process)
    (hquiet : v.Quiet t) :
    (v.reown id (.mutex (some t) false policy) t r (· + 1)).Consistent past none debt := by
  have howned : (v.setKind id (.mutex (some t) false policy)).Owned := by
    refine h.owned.setKind (fun hdead => by cases hdead) fun i w hw htarget => ?_
    rw [← htarget] at hk
    refine iff_of_false (fun heq => hquiet i w hw (Option.some.inj heq).symm) fun hholds => ?_
    cases (h.owned.holds i w _ _ _ hw hk).mpr hholds
  exact ⟨h.toBalanced.reown _ hk hr hretired (fun t' ht => ⟨(Option.some.inj ht).symm, hprocess⟩)
    (fun hnone => by cases hnone) (fun _ _ h => h) fun _ => rfl, { howned with }⟩

section

variable (h : v.Consistent past (some id) debt)
include h

/-- The first waiter gets an open mutex. -/
theorem grantMutex (hk : v.kind id = some (.mutex none false policy)) (hq : v.queue id = i :: q)
    (hw : v.wait i = some w) (hr : v.thread w.token.thread = some r) (htarget : w.target = id)
    (hholds : WaitInfo.Holds { w with phase := .complete outcome }) :
    ((((v.leave id i).reown id (.mutex (some w.token.thread) false policy) w.token.thread r
      (· + 1)).complete i w { r with ownedMutexes := r.ownedMutexes + 1 } outcome).emit
        (.granted id w.token)).Consistent past none debt := by
  have hi : i ∈ v.queue id := by simp [hq]
  have hplace := h.inv.place_of_mem hi hw
  obtain ⟨r0, hr0, hsync, -⟩ := h.inv.asleep i w hw
  obtain rfl := Option.mem_unique hr hr0
  have hprocess := (h.inv.sound i w hw).process_of_place hplace
  have hown : (v.reown id (.mutex (some w.token.thread) false policy) w.token.thread r
      (· + 1)).Balanced past none debt := by
    refine h.toBalanced.reown _ hk hr ((h.inv.retired _ r hr).released_eq_false (.inl hsync))
      (fun t ht => ⟨(Option.some.inj ht).symm, hprocess.symm⟩) (fun hnone => by cases hnone) ?_
      (fun _ => rfl)
    intro id' hne _ heq
    exact hne (Option.some.inj heq).symm
  have hthread : (v.reown id (.mutex (some w.token.thread) false policy) w.token.thread r
      (· + 1)).thread w.token.thread = some { r with ownedMutexes := r.ownedMutexes + 1 } :=
    update_self ..
  have hkind : (v.reown id (.mutex (some w.token.thread) false policy) w.token.thread r
      (· + 1)).kind id = some (.mutex (some w.token.thread) false policy) :=
    update_self ..
  have hdone := hown.finish hi hw hthread outcome
  refine ⟨⟨hdone.inv.emit _, hown.fifo.grant hq hw hthread outcome, ?_,
    hdone.recorded.emit (by simp) (by simp)⟩,
    { h.owned.grant h.inv hk hw htarget hholds with }⟩
  refine hdone.ledger.emit hkind (fun _ _ he => by cases he) ?_
  intro id' count maximum hk'
  have hne : id ≠ id' := by
    intro heq
    rw [← heq] at hk'
    exact absurd (hkind.symm.trans hk') (by simp)
  simp [SyncEvent.income, SyncEvent.outgo, hne]

/-- A mutex without an owner is poisoned. -/
theorem poison (hk : v.kind id = some (.mutex none poisoned policy)) :
    ((v.setKind id (.mutex none true policy)).emit (.retired id)).Consistent past (some id) debt := by
  have hself : (v.setKind id (.mutex none true policy)).kind id = some (.mutex none true policy) :=
    update_self ..
  have hfifo : (v.setKind id (.mutex none true policy)).Fifo := { h.fifo with }
  have hinv : (v.setKind id (.mutex none true policy)).Inv (some id) :=
    h.inv.setKind hk trivial rfl (fun _ _ _ hne => absurd rfl hne) (fun _ _ hk' => by cases hk')
  have hledger : (v.setKind id (.mutex none true policy)).Ledger debt :=
    h.ledger.setKind hk trivial (fun _ _ hk' => by cases hk') fun _ _ => rfl
  exact ⟨⟨hinv.emit _, hfifo.emit (fun _ => rfl) fun _ => rfl,
    hledger.emit hself (by simp) fun _ _ _ _ => by simp [SyncEvent.income, SyncEvent.outgo],
    (h.recorded.setKind hk fun _ => ⟨policy, rfl⟩).retire hself⟩, { h.owned.setIdle true hk with }⟩

theorem close
    (hid : ∀ poisoned policy, v.kind id = some (.mutex none poisoned policy) → v.queue id = []) :
    v.Consistent past none debt :=
  { h with inv := h.inv.close hid }

end

/-! ### Permits -/

/-- A permit is taken without waiting. -/
theorem take (h : v.Consistent past opened debt)
    (hk : v.kind id = some (.permit (count + 1) maximum)) :
    ((v.setKind id (.permit count maximum)).emit (.taken id)).Consistent past opened debt := by
  obtain ⟨hle, hempty⟩ := h.inv.stock id _ _ hk
  have hinv : (v.setKind id (.permit count maximum)).Inv opened := by
    refine h.inv.setKind hk trivial rfl (fun _ _ hk' => by cases hk') fun count' maximum' hk' => ?_
    rw [Kind.permit.injEq] at hk'
    exact ⟨by omega, fun _ => hempty (by omega)⟩
  have hfifo : (v.setKind id (.permit count maximum)).Fifo := { h.fifo with }
  refine ⟨⟨hinv.emit _, hfifo.emit (fun _ => rfl) fun _ => rfl, ?_,
    (h.recorded.setKind hk (by simp)).emit (by simp) (by simp)⟩,
    { h.owned.setOther (by simp) with }⟩
  -- the permit is owed between the two writes
  have hemit : (v.emit (.taken id)).Ledger (update debt id (debt id + 1)) :=
    h.ledger.settle (.taken id) hk (by simp) (by simp [SyncEvent.income, SyncEvent.outgo, object])
  refine hemit.setKind hk trivial (fun count' maximum' hk' => ?_) fun id' hne => ?_
  · rw [Kind.permit.injEq] at hk'
    have hbalance := hemit.balance id _ _ hk
    rw [update_self] at hbalance
    omega
  · rw [update_of_ne hne]

/-- The first waiter is granted a permit, which is owed until the release ends. -/
theorem grantPermit (h : v.Consistent past opened debt)
    (hk : v.kind id = some (.permit count maximum)) (hq : v.queue id = i :: q)
    (hw : v.wait i = some w) (hr : v.thread w.token.thread = some r) (outcome : SyncOutcome) :
    (((v.leave id i).complete i w r outcome).emit (.granted id w.token)).Consistent past opened
      (update debt id (debt id + 1)) := by
  have hi : i ∈ v.queue id := by simp [hq]
  have hloses := (h.inv.sound i w hw).loses_of_permit (h.inv.place_of_mem hi hw) hk outcome
  have hdone := h.finish hi hw hr hloses
  exact ⟨⟨hdone.inv.emit _, h.fifo.grant hq hw hr outcome,
    hdone.ledger.settle (.granted id w.token) hk (by simp)
      (by simp [SyncEvent.income, SyncEvent.outgo, object]),
    hdone.recorded.emit (by simp) (by simp)⟩, { hdone.owned with }⟩

/-- A release ends: what was not granted is stored. -/
theorem store {granted stored release : ℕ}
    (h : v.Consistent past opened (update (fun _ => 0) id granted))
    (hk : v.kind id = some (.permit count maximum)) (hle : count + stored ≤ maximum)
    (hempty : 0 < count + stored → v.queue id = []) (hrelease : granted + stored = release) :
    ((v.setKind id (.permit (count + stored) maximum)).emit
      (.released id release)).Consistent past opened fun _ => 0 := by
  have hfifo : (v.setKind id (.permit (count + stored) maximum)).Fifo := { h.fifo with }
  refine ⟨⟨Inv.emit ?_ _, hfifo.emit (fun _ => rfl) fun _ => rfl, ?_,
    (h.recorded.setKind hk (by simp)).emit (by simp) (by simp)⟩,
    { h.owned.setOther (by simp) with }⟩
  · refine h.inv.setKind hk trivial rfl (fun _ _ hk' => by cases hk') fun count' maximum' hk' => ?_
    rw [Kind.permit.injEq] at hk'
    rw [← hk'.1, ← hk'.2]
    exact ⟨hle, hempty⟩
  · have hset : (v.setKind id (.permit (count + stored) maximum)).Ledger
        (update (fun _ => 0) id release) := by
      refine h.ledger.setKind hk trivial (fun count' maximum' hk' => ?_) fun id' hne => ?_
      · rw [Kind.permit.injEq] at hk'
        have hbalance := h.ledger.balance id _ _ hk
        rw [update_self] at hbalance ⊢
        omega
      · rw [update_of_ne hne, update_of_ne hne]
    have hemit := hset.settle (.released id release) (d := 0) (update_self ..) (by simp)
      (by simp [SyncEvent.income, SyncEvent.outgo, object])
    simpa [object] using hemit

end Consistent

end View

end Troe.Task
