import Troe.Task.SyncInvariant

/-!
# The history of the synchronization table

Three invariants relate a view to its history. `View.Fifo` says that what was granted, followed by
what still waits, is a sublist of what arrived. `View.Ledger` balances the permits that were put
into an object against those that were taken out. `View.Recorded` says that a wait is for what it
was started for, and that a retired mutex stays without an owner.
-/

namespace Troe.Task

open Lib
open Function (update update_of_ne update_self)
open List (append_assoc append_nil mem_append mem_singleton)

namespace SyncEvent

/-- The object an event is about. -/
def object : SyncEvent → ObjectId
  | .created id _ => id
  | .queued id _ => id
  | .granted id _ => id
  | .taken id => id
  | .released id _ => id
  | .waits _ source _ => source
  | .retired id => id

/-- The wait an event queues on an object. -/
def arrival (id : ObjectId) : SyncEvent → Option SyncWait
  | .queued id' token => if id' = id then some token else none
  | _ => none

/-- The wait an event grants an object to. -/
def grant (id : ObjectId) : SyncEvent → Option SyncWait
  | .granted id' token => if id' = id then some token else none
  | _ => none

/-- The permits an event puts into an object. -/
def income (id : ObjectId) : SyncEvent → ℕ
  | .created id' (.permit count _) => if id' = id then count else 0
  | .released id' count => if id' = id then count else 0
  | _ => 0

/-- The permits an event takes out of an object: acquisitions that ended with the permit. -/
def outgo (id : ObjectId) : SyncEvent → ℕ
  | .taken id' => if id' = id then 1 else 0
  | .granted id' _ => if id' = id then 1 else 0
  | _ => 0

variable {e : SyncEvent} {id : ObjectId}

theorem income_of_ne (h : e.object ≠ id) : e.income id = 0 := by
  cases e with
  | created id' kind => cases kind <;> simp_all [object, income]
  | _ => simp_all [object, income]

theorem outgo_of_ne (h : e.object ≠ id) : e.outgo id = 0 := by
  cases e <;> simp_all [object, outgo]

end SyncEvent

/-- The waits that were queued on an object, in order. -/
def arrivals (history : List SyncEvent) (id : ObjectId) : List SyncWait :=
  history.filterMap (SyncEvent.arrival id)

/-- The waits an object was granted to, in order. -/
def grants (history : List SyncEvent) (id : ObjectId) : List SyncWait :=
  history.filterMap (SyncEvent.grant id)

/-- The initial count of a permit object and everything released into it. -/
def income (history : List SyncEvent) (id : ObjectId) : ℕ := (history.map (SyncEvent.income id)).sum

/-- The acquisitions of a permit object that ended with a permit. -/
def outgo (history : List SyncEvent) (id : ObjectId) : ℕ := (history.map (SyncEvent.outgo id)).sum

section

variable (history : List SyncEvent)
include history

@[simp] theorem arrivals_append (e : SyncEvent) (id : ObjectId) :
    arrivals (history ++ [e]) id = arrivals history id ++ (e.arrival id).toList := by
  simp only [arrivals, List.filterMap_append, List.filterMap_cons, List.filterMap_nil]
  cases e.arrival id <;> rfl

@[simp] theorem grants_append (e : SyncEvent) (id : ObjectId) :
    grants (history ++ [e]) id = grants history id ++ (e.grant id).toList := by
  simp only [grants, List.filterMap_append, List.filterMap_cons, List.filterMap_nil]
  cases e.grant id <;> rfl

@[simp] theorem income_append (e : SyncEvent) (id : ObjectId) :
    income (history ++ [e]) id = income history id + e.income id := by
  simp [income]

@[simp] theorem outgo_append (e : SyncEvent) (id : ObjectId) :
    outgo (history ++ [e]) id = outgo history id + e.outgo id := by
  simp [outgo]

end

section Retired

variable (history : List SyncEvent) (gone : List ObjectId) (id : ObjectId)

/-! Objects that are retired leave no trace in the order and the balance. -/

theorem arrivals_retired : arrivals (history ++ gone.map .retired) id = arrivals history id := by
  induction gone using List.reverseRecOn with
  | nil => simp
  | append_singleton gone id' ih => simpa [← append_assoc, SyncEvent.arrival] using ih

theorem grants_retired : grants (history ++ gone.map .retired) id = grants history id := by
  induction gone using List.reverseRecOn with
  | nil => simp
  | append_singleton gone id' ih => simpa [← append_assoc, SyncEvent.grant] using ih

theorem income_retired : income (history ++ gone.map .retired) id = income history id := by
  induction gone using List.reverseRecOn with
  | nil => simp
  | append_singleton gone id' ih => simpa [← append_assoc, SyncEvent.income] using ih

theorem outgo_retired : outgo (history ++ gone.map .retired) id = outgo history id := by
  induction gone using List.reverseRecOn with
  | nil => simp
  | append_singleton gone id' ih => simpa [← append_assoc, SyncEvent.outgo] using ih

end Retired

namespace View

variable {v : View} {i : ℕ} {id : ObjectId} {w : WaitInfo} {r : Record} {t : ThreadId}

/-- The waits on a queue, in order. -/
def tokens (v : View) (id : ObjectId) : List SyncWait :=
  (v.queue id).filterMap fun i => (v.wait i).map WaitInfo.token

/-! ## Order -/

/-- Waits are granted in the order they arrived. -/
structure Fifo (v : View) : Prop where
  order : ∀ id, (grants v.history id ++ v.tokens id).Sublist (arrivals v.history id)
  nodup : ∀ id, (arrivals v.history id).Nodup
  known : ∀ id token, token ∈ arrivals v.history id →
    token.thread.generation ≤ v.threadGeneration token.thread.slot ∧
    ∀ r, v.thread token.thread = some r → token.sequence ≤ r.waitSequence
  live : ∀ t r, v.thread t = some r → t.generation ≤ v.threadGeneration t.slot
  fresh : ∀ i w m, v.wait i = some w → w.mutex = some m → w.phase = .queued →
    w.token ∉ arrivals v.history m.object

namespace Fifo

/-- Queues shrink, records age and nothing is logged that concerns the order. -/
theorem mono {v' : View} (h : v.Fifo)
    (harrivals : ∀ id, arrivals v'.history id = arrivals v.history id)
    (hgrants : ∀ id, grants v'.history id = grants v.history id)
    (htokens : ∀ id, (v'.tokens id).Sublist (v.tokens id))
    (hthread : ∀ t r', v'.thread t = some r' → (∃ r, v.thread t = some r ∧
      r.waitSequence ≤ r'.waitSequence) ∨ v.threadGeneration t.slot < t.generation)
    (hlive : ∀ t r, v'.thread t = some r → t.generation ≤ v'.threadGeneration t.slot)
    (hgeneration : ∀ k, v.threadGeneration k ≤ v'.threadGeneration k)
    (hwait : ∀ i w m, v'.wait i = some w → w.mutex = some m → w.phase = .queued →
      ∃ i', v.wait i' = some w) : v'.Fifo where
  order id := by
    rw [harrivals, hgrants]
    exact ((List.Sublist.refl _).append (htokens id)).trans (h.order id)
  nodup id := by
    rw [harrivals]
    exact h.nodup id
  known id token htoken := by
    rw [harrivals] at htoken
    obtain ⟨hgen, hseq⟩ := h.known id token htoken
    refine ⟨Nat.le_trans hgen (hgeneration _), fun r' hr' => ?_⟩
    rcases hthread _ r' hr' with ⟨r, hr, hle⟩ | hlt
    · exact Nat.le_trans (hseq r hr) hle
    · omega
  live := hlive
  fresh i w m hw hm hphase := by
    obtain ⟨i', hw'⟩ := hwait i w m hw hm hphase
    rw [harrivals]
    exact h.fresh i' w m hw' hm hphase

/-- A record is replaced by an older one of the same thread. -/
theorem thread_update (hr : v.thread t = some r) {r' : Record}
    (hseq : r.waitSequence ≤ r'.waitSequence) (t' : ThreadId) (r0 : Record)
    (hr0 : update v.thread t (some r') t' = some r0) :
    ∃ r, v.thread t' = some r ∧ r.waitSequence ≤ r0.waitSequence :=
  forall_update (P := fun t' r0 => ∃ r, v.thread t' = some r ∧ r.waitSequence ≤ r0.waitSequence)
    ⟨r, hr, hseq⟩ (fun _ r0 hr0 => ⟨r0, hr0, le_rfl⟩) t' r0 hr0

theorem setThread (h : v.Fifo) (r' : Record) (hr : v.thread t = some r)
    (hseq : r.waitSequence ≤ r'.waitSequence) : (v.setThread t r').Fifo := by
  refine h.mono (fun _ => rfl) (fun _ => rfl) (fun _ => List.Sublist.refl _) ?_ ?_
    (fun _ => le_rfl) fun i w _ hw _ _ => ⟨i, hw⟩
  · exact fun t' r0 hr0 => .inl (thread_update hr hseq t' r0 hr0)
  · intro t' r0 hr0
    obtain ⟨r1, hr1, -⟩ := thread_update hr hseq t' r0 hr0
    exact h.live t' r1 hr1

/-- The tokens of a queue do not depend on the phase of its waits. -/
theorem tokens_setWait (w' : WaitInfo) (hw : v.wait i = some w) (htoken : w'.token = w.token)
    (id : ObjectId) : (v.setWait i (some w')).tokens id = v.tokens id := by
  show (v.queue id).filterMap (fun j => (update v.wait i (some w') j).map _) = _
  congr 1
  funext j
  by_cases hj : j = i
  · rw [hj, update_self, hw, Option.map_some, Option.map_some, htoken]
  · rw [update_of_ne hj]

theorem tokens_leave (id id' : ObjectId) : ((v.leave id i).tokens id').Sublist (v.tokens id') := by
  apply List.Sublist.filterMap
  show (update v.queue id ((v.queue id).erase i) id').Sublist _
  by_cases heq : id' = id
  · rw [heq, update_self]
    exact List.erase_sublist
  · rw [update_of_ne heq]

/-- A wait leaves its queue and changes to a phase that does not wait for a mutex. -/
theorem rewait (h : v.Fifo) (id : ObjectId) (w' : WaitInfo) (hw : v.wait i = some w)
    (htoken : w'.token = w.token) (hphase : w'.phase ≠ .queued) :
    ((v.leave id i).setWait i (some w')).Fifo := by
  refine h.mono (fun _ => rfl) (fun _ => rfl) (fun id' => ?_)
    (fun _ r hr => .inl ⟨r, hr, le_rfl⟩) h.live (fun _ => le_rfl)
    fun j x m hx _ hq => ?_
  · rw [tokens_setWait (v := v.leave id i) w' hw htoken]
    exact tokens_leave id id'
  · rcases update_eq_some.mp hx with ⟨-, rfl⟩ | ⟨-, hx⟩
    · exact absurd hq hphase
    · exact ⟨j, hx⟩

theorem finish (h : v.Fifo) (id : ObjectId) (hw : v.wait i = some w)
    (hr : v.thread w.token.thread = some r) (outcome : SyncOutcome) :
    ((v.leave id i).complete i w r outcome).Fifo :=
  (h.rewait id { w with phase := .complete outcome } hw rfl (by simp)).setThread _ hr (le_rfl)

/-- An event that is neither an arrival nor a grant. -/
theorem emit (h : v.Fifo) {e : SyncEvent} (harrival : ∀ id, e.arrival id = none)
    (hgrant : ∀ id, e.grant id = none) : (v.emit e).Fifo :=
  h.mono (fun id => by simp [View.emit, harrival]) (fun id => by simp [View.emit, hgrant])
    (fun _ => List.Sublist.refl _) (fun _ r hr => .inl ⟨r, hr, le_rfl⟩) h.live
    (fun _ => le_rfl) fun i w _ hw _ _ => ⟨i, hw⟩

/-- The first wait of a queue is granted the object. -/
theorem grant (h : v.Fifo) {q : List ℕ} (hq : v.queue id = i :: q) (hw : v.wait i = some w)
    (hr : v.thread w.token.thread = some r) (outcome : SyncOutcome) :
    (((v.leave id i).complete i w r outcome).emit (.granted id w.token)).Fifo := by
  have h' := h.finish id hw hr outcome
  -- the granted token moves from the queue to the grants
  have htokens : v.tokens id = w.token :: ((v.leave id i).complete i w r outcome).tokens id := by
    have hset : ((v.leave id i).complete i w r outcome).tokens id = (v.leave id i).tokens id :=
      tokens_setWait (v := v.leave id i) { w with phase := .complete outcome } hw rfl id
    rw [hset]
    show (v.queue id).filterMap _ = _ :: (update v.queue id ((v.queue id).erase i) id).filterMap _
    rw [update_self, hq, List.erase_cons_head, List.filterMap_cons, hw]
    rfl
  refine { h' with order := fun id' => ?_, nodup := ?_, known := ?_, fresh := ?_ }
  · show (grants (v.history ++ [_]) id' ++ ((v.leave id i).complete i w r outcome).tokens id').Sublist
      (arrivals (v.history ++ [_]) id')
    rw [grants_append, arrivals_append]
    by_cases heq : id' = id
    · have horder := h.order id
      rw [htokens] at horder
      simpa [heq, SyncEvent.grant, SyncEvent.arrival] using horder
    · have horder : (grants v.history id' ++ _).Sublist (arrivals v.history id') := h'.order id'
      simpa [SyncEvent.grant, SyncEvent.arrival, Ne.symm heq] using horder
  · simpa [View.emit, SyncEvent.arrival] using h'.nodup
  · simpa [View.emit, SyncEvent.arrival] using h'.known
  · simpa [View.emit, SyncEvent.arrival] using h'.fresh

theorem tokens_push (hw : v.wait i = some w) (id id' : ObjectId) (token : SyncWait) :
    (v.push id i token).tokens id'
      = if id' = id then v.tokens id ++ [w.token] else v.tokens id' := by
  show (update v.queue id (v.queue id ++ [i]) id').filterMap
    (fun i => (v.wait i).map WaitInfo.token) = _
  by_cases heq : id' = id
  · simp [heq, hw, tokens]
  · rw [update_of_ne heq, if_neg heq]
    rfl

/-- A wait joins a queue it has not been on. -/
theorem push (h : v.Fifo) (hw : v.wait i = some w) (hnew : w.token ∉ arrivals v.history id)
    (hr : v.thread w.token.thread = some r) (hseq : w.token.sequence ≤ r.waitSequence)
    (hfresh : ∀ j x m, v.wait j = some x → x.mutex = some m → x.phase = .queued →
      m.object = id → x.token ≠ w.token) : (v.push id i w.token).Fifo where
  order id' := by
    show (grants (v.history ++ [_]) id' ++ _).Sublist (arrivals (v.history ++ [_]) id')
    rw [grants_append, arrivals_append, tokens_push hw]
    have horder := h.order id'
    by_cases heq : id' = id
    · subst heq
      simp only [SyncEvent.grant, Option.toList_none, append_nil, SyncEvent.arrival, if_true,
        Option.toList_some, ← append_assoc]
      exact horder.append (List.Sublist.refl _)
    · simpa [SyncEvent.grant, SyncEvent.arrival, heq, Ne.symm heq] using horder
  nodup id' := by
    show (arrivals (v.history ++ [_]) id').Nodup
    rw [arrivals_append]
    by_cases heq : id' = id
    · subst heq
      simp only [SyncEvent.arrival, if_true, Option.toList_some]
      rw [List.nodup_append_comm, List.singleton_append, List.nodup_cons]
      exact ⟨hnew, h.nodup id'⟩
    · simpa [SyncEvent.arrival, Ne.symm heq] using h.nodup id'
  known id' token htoken := by
    change token ∈ arrivals (v.history ++ [_]) id' at htoken
    rw [arrivals_append, mem_append] at htoken
    rcases htoken with htoken | htoken
    · exact h.known id' token htoken
    · have htoken' : token = w.token := by
        by_cases heq : id = id' <;> simp_all [SyncEvent.arrival]
      rw [htoken']
      refine ⟨h.live _ r hr, fun r' hr' => ?_⟩
      rwa [← Option.mem_unique hr hr']
  live := h.live
  fresh j x m hx hm hphase := by
    show x.token ∉ arrivals (v.history ++ [_]) m.object
    rw [arrivals_append, mem_append, not_or]
    refine ⟨h.fresh j x m hx hm hphase, ?_⟩
    by_cases heq : id = m.object
    · simpa [SyncEvent.arrival, heq] using hfresh j x m hx hm hphase heq.symm
    · simp [SyncEvent.arrival, heq]

end Fifo

/-! ## Permits -/

/-- The permits of an object balance. Inside a release, `debt` of them are granted already. -/
structure Ledger (debt : ObjectId → ℕ) (v : View) : Prop where
  balance : ∀ id count maximum, v.kind id = some (.permit count maximum) →
    income v.history id + debt id = count + outgo v.history id
  past : ∀ e ∈ v.history, e.object.generation ≤ v.objectGeneration e.object.slot
  live : ∀ id k, v.kind id = some k → id.generation ≤ v.objectGeneration id.slot
  kinds : ∀ id k k', .created id k ∈ v.history → v.kind id = some k' → k.SameSort k'
  born : ∀ id k, v.kind id = some k → ∃ k0, .created id k0 ∈ v.history

namespace Ledger

variable {debt debt' : ObjectId → ℕ}

/-- An event of a live object. -/
theorem emit (h : v.Ledger debt) {e : SyncEvent} {k : Kind} (hk : v.kind e.object = some k)
    (hcreated : ∀ id k, e ≠ .created id k)
    (hdebt : ∀ id count maximum, v.kind id = some (.permit count maximum) →
      e.income id + debt' id = debt id + e.outgo id) : (v.emit e).Ledger debt' where
  balance id count maximum hk := by
    have hbalance := h.balance id count maximum hk
    have hd := hdebt id count maximum hk
    show income (v.history ++ [e]) id + debt' id = count + outgo (v.history ++ [e]) id
    rw [income_append, outgo_append]
    omega
  past := List.forall_mem_append.mpr ⟨h.past, List.forall_mem_singleton.mpr (h.live e.object k hk)⟩
  live := h.live
  kinds id k k' hmem hk := by
    rcases mem_append.mp hmem with hmem | hmem
    · exact h.kinds id k k' hmem hk
    · exact absurd (mem_singleton.mp hmem).symm (hcreated id k)
  born id k hk := by
    obtain ⟨k0, hmem⟩ := h.born id k hk
    exact ⟨k0, List.mem_append_left _ hmem⟩

/-- An event that puts permits into its object or takes them out. -/
theorem settle (h : v.Ledger debt) (e : SyncEvent) {k : Kind} {d : ℕ}
    (hk : v.kind e.object = some k) (hcreated : ∀ id k, e ≠ .created id k)
    (hd : e.income e.object + d = debt e.object + e.outgo e.object) :
    (v.emit e).Ledger (update debt e.object d) := by
  refine h.emit hk hcreated fun id _ _ _ => ?_
  by_cases heq : id = e.object
  · rw [heq, update_self, hd]
  · rw [update_of_ne heq]
    cases e <;> simp_all [SyncEvent.income, SyncEvent.outgo, SyncEvent.object, eq_comm]

theorem push (h : v.Ledger debt) {k : Kind} (hk : v.kind id = some k) (i : ℕ) (token : SyncWait) :
    (v.push id i token).Ledger debt := by
  have hemit : (v.emit (.queued id token)).Ledger debt :=
    h.emit hk (fun _ _ he => by cases he) fun _ _ _ _ => by simp [SyncEvent.income, SyncEvent.outgo]
  exact { hemit with }

/-- Another kind of the same sort, with the balance it then has. -/
theorem setKind (h : v.Ledger debt) {k k' : Kind} (hk : v.kind id = some k) (hsort : k.SameSort k')
    (hself : ∀ count maximum, k' = .permit count maximum →
      income v.history id + debt' id = count + outgo v.history id)
    (hother : ∀ id', id' ≠ id → debt' id' = debt id') : (v.setKind id k').Ledger debt' where
  balance id' count maximum hk' := by
    rcases update_eq_some.mp hk' with ⟨rfl, hkind⟩ | ⟨hne, hk'⟩
    · exact hself count maximum hkind.symm
    · rw [hother id' hne]
      exact h.balance id' count maximum hk'
  past := h.past
  live := forall_update (h.live id k hk) h.live
  kinds id' k0 k1 hmem hk1 := by
    rcases update_eq_some.mp hk1 with ⟨rfl, rfl⟩ | ⟨-, hk1⟩
    · exact (h.kinds id' k0 k hmem hk).trans hsort
    · exact h.kinds id' k0 k1 hmem hk1
  born := forall_update (h.born id k hk) h.born

end Ledger

/-! ## Records -/

/-- The history extends `past`, and what it says of waits and retired mutexes still holds. -/
structure Recorded (past : List SyncEvent) (v : View) : Prop where
  past : past <+: v.history
  waits : ∀ i w source mutex, v.wait i = some w → .waits w.token source mutex ∈ v.history →
    w.source = source ∧ w.mutex = mutex
  queued : ∀ token source mutex, .waits token source mutex ∈ v.history →
    token ∈ arrivals v.history source
  retired : ∀ id k, .retired id ∈ v.history → v.kind id = some k →
    ∃ policy, k = .mutex none true policy

namespace Recorded

variable {past : List SyncEvent}

variable (h : v.Recorded past)
include h

/-- Waits keep what they are for, and events of other sorts are logged. -/
theorem mono {v' : View} (events : List SyncEvent) (hhistory : v'.history = v.history ++ events)
    (hwaits : ∀ token source mutex, .waits token source mutex ∉ events)
    (hretired : ∀ id, .retired id ∉ events)
    (hwait : ∀ i w', v'.wait i = some w' → ∃ w, v.wait i = some w ∧ w.token = w'.token ∧
      w.source = w'.source ∧ w.mutex = w'.mutex)
    (hkind : ∀ id k, .retired id ∈ v.history → v'.kind id = some k →
      v.kind id = some k ∨ ∃ policy, k = .mutex none true policy) : v'.Recorded past where
  past := by
    rw [hhistory]
    exact h.past.trans (List.prefix_append _ _)
  waits i w' source mutex hw' he := by
    obtain ⟨w, hw, htoken, hsource, hmutex⟩ := hwait i w' hw'
    rw [hhistory, mem_append, or_iff_left (hwaits _ _ _), ← htoken] at he
    rw [← hsource, ← hmutex]
    exact h.waits i w source mutex hw he
  queued token source mutex he := by
    rw [hhistory, mem_append, or_iff_left (hwaits _ _ _)] at he
    rw [hhistory, arrivals, List.filterMap_append, mem_append]
    exact .inl (h.queued token source mutex he)
  retired id k he hk := by
    rw [hhistory, mem_append, or_iff_left (hretired _)] at he
    rcases hkind id k he hk with hold | hdead
    · exact h.retired id k he hold
    · exact hdead

/-- Nothing is logged and no mutex changes. -/
theorem congr {v' : View} (hhistory : v'.history = v.history)
    (hwait : ∀ i w', v'.wait i = some w' → ∃ w, v.wait i = some w ∧ w.token = w'.token ∧
      w.source = w'.source ∧ w.mutex = w'.mutex)
    (hkind : ∀ id k, v'.kind id = some k → v.kind id = some k) : v'.Recorded past :=
  h.mono [] (by rw [hhistory, append_nil]) (by simp) (by simp) hwait
    fun id k _ hk => .inl (hkind id k hk)

/-- An event of another sort. -/
theorem emit {e : SyncEvent} (hwaits : ∀ token source mutex, e ≠ .waits token source mutex)
    (hretired : ∀ id, e ≠ .retired id) : (v.emit e).Recorded past :=
  h.mono [e] rfl (fun token source mutex he => hwaits token source mutex (mem_singleton.mp he).symm)
    (fun id he => hretired id (mem_singleton.mp he).symm) (fun _ w hw => ⟨w, hw, rfl, rfl, rfl⟩)
    fun _ _ _ hk => .inl hk

/-- A wait changes phase. -/
theorem rewait (w' : WaitInfo) (hw : v.wait i = some w) (hw' : w' = { w with phase := w'.phase }) :
    (v.setWait i (some w')).Recorded past := by
  refine h.congr rfl (forall_update ?_ fun _ x hx => ⟨x, hx, rfl, rfl, rfl⟩) fun _ _ hk => hk
  rw [hw']
  exact ⟨w, hw, rfl, rfl, rfl⟩

/-- An object that is not retired, or stays dead, is rewritten. -/
theorem setKind {k k' : Kind} (hk : v.kind id = some k)
    (halive : (∃ policy, k = .mutex none true policy) → ∃ policy, k' = .mutex none true policy) :
    (v.setKind id k').Recorded past := by
  refine h.mono [] (append_nil _).symm (by simp) (by simp)
    (fun _ w hw => ⟨w, hw, rfl, rfl, rfl⟩) fun id' k0 he hk0 => ?_
  rcases update_eq_some.mp hk0 with ⟨rfl, rfl⟩ | ⟨-, hk0⟩
  · exact .inr (halive (h.retired id' k he hk))
  · exact .inl hk0

/-- A poisoned mutex is retired. -/
theorem retire {policy : OwnerDeath} (hk : v.kind id = some (.mutex none true policy)) :
    (v.emit (.retired id)).Recorded past where
  past := h.past.trans (List.prefix_append _ _)
  waits i w source mutex hw he := by
    refine h.waits i w source mutex hw ?_
    simpa [View.emit] using he
  queued token source mutex he := by
    have hold := h.queued token source mutex (by simpa [View.emit] using he)
    simpa [View.emit, SyncEvent.arrival] using hold
  retired id' k he hk' := by
    rcases mem_append.mp he with hold | hnew
    · exact h.retired id' k hold hk'
    · cases mem_singleton.mp hnew
      exact ⟨policy, Option.mem_unique hk' hk⟩

end Recorded

end View

end Troe.Task
