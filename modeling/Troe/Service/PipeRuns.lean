import Troe.Service.PipeTheorems

/-!
# What pipes promise

A run makes calls on a new table and uses an endpoint only while it is attached. As long as no
direction of a pipe has 2³² − 2 ends attached when another one is, the counts of ends do not wrap,
and every state of the run keeps the promises of `Semantics`.
-/

namespace Troe.Process

open Lib
open PipeCall (perform)
open PipeTable (attach closeOwner create detach endpointRecord new putRecord readEndpoint readOwner
  readSlot removeIfClosed vacantSlot writeEndpoint writeOwner writeSlot)

section

variable {table table' : PipeTable} {h : List PipeEvent} {token : PipeToken} {run : PipeRun}
  {call : PipeCall} {owner : OwnerId} {bytes : List UInt8} {endpoint : PipeEndpoint}
  {size index : ℕ} {record : PipeRecord}

/-! ## Steps -/

section

variable (hinv : Inv table h)
include hinv

theorem upholds_writeOwner :
    Upholds (writeOwner owner token bytes) table h
      (fun count => [.wrote token (bytes.take count)]) [] := by
  simp only [Upholds, writeOwner, wp_rules, not_or, Bool.not_eq_false]
  refine ⟨?_, fun _ _ => hinv.same⟩
  rintro ⟨index, record⟩ hrecord
  refine ⟨fun _ => hinv.same, fun hopen => ?_⟩
  exact upholds_writeSlot hinv (ownerRecord_eq_ok.mp hrecord).1 (.inl hopen.1)

theorem upholds_writeEndpoint (hout : 0 < outstanding h endpoint) :
    Upholds (writeEndpoint endpoint bytes) table h
      (fun count => [.wrote endpoint.token (bytes.take count)]) [] := by
  simp only [Upholds, writeEndpoint, wp_rules, not_not]
  refine ⟨fun _ => hinv.same, fun hdirection => ⟨?_, fun _ _ => hinv.same⟩⟩
  rintro ⟨index, record⟩ hrecord
  refine ⟨fun _ => hinv.same, fun _ => upholds_writeSlot hinv hrecord (.inr ?_)⟩
  rwa [← hdirection]

theorem upholds_readOwner :
    Upholds (readOwner owner token size) table h (fun bytes => [readEvent token bytes]) [] := by
  simp only [Upholds, readOwner, wp_rules]
  refine ⟨?_, fun _ _ => hinv.same⟩
  rintro ⟨index, record⟩ hrecord
  exact ⟨fun _ => hinv.same, fun _ => upholds_readSlot hinv (ownerRecord_eq_ok.mp hrecord).1⟩

theorem upholds_readEndpoint :
    Upholds (readEndpoint endpoint size) table h
      (fun bytes => [readEvent endpoint.token bytes]) [] := by
  simp only [Upholds, readEndpoint, wp_rules]
  refine ⟨fun _ => hinv.same, fun _ => ⟨?_, fun _ _ => hinv.same⟩⟩
  rintro ⟨index, record⟩ hrecord
  exact upholds_readSlot hinv hrecord

end

/-- An end is attached only where the count of ends has room for it and for the owner's end. -/
def PipeRun.Roomy (run : PipeRun) : PipeCall → Prop
  | .attach owner token direction => ∀ index record,
      run.table.ownerRecord owner token = .ok (index, record) →
        record.attached direction < 2 ^ 32 - 2
  | _ => True

/-- Every call that a run may make keeps the invariant. -/
theorem Inv.step (hinv : Inv run.table run.history) (hallowed : run.Allowed call)
    (hroomy : run.Roomy call) : Inv (run.step call).table (run.step call).history := by
  refine Act.of_wp (P := fun result t => Inv t (run.history ++ call.events result)) ?_
  cases call with
  | create owner capacity slotGranted bytesGranted =>
    exact Act.wp_bind.mpr (upholds_create hinv)
  | attach owner token direction => exact Act.wp_bind.mpr (upholds_attach hinv hroomy)
  | detach endpoint => exact Act.wp_bind.mpr (upholds_detach hinv (hallowed endpoint rfl))
  | closeOwner owner token direction => exact Act.wp_bind.mpr (upholds_closeOwner hinv)
  | writeOwner owner token bytes => exact Act.wp_bind.mpr (upholds_writeOwner hinv)
  | readOwner owner token size => exact Act.wp_bind.mpr (upholds_readOwner hinv)
  | writeEndpoint endpoint bytes =>
    exact Act.wp_bind.mpr (upholds_writeEndpoint hinv (hallowed endpoint rfl))
  | readEndpoint endpoint size => exact Act.wp_bind.mpr (upholds_readEndpoint hinv)

/-- States that runs reach whose calls all meet a condition. -/
inductive PipeRun.Reached (condition : PipeRun → PipeCall → Prop) : PipeRun → Prop
  | start {capacity : ℕ} {table : PipeTable} (opened : new capacity = .ok table) :
      Reached condition ⟨table, []⟩
  | step {run : PipeRun} {call : PipeCall} (before : Reached condition run)
      (met : condition run call) : Reached condition (run.step call)

theorem inv_new {capacity : ℕ} (hnew : new capacity = .ok table) : Inv table [] := by
  simp only [new, ok_rules, not_or, Nat.not_lt] at hnew
  obtain ⟨_, ⟨-, hcapacity⟩, hnew⟩ := hnew
  cases hnew
  refine ⟨hcapacity, Nat.zero_le _, ?_, ?_, ?_, ?_, rfl, Nat.zero_le _⟩
  · intro i hi
    exact absurd hi (Nat.not_lt_zero i)
  · intro i record hrecord
    cases hrecord
  · intro i _ g _ event hevent
    cases hevent
  · intro event hevent
    cases hevent

/-- A call uses attached endpoints only, and attaches where there is room. -/
def PipeRun.Proper (run : PipeRun) (call : PipeCall) : Prop := run.Allowed call ∧ run.Roomy call

theorem inv_of_reached (hreached : PipeRun.Reached PipeRun.Proper run) :
    Inv run.table run.history := by
  induction hreached with
  | start opened => exact inv_new opened
  | step _ met ih => exact ih.step met.1 met.2

/-! ## Tokens that name nothing any more -/

/-- The generation of the token's slot has gone on. -/
def Gone (table : PipeTable) (token : PipeToken) : Prop :=
  ∃ index generation, token = tokenOf index generation ∧ index + 1 < 2 ^ 32 ∧
    generation < table.slots.generation index

/-- No slot goes back to an older generation. -/
def Grows (table table' : PipeTable) : Prop :=
  ∀ index, table.slots.generation index ≤ table'.slots.generation index

theorem Gone.grows (hgone : Gone table token) (hgrows : Grows table table') :
    Gone table' token := by
  obtain ⟨index, generation, htoken, hsmall, hlt⟩ := hgone
  exact ⟨index, generation, htoken, hsmall, Nat.lt_of_lt_of_le hlt (hgrows index)⟩

/-- A write to a slot that does not take its generation back. -/
theorem keeps_modify {f : GenSlot PipeRecord → GenSlot PipeRecord}
    (hf : ∀ slot, slot.generation ≤ (f slot).generation) :
    Act.Keeps Grows (Act.modify fun table => { table with slots := table.slots.modify index f } :
      PipeAct Unit) :=
  fun _ _ hgrows i => Nat.le_trans (hgrows i) (GenSlab.generation_le_modify hf i)

theorem keeps_putRecord : Act.Keeps Grows (putRecord index record) :=
  keeps_modify fun _ => le_rfl

/-- The accounting leaves the slots alone. -/
theorem keeps_reserved (reserved : ℕ) : Act.Keeps Grows
    (Act.modify fun table => { table with reservedBytes := reserved } : PipeAct Unit) :=
  fun _ _ hgrows => hgrows

theorem keeps_removeIfClosed : Act.Keeps Grows (removeIfClosed index) :=
  .get fun _ => .okOr fun _ => .okOr fun _ => .ite
    (.okOr fun _ => .bind (keeps_modify fun _ => Nat.le_succ _) fun _ => .okOr fun _ =>
      keeps_reserved _)
    (.pure ())

/-- A slot that is added had no generation before. -/
theorem keeps_vacantSlot {granted : Bool} : Act.Keeps Grows (vacantSlot granted) := by
  intro start table hgrows
  simp only [vacantSlot, wp_rules]
  split
  · exact hgrows
  · simp only [wp_rules]
    refine ⟨fun _ => hgrows, fun _ => ⟨fun _ => hgrows, fun _ i => Nat.le_trans (hgrows i) ?_⟩⟩
    rw [GenSlab.generation_concat]
    split
    next hi =>
      rw [hi, GenSlab.generation, List.getElem?_eq_none (le_rfl)]
      exact Nat.zero_le _
    · exact le_rfl

theorem keeps_writeSlot : Act.Keeps Grows (writeSlot index record bytes) :=
  .ofExcept fun _ => .bind keeps_putRecord fun _ => .pure _

theorem keeps_readSlot : Act.Keeps Grows (readSlot index record size) :=
  .ofExcept fun _ => .bind keeps_putRecord fun _ => .pure _

/-- No call takes a slot back to an older generation. -/
theorem grows_perform (call : PipeCall) (table : PipeTable) :
    Grows table (call.perform table).2 := by
  have hkeeps : Act.Keeps Grows call.perform := by
    cases call with
    | create owner capacity slotGranted bytesGranted =>
      exact .bind (.get fun _ => .reject fun _ => .bind keeps_vacantSlot fun _ => .get fun _ =>
        .ofExcept fun _ => .reject fun _ => .bind keeps_putRecord fun _ => .okOr fun _ =>
          .bind (keeps_reserved _) fun _ => .pure _) fun _ => .pure _
    | attach owner token direction =>
      exact .bind (.get fun _ => .ofExcept fun _ => .reject fun _ => .okOr fun _ =>
        .bind keeps_putRecord fun _ => .pure _) fun _ => .pure _
    | detach endpoint =>
      exact .bind (.get fun _ => .ofExcept fun _ => .okOr fun _ => .bind keeps_putRecord fun _ =>
        keeps_removeIfClosed) fun _ => .pure _
    | closeOwner owner token direction =>
      exact .bind (.get fun _ => .ofExcept fun _ => .reject fun _ => .bind keeps_putRecord fun _ =>
        keeps_removeIfClosed) fun _ => .pure _
    | writeOwner owner token bytes =>
      exact .bind (.get fun _ => .ofExcept fun _ => .reject fun _ => keeps_writeSlot)
        fun _ => .pure _
    | readOwner owner token size =>
      exact .bind (.get fun _ => .ofExcept fun _ => .reject fun _ => keeps_readSlot)
        fun _ => .pure _
    | writeEndpoint endpoint bytes =>
      exact .bind (.reject fun _ => .get fun _ => .ofExcept fun _ => .reject fun _ =>
        keeps_writeSlot) fun _ => .pure _
    | readEndpoint endpoint size =>
      exact .bind (.reject fun _ => .get fun _ => .ofExcept fun _ => keeps_readSlot)
        fun _ => .pure _
  exact Act.snd_of_wp (hkeeps table table fun _ => le_rfl)

/-- A token of an older generation names no pipe. -/
theorem Gone.endpointRecord_ne (hgone : Gone table token) (pair : ℕ × PipeRecord) :
    table.endpointRecord token ≠ .ok pair := by
  obtain ⟨index, generation, rfl, hsmall, hlt⟩ := hgone
  intro hrecord
  obtain ⟨slot, hslot, -, hdecode⟩ := endpointRecord_iff.mp hrecord
  obtain ⟨htoken, -, hi, -⟩ := decodeToken_eq_ok.mp hdecode
  obtain ⟨rfl, rfl⟩ := tokenOf_inj hsmall hi htoken
  rw [GenSlab.generation, hslot] at hlt
  exact absurd hlt (Nat.lt_irrefl _)

/-- A call that names no pipe is rejected. -/
theorem rejected_of_unnamed (hcall : call.token = some token)
    (hnone : ∀ pair, table.endpointRecord token ≠ .ok pair) :
    ∃ e, call.perform table = (.error e, table) := by
  have howner : ∀ owner pair, table.ownerRecord owner token ≠ .ok pair := by
    rintro owner ⟨index, record⟩ hrecord
    exact hnone _ (ownerRecord_eq_ok.mp hrecord).1
  refine Act.eq_error ?_
  cases call with
  | create owner capacity slotGranted bytesGranted => cases hcall
  | attach owner token direction =>
    cases hcall
    simp [perform, attach, howner]
  | detach endpoint =>
    cases hcall
    simp [perform, detach, hnone]
  | closeOwner owner token direction =>
    cases hcall
    simp [perform, closeOwner, howner]
  | writeOwner owner token bytes =>
    cases hcall
    simp [perform, writeOwner, howner]
  | readOwner owner token size =>
    cases hcall
    simp [perform, readOwner, howner]
  | writeEndpoint endpoint bytes =>
    cases hcall
    simp [perform, writeEndpoint, hnone]
  | readEndpoint endpoint size =>
    cases hcall
    simp [perform, readEndpoint, hnone]

/-- A token that was used and names no pipe is gone. -/
theorem Inv.gone (hinv : Inv table h) {event : PipeEvent} (hevent : event ∈ h)
    (hnone : ∀ pair, table.endpointRecord event.token ≠ .ok pair) : Gone table event.token := by
  obtain ⟨index, hindex, generation, -, -, htoken⟩ := hinv.named event hevent
  refine ⟨index, generation, htoken, hinv.index_small hindex, ?_⟩
  by_contra hle
  rcases Nat.lt_or_eq_of_le (Nat.not_lt.mp hle) with hlt | heq
  · exact hinv.unused index hindex generation (.inl hlt) event hevent htoken
  · cases hvalue : table.slots.value index with
    | none =>
      exact hinv.unused index hindex generation (.inr ⟨heq, hvalue⟩) event hevent htoken
    | some record =>
      refine hnone (index, record) ((endpointRecord_eq_ok hinv).mpr ⟨?_, hvalue⟩)
      rw [htoken, heq]

/-- The pipe with one attached end fewer. -/
def PipeRecord.release (record : PipeRecord) (direction : PipeDirection) : PipeRecord :=
  record.setAttached (record.attached direction - 1) direction

/-- A detach takes the pipe with it when no end is left, and only lowers the count otherwise. -/
theorem detach_spec (hrecord : table.endpointRecord endpoint.token = .ok (index, record))
    (hdetach : ((PipeCall.detach endpoint).perform table).1 = .ok .done) :
    if (record.release endpoint.direction).removable
      then Gone ((PipeCall.detach endpoint).perform table).2 endpoint.token
      else ((PipeCall.detach endpoint).perform table).2.endpointRecord endpoint.token
        = .ok (index, record.release endpoint.direction) := by
  refine Act.of_wp_ok (Q := fun _ t => if (record.release endpoint.direction).removable
    then Gone t endpoint.token else t.endpointRecord endpoint.token = .ok (index, _))
    (R := fun _ _ => True) ?_ hdetach
  obtain ⟨slot, hslot, hvalue, hdecode⟩ := endpointRecord_iff.mp hrecord
  obtain ⟨htoken, -, hsmall, -⟩ := decodeToken_eq_ok.mp hdecode
  have hroom : index < table.slots.length := (List.getElem?_eq_some_iff.mp hslot).1
  have hput : (table.slots.put index (some (record.release endpoint.direction)))[index]?
      = some { slot with value := some (record.release endpoint.direction) } := by
    simp [GenSlab.put, hslot]
  simp only [perform, detach, removeIfClosed, putRecord, wp_quiet, hrecord, Act.wp_ite, ok_rules]
  rintro ⟨_, _⟩ heq _ ⟨-, rfl⟩ slot' hslot' record' hrecord'
  cases heq
  obtain rfl := Option.some.inj (hput.symm.trans hslot')
  obtain rfl := Option.some.inj hrecord'
  refine ⟨fun hremovable _ _ reserved _ => ?_, fun hleft => ?_⟩
  · rw [if_pos hremovable]
    refine ⟨index, slot.generation, htoken, hsmall, ?_⟩
    show _ < ((table.slots.put index (some (record.release _))).vacate index).generation index
    rw [GenSlab.generation_vacate (by rwa [GenSlab.length_put]), if_pos rfl, GenSlab.generation,
      hput]
    exact Nat.lt_succ_self _
  · rw [if_neg hleft]
    exact endpointRecord_iff.mpr ⟨_, hput, rfl, hdecode⟩

/-! ## The promises -/

/-- A run after some more calls, whatever they are. -/
def PipeRun.after (run : PipeRun) (calls : List PipeCall) : PipeRun := calls.foldl PipeRun.step run

/-- Calls that meet the condition in whatever state they are made. -/
theorem PipeRun.reached_after {condition : PipeRun → PipeCall → Prop} (calls : List PipeCall)
    (hreached : Reached condition run) (hmet : ∀ call ∈ calls, ∀ run, condition run call) :
    Reached condition (run.after calls) := by
  induction calls generalizing run with
  | nil => exact hreached
  | cons call calls ih =>
    exact ih (.step hreached (hmet call List.mem_cons_self run))
      fun call hcall => hmet call (List.mem_cons_of_mem _ hcall)

theorem Gone.after (calls : List PipeCall) (hgone : Gone run.table token) :
    Gone (run.after calls).table token := by
  induction calls generalizing run with
  | nil => exact hgone
  | cons call calls ih => exact ih (hgone.grows (grows_perform call run.table))

/-- What pipes promise in a state of a run: the bytes read so far and the bytes buffered are the
bytes written; a read reports the end of file only when nothing is buffered and nobody can write,
and from then on every read through an open end does; the bytes reserved are those of the pipes
there are; and a token that has lost its pipe is rejected whatever happens. -/
structure Semantics (run : PipeRun) : Prop where
  bytes : ∀ token index record, run.table.endpointRecord token = .ok (index, record) →
    taken run.history token ++ record.bytes = written run.history token
  endOfFile : ∀ call : PipeCall, (call.perform run.table).1 = .ok (.bytes []) →
    ∃ token index record, call.token = some token ∧
      run.table.endpointRecord token = .ok (index, record) ∧ record.bytes = [] ∧
      record.ownerWriterOpen = false ∧ outstanding run.history ⟨token, .writer⟩ = 0
  ended : ∀ token, .ended token ∈ run.history → ∀ index record,
    run.table.endpointRecord token = .ok (index, record) → ∀ size, 0 < size →
      (record.ownerReaderOpen = true →
        ((PipeCall.readOwner record.owner token size).perform run.table).1 = .ok (.bytes [])) ∧
      ((PipeCall.readEndpoint ⟨token, .reader⟩ size).perform run.table).1 = .ok (.bytes [])
  reserved : run.table.reservedBytes = run.table.slots.sum PipeRecord.capacity ∧
    run.table.reservedBytes ≤ maxPipeBytesPerOwner
  removed : ∀ token, .created token ∈ run.history →
    (∀ pair, run.table.endpointRecord token ≠ .ok pair) →
      ∀ (calls : List PipeCall) (call : PipeCall), call.token = some token →
        ∃ e, call.perform (run.after calls).table = (.error e, (run.after calls).table)

/-- A read that returns no bytes found an empty pipe without writers. -/
theorem Inv.empty_of_readPipe (hinv : Inv table h) {record' : PipeRecord}
    (hrecord : table.endpointRecord token = .ok (index, record))
    (hread : record.readPipe size = .ok ([], record')) :
    record.bytes = [] ∧ record.ownerWriterOpen = false ∧ outstanding h ⟨token, .writer⟩ = 0 := by
  obtain ⟨rfl, hvalue⟩ := (endpointRecord_eq_ok hinv).mp hrecord
  have htracks := hinv.live index record hvalue
  have hempty : record.bytes = [] ∧ record.writers = 0 := by
    simp only [PipeRecord.readPipe, ok_rules] at hread
    obtain ⟨_, hsize, hread⟩ := hread
    split at hread
    next hempty =>
      split at hread
      next hwriters => exact ⟨hempty, hwriters⟩
      · cases hread
    next hsome =>
      have hnil := (Prod.mk.inj (Except.ok.inj hread)).1
      simp [List.take_eq_nil_iff, hsize, hsome] at hnil
  obtain ⟨hclosed, hnone⟩ := htracks.writers_eq_zero hempty.2
  exact ⟨hempty.1, hclosed, (htracks.attached .writer).symm.trans hnone⟩

/-- A call that reports the end of file is a read of an empty pipe without writers. -/
theorem Inv.endOfFile (hinv : Inv table h) (heof : (call.perform table).1 = .ok (.bytes [])) :
    ∃ token index record, call.token = some token ∧
      table.endpointRecord token = .ok (index, record) ∧ record.bytes = [] ∧
      record.ownerWriterOpen = false ∧ outstanding h ⟨token, .writer⟩ = 0 := by
  have hslot : ∀ {token index record size}, table.endpointRecord token = .ok (index, record) →
      (readSlot index record size).wp (fun bytes _ => bytes = [] →
        ∃ index record, table.endpointRecord token = .ok (index, record) ∧ record.bytes = [] ∧
          record.ownerWriterOpen = false ∧ outstanding h ⟨token, .writer⟩ = 0)
        (fun _ _ => True) table := by
    intro token index record size hrecord
    simp only [readSlot, putRecord, wp_rules]
    refine ⟨?_, fun _ _ => trivial⟩
    rintro ⟨bytes, record'⟩ hread rfl
    exact ⟨index, record, hrecord, hinv.empty_of_readPipe hrecord hread⟩
  have hwp : call.perform.wp (fun reply _ => reply = .bytes [] →
      ∃ token index record, call.token = some token ∧
        table.endpointRecord token = .ok (index, record) ∧ record.bytes = [] ∧
        record.ownerWriterOpen = false ∧ outstanding h ⟨token, .writer⟩ = 0)
      (fun _ _ => True) table := by
    cases call with
    | readOwner owner token size =>
      simp only [perform, readOwner, wp_rules]
      refine ⟨?_, fun _ _ => trivial⟩
      rintro ⟨index, record⟩ hrecord
      refine ⟨fun _ => trivial, fun _ => ?_⟩
      refine Act.wp_mono (hslot (ownerRecord_eq_ok.mp hrecord).1) (fun bytes _ hbytes hnil => ?_)
        fun _ _ _ => trivial
      obtain ⟨index, record, hfound⟩ := hbytes (PipeReply.bytes.inj hnil)
      exact ⟨token, index, record, rfl, hfound⟩
    | readEndpoint endpoint size =>
      simp only [perform, readEndpoint, wp_rules]
      refine ⟨fun _ => trivial, fun _ => ⟨?_, fun _ _ => trivial⟩⟩
      rintro ⟨index, record⟩ hrecord
      refine Act.wp_mono (hslot hrecord) (fun bytes _ hbytes hnil => ?_) fun _ _ _ => trivial
      obtain ⟨index, record, hfound⟩ := hbytes (PipeReply.bytes.inj hnil)
      exact ⟨endpoint.token, index, record, rfl, hfound⟩
    | _ =>
      refine Act.wp_bind.mpr (Act.wp_ok_mono Act.wp_trivial fun _ _ _ hreply => ?_)
      cases hreply
  exact Act.of_wp_ok hwp heof rfl

/-- A pipe at its end reports it to every reader that may read. -/
theorem reads_end (hsize : 0 < size)
    (hrecord : table.endpointRecord token = .ok (index, record)) (hempty : record.bytes = [])
    (hwriters : record.writers = 0) :
    (record.ownerReaderOpen = true →
      ((PipeCall.readOwner record.owner token size).perform table).1 = .ok (.bytes [])) ∧
    ((PipeCall.readEndpoint ⟨token, .reader⟩ size).perform table).1 = .ok (.bytes []) := by
  have hread : record.readPipe size = .ok ([], record) := by
    simp [PipeRecord.readPipe, hempty, hwriters, rejectIf, Nat.pos_iff_ne_zero.mp hsize]
  have howner : table.ownerRecord record.owner token = .ok (index, record) :=
    ownerRecord_eq_ok.mpr ⟨hrecord, rfl⟩
  refine ⟨fun hopen => Act.fst_eq_ok ?_, Act.fst_eq_ok ?_⟩
  · simp [perform, readOwner, readSlot, putRecord, howner, hread, hopen]
  · simp [perform, readEndpoint, readSlot, putRecord, hrecord, hread]

/-- In every state that runs reach whose calls attach an end only where there is room for it, pipes
keep their promises. -/
theorem semantics_of_reached (hreached : PipeRun.Reached PipeRun.Proper run) : Semantics run := by
  have hinv := inv_of_reached hreached
  refine ⟨?_, fun call heof => hinv.endOfFile heof, ?_, ⟨hinv.reserved, hinv.limit⟩, ?_⟩
  · intro token index record hrecord
    obtain ⟨rfl, hvalue⟩ := (endpointRecord_eq_ok hinv).mp hrecord
    exact (hinv.live index record hvalue).bytes
  · intro token hended index record hrecord size hsize
    obtain ⟨htoken, hvalue⟩ := (endpointRecord_eq_ok hinv).mp hrecord
    obtain ⟨hempty, hclosed, hnone⟩ := (hinv.live index record hvalue).ended (htoken ▸ hended)
    have hwriters : record.writers = 0 := by simp [PipeRecord.writers, hclosed, hnone]
    exact reads_end hsize hrecord hempty hwriters
  · intro token hcreated hnone calls call hcall
    have hgone : Gone run.table token := hinv.gone hcreated hnone
    exact rejected_of_unnamed hcall fun pair => (hgone.after calls).endpointRecord_ne pair

end

/-- A run that makes one pipe, writes three bytes to it, attaches a reader and reads two of them. -/
def sampleRun : PipeRun :=
  (((PipeRun.step ⟨⟨[], 4, 0⟩, []⟩ (.create 1 4096 true true)).step
    (.writeOwner 1 (tokenOf 0 1) [1, 2, 3])).step (.attach 1 (tokenOf 0 1) .reader)).step
    (.readEndpoint ⟨tokenOf 0 1, .reader⟩ 2)

theorem semantics_of_reached_sample : PipeRun.Reached PipeRun.Proper sampleRun ∧
    taken sampleRun.history (tokenOf 0 1) = [1, 2] ∧ Semantics sampleRun := by
  have hnew : new 4 = .ok ⟨[], 4, 0⟩ := by decide
  have hreached : PipeRun.Reached PipeRun.Proper sampleRun := by
    refine .step (.step (.step (.step (.start hnew) ⟨nofun, trivial⟩) ⟨nofun, trivial⟩)
      ⟨nofun, ?_⟩) ⟨?_, trivial⟩
    · intro index record hrecord
      cases hrecord
      decide
    · rintro endpoint ⟨⟩
      decide
  exact ⟨hreached, by decide, semantics_of_reached hreached⟩

/-! ## Detached endpoints -/

/-- A call through an end of the direction moves bytes: there is something to read, or somebody reads
and there is room. -/
def PipeRecord.Usable (record : PipeRecord) : PipeDirection → Prop
  | .reader => record.bytes ≠ []
  | .writer => record.readers ≠ 0 ∧ record.bytes.length < record.capacity

/-- While a token names a usable pipe, a call through its endpoint value succeeds. -/
theorem used_of_usable {table : PipeTable} {endpoint : PipeEndpoint} {index : ℕ}
    {record : PipeRecord} (hrecord : table.endpointRecord endpoint.token = .ok (index, record))
    (husable : record.Usable endpoint.direction) : ∃ call : PipeCall,
      call.endpoint = some endpoint ∧ ∃ reply, (call.perform table).1 = .ok reply := by
  obtain ⟨token, direction⟩ := endpoint
  cases direction with
  | reader =>
    have husable : record.bytes ≠ [] := husable
    refine ⟨.readEndpoint ⟨token, .reader⟩ 1, rfl, .bytes (record.bytes.take 1), Act.fst_eq_ok ?_⟩
    simp [perform, readEndpoint, readSlot, putRecord, hrecord, PipeRecord.readPipe, rejectIf,
      husable]
  | writer =>
    obtain ⟨hreaders, hroom⟩ := husable
    have hwrite : record.writePipe [0] = .ok { record with bytes := record.bytes ++ [0] } := by
      rw [PipeRecord.writePipe, rejectIf, if_neg (by decide), rejectIf, if_neg]
      · rfl
      · exact Nat.not_lt.mpr (Nat.sub_pos_of_lt hroom)
    refine ⟨.writeEndpoint ⟨token, .writer⟩ [0], rfl, .count 1, Act.fst_eq_ok ?_⟩
    simp [perform, writeEndpoint, writeSlot, putRecord, hrecord, hreaders, hwrite]

/-- **Detached endpoints.** When the released end was the last one, the owner's among them, every call
through the endpoint value, or through a copy of it, is rejected and changes nothing, whatever is
called in between. While another end is left, the value is still good for the next call as long as
the pipe is usable. -/
theorem detached_rejected {run : PipeRun} {endpoint : PipeEndpoint} {index : ℕ}
    {record : PipeRecord}
    (hrecord : run.table.endpointRecord endpoint.token = .ok (index, record))
    (hdetach : ((PipeCall.detach endpoint).perform run.table).1 = .ok .done) :
    ((record.release endpoint.direction).removable = true → ∀ calls (call : PipeCall),
      call.endpoint = some endpoint →
        ∃ e, call.perform ((run.step (.detach endpoint)).after calls).table
          = (.error e, ((run.step (.detach endpoint)).after calls).table)) ∧
    ((record.release endpoint.direction).removable = false →
      record.Usable endpoint.direction → ∃ call : PipeCall, call.endpoint = some endpoint ∧
        ∃ reply, (call.perform (run.step (.detach endpoint)).table).1 = .ok reply) := by
  have hspec := detach_spec hrecord hdetach
  refine ⟨fun hlast calls call hcall => ?_, fun hleft husable => ?_⟩
  · rw [if_pos hlast] at hspec
    have hgone : Gone (run.step (.detach endpoint)).table endpoint.token := hspec
    have htoken : call.token = some endpoint.token := by cases call <;> cases hcall <;> rfl
    exact rejected_of_unnamed htoken fun pair => (hgone.after calls).endpointRecord_ne pair
  · rw [if_neg (by simp [hleft])] at hspec
    refine used_of_usable hspec ?_
    cases hdirection : endpoint.direction <;> rw [hdirection] at husable <;> exact husable

/-- A reader of the first pipe. -/
def copied : PipeEndpoint := ⟨tokenOf 0 1, .reader⟩

/-- A run that makes a pipe with one byte in it and attaches that reader as often as asked. -/
def readersRun (readers : ℕ) : PipeRun :=
  PipeRun.after ⟨⟨[], 4, 0⟩, []⟩ (.create 1 4096 true true :: .writeOwner 1 (tokenOf 0 1) [7] ::
    .replicate readers (.attach 1 (tokenOf 0 1) .reader))

theorem detached_rejected_last :
    ∃ run, PipeRun.Reached (fun _ _ => True) run ∧
      ((PipeCall.detach copied).perform run.table).1 = .ok .done ∧ ∀ calls, ∃ e,
        (PipeCall.readEndpoint copied 1).perform ((run.step (.detach copied)).after calls).table
          = (.error e, ((run.step (.detach copied)).after calls).table) := by
  let run := (readersRun 1).after [.closeOwner 1 (tokenOf 0 1) .reader,
    .closeOwner 1 (tokenOf 0 1) .writer]
  have hnew : new 4 = .ok ⟨[], 4, 0⟩ := by decide
  have hrecord : run.table.endpointRecord copied.token
      = .ok (0, ⟨1, 4096, [7], false, false, 1, 0⟩) := by decide
  refine ⟨run, ?_, by decide, fun calls => ?_⟩
  · exact PipeRun.reached_after _ (PipeRun.reached_after _ (.start hnew) fun _ _ _ => trivial)
      fun _ _ _ => trivial
  · exact (detached_rejected hrecord (by decide)).1 (by decide) calls _ rfl

/-- Two attachments of a reader are one value: after the first detach a read through it still
returns the byte, and a second detach releases the other attachment. -/
theorem detached_reads :
    ∃ run, PipeRun.Reached (fun _ _ => True) run ∧ outstanding run.history copied = 2 ∧
      ((PipeCall.detach copied).perform run.table).1 = .ok .done ∧
      ((PipeCall.readEndpoint copied 1).perform (run.step (.detach copied)).table).1
        = .ok (.bytes [7]) ∧
      ((PipeCall.detach copied).perform (run.step (.detach copied)).table).1 = .ok .done := by
  have hnew : new 4 = .ok ⟨[], 4, 0⟩ := by decide
  refine ⟨readersRun 2, ?_, by decide, by decide, by decide, by decide⟩
  exact PipeRun.reached_after _ (.start hnew) fun _ _ _ => trivial

/-! ## When the count of ends wraps -/

/-- A pipe whose owner has both ends and has attached `count` writers. -/
def crowded (count : ℕ) : PipeTable :=
  { slots := [⟨1, some ⟨1, 4096, [], true, true, 0, count⟩⟩], capacity := 1, reservedBytes := 4096 }

/-- The run that leads there. -/
def crowdedRun (count : ℕ) : PipeRun :=
  ⟨crowded count, .created (tokenOf 0 1) :: .replicate count (.attached ⟨tokenOf 0 1, .writer⟩)⟩

theorem crowded_ownerRecord (count : ℕ) :
    (crowded count).ownerRecord 1 (tokenOf 0 1)
      = .ok (0, ⟨1, 4096, [], true, true, 0, count⟩) := rfl

theorem crowdedRun_step {count : ℕ} (hcount : count + 1 < 2 ^ 32) :
    (crowdedRun count).step (.attach 1 (tokenOf 0 1) .writer) = crowdedRun (count + 1) := by
  have hadd : checkedAdd 32 count 1 = some (count + 1) := by
    rw [checkedAdd, if_pos hcount]
  have hperform : (PipeCall.attach 1 (tokenOf 0 1) .writer).perform (crowded count)
      = (.ok (.endpoint ⟨tokenOf 0 1, .writer⟩), crowded (count + 1)) := by
    refine Act.eq_ok ?_
    simp only [perform, attach, putRecord, wp_rules, crowded_ownerRecord, PipeRecord.attached]
    simp [PipeRecord.ownerOpen, PipeRecord.setAttached, crowded, GenSlab.put, hadd]
  unfold PipeRun.step
  rw [crowdedRun, hperform, crowdedRun, List.replicate_succ']
  rfl

theorem reached_crowdedRun {count : ℕ} (hcount : count < 2 ^ 32) :
    PipeRun.Reached PipeRun.Allowed (crowdedRun count) := by
  induction count with
  | zero =>
    have hnew : new 1 = .ok ⟨[], 1, 0⟩ := by decide
    have hcreate : PipeRun.step ⟨⟨[], 1, 0⟩, []⟩ (.create 1 4096 true true) = crowdedRun 0 := rfl
    rw [← hcreate]
    refine .step (.start hnew) ?_
    intro endpoint hendpoint
    cases hendpoint
  | succ count ih =>
    rw [← crowdedRun_step hcount]
    refine .step (ih (by omega)) ?_
    intro endpoint hendpoint
    cases hendpoint

/-- With 2³² − 1 writers attached and the owner's own end open the count of writers wraps to zero,
and a read of the empty pipe reports the end of file to a reader whose writers are all there. -/
theorem end_of_file_with_writers :
    ∃ run, PipeRun.Reached PipeRun.Allowed run ∧ ¬ Semantics run := by
  refine ⟨crowdedRun (2 ^ 32 - 1), reached_crowdedRun (by decide), fun hsemantics => ?_⟩
  have heof : ((PipeCall.readOwner 1 (tokenOf 0 1) 1).perform (crowded (2 ^ 32 - 1))).1
      = .ok (.bytes []) := by
    decide
  obtain ⟨token, index, record, htoken, hrecord, -, hclosed, -⟩ := hsemantics.endOfFile _ heof
  cases htoken
  have howner := (ownerRecord_eq_ok.mp (crowded_ownerRecord (2 ^ 32 - 1))).1
  obtain ⟨-, rfl⟩ := Prod.mk.inj (Except.ok.inj (hrecord.symm.trans howner))
  cases hclosed

end Troe.Process
