import Troe.Service.Pipe

/-!
# Runs of the pipe table

The invariant ties every pipe in the table to what has happened to it: the bytes read and the bytes
buffered are the bytes written, the counts of attached ends are the endpoints that are out, and after
an end of file no writer is left. A token that was used names its pipe or, once that is gone, nothing.
-/

namespace Troe.Process

open Lib
open List (append_nil length_append mem_append mem_singleton)
open GenSlab (generation_concat generation_put generation_vacate length_put lt_length_of_value sum
  value value_concat value_put)
open PipeRecord (setAttached)
open PipeTable (attach closeOwner create detach putRecord readSlot removeIfClosed vacantSlot
  writeSlot)

/-! ## Tokens -/

/-- The token of a slot and a generation. -/
def tokenOf (index generation : ℕ) : PipeToken := generation * 2 ^ 32 + (index + 1)

/-- Slots and generations of 32 bits can be told from the token. -/
theorem tokenOf_inj {i j g g' : ℕ} (hi : i + 1 < 2 ^ 32) (hj : j + 1 < 2 ^ 32)
    (h : tokenOf i g = tokenOf j g') : i = j ∧ g = g' := by
  have h : g * 2 ^ 32 + (i + 1) = g' * 2 ^ 32 + (j + 1) := h
  omega

theorem encodeToken_eq_ok {index generation token : ℕ}
    (h : encodeToken index generation = .ok token) :
    token = tokenOf index generation := by
  simp only [encodeToken, ok_rules] at h
  obtain ⟨_, -, slot, ⟨-, rfl⟩, _, -, h⟩ := h
  exact (Except.ok.inj h).symm

/-- The tokens that are accepted, and what they stand for. -/
theorem decodeToken_eq_ok {value capacity index generation : ℕ} :
    decodeToken value capacity = .ok (index, generation) ↔
      value = tokenOf index generation ∧ index + 1 ≤ capacity ∧ index + 1 < 2 ^ 32 ∧
        1 ≤ generation ∧ generation < 2 ^ 32 := by
  simp only [decodeToken, ok_rules, not_or]
  constructor
  · rintro ⟨_, hvalid, _, hsmall, h⟩
    cases h
    unfold tokenOf
    omega
  · rintro ⟨rfl, hindex, hlt, hpos, hgeneration⟩
    have hslot : tokenOf index generation % 2 ^ 32 = index + 1 := by unfold tokenOf; omega
    have hdiv : tokenOf index generation / 2 ^ 32 = generation := by unfold tokenOf; omega
    rw [hslot, hdiv]
    exact ⟨(), by omega, (), by omega, rfl⟩

/-! ## What has happened -/

section

variable {h evs : List PipeEvent} {token : PipeToken} {record record' : PipeRecord}
  {direction : PipeDirection} {bytes : List UInt8}

/-- Nothing has happened to this token. -/
def Unused (h : List PipeEvent) (token : PipeToken) : Prop := ∀ event ∈ h, event.token ≠ token

theorem written_append (h evs : List PipeEvent) (token : PipeToken) :
    written (h ++ evs) token = written h token ++ written evs token := List.flatMap_append

theorem taken_append (h evs : List PipeEvent) (token : PipeToken) :
    taken (h ++ evs) token = taken h token ++ taken evs token := List.flatMap_append

/-- Only attaching and detaching changes how often an endpoint is out. -/
theorem outstanding_concat (h : List PipeEvent) (event : PipeEvent) (endpoint : PipeEndpoint) :
    outstanding (h ++ [event]) endpoint =
      if event = .attached endpoint then outstanding h endpoint + 1
      else if event = .detached endpoint then outstanding h endpoint - 1
      else outstanding h endpoint := by
  unfold outstanding
  rw [List.foldl_append]
  rfl

theorem Unused.written_eq (hu : Unused h token) : written h token = [] := by
  refine List.flatMap_eq_nil_iff.mpr fun event hevent => ?_
  cases event with
  | wrote t bytes => exact if_neg (hu _ hevent)
  | _ => rfl

theorem Unused.taken_eq (hu : Unused h token) : taken h token = [] := by
  refine List.flatMap_eq_nil_iff.mpr fun event hevent => ?_
  cases event with
  | got t bytes => exact if_neg (hu _ hevent)
  | _ => rfl

/-- Events of other pipes do not change how often an endpoint is out. -/
theorem outstanding_append_of_unused (hu : Unused evs token) :
    outstanding (h ++ evs) ⟨token, direction⟩ = outstanding h ⟨token, direction⟩ := by
  induction evs generalizing h with
  | nil => rw [append_nil]
  | cons event evs ih =>
    have hevent : event.token ≠ token := hu event List.mem_cons_self
    rw [List.append_cons, ih fun e he => hu e (List.mem_cons_of_mem event he),
      outstanding_concat, if_neg, if_neg]
    · rintro rfl
      exact hevent rfl
    · rintro rfl
      exact hevent rfl

theorem Unused.outstanding_eq (hu : Unused h token) : outstanding h ⟨token, direction⟩ = 0 :=
  outstanding_append_of_unused (h := []) hu

/-- An endpoint that is out was attached. -/
theorem exists_event_of_outstanding {endpoint : PipeEndpoint} (hout : 0 < outstanding h endpoint) :
    ∃ event ∈ h, event.token = endpoint.token := by
  by_contra hnone
  push Not at hnone
  have : Unused h endpoint.token := hnone
  rw [this.outstanding_eq] at hout
  exact absurd hout (Nat.lt_irrefl 0)

/-- A pipe agrees with what has happened to it. -/
structure Tracks (h : List PipeEvent) (token : PipeToken) (record : PipeRecord) : Prop where
  bytes : taken h token ++ record.bytes = written h token
  attached : ∀ direction, record.attached direction = outstanding h ⟨token, direction⟩
  small : ∀ direction, record.attached direction + 1 < 2 ^ 32
  ended : .ended token ∈ h →
    record.bytes = [] ∧ record.ownerWriterOpen = false ∧ record.attachedWriters = 0

/-- What happens to other pipes does not matter. -/
theorem Tracks.other (ht : Tracks h token record) (hu : Unused evs token) :
    Tracks (h ++ evs) token record := by
  refine ⟨?_, fun direction => ?_, ht.small, fun hended => ?_⟩
  · rw [taken_append, written_append, hu.taken_eq, hu.written_eq, append_nil, append_nil]
    exact ht.bytes
  · rw [outstanding_append_of_unused hu]
    exact ht.attached direction
  · rcases mem_append.mp hended with hended | hended
    · exact ht.ended hended
    · exact absurd rfl (hu _ hended)

/-- A new pipe, of a token that was not used. -/
theorem tracks_created (hu : Unused h token) (hbytes : record.bytes = [])
    (hreaders : record.attachedReaders = 0) (hwriters : record.attachedWriters = 0) :
    Tracks (h ++ [.created token]) token record := by
  have hattached : ∀ direction, record.attached direction = 0 := by
    intro direction
    cases direction
    · exact hreaders
    · exact hwriters
  refine ⟨?_, fun direction => ?_, fun direction => ?_, fun hended => ?_⟩
  · rw [taken_append, written_append, hu.taken_eq, hu.written_eq, hbytes]
    rfl
  · rw [outstanding_concat, if_neg (by simp), if_neg (by simp), hu.outstanding_eq, hattached]
  · rw [hattached]
    decide
  · rcases mem_append.mp hended with hended | hended
    · exact absurd rfl (hu _ hended)
    · simp at hended

/-- After an event that moves no byte the ends of one direction are counted anew. -/
theorem Tracks.recount {event : PipeEvent} {n : ℕ} (ht : Tracks h token record)
    (hquiet : taken [event] token = [] ∧ written [event] token = [] ∧ event ≠ .ended token)
    (hcount : ∀ d, (record.setAttached n direction).attached d =
      outstanding (h ++ [event]) ⟨token, d⟩)
    (hsmall : n + 1 < 2 ^ 32) (hlast : .ended token ∈ h → direction = .writer → n = 0) :
    Tracks (h ++ [event]) token (record.setAttached n direction) := by
  obtain ⟨htaken, hwritten, hevent⟩ := hquiet
  refine ⟨?_, hcount, fun d => ?_, fun hended => ?_⟩
  · rw [taken_append, written_append, htaken, hwritten, append_nil, append_nil, ← ht.bytes]
    cases direction <;> rfl
  · have hold := ht.small d
    cases direction <;> cases d <;> first | exact hsmall | exact hold
  · have hended : PipeEvent.ended token ∈ h := by simpa [Ne.symm hevent] using hended
    obtain ⟨hbytes, hclosed, hwriters⟩ := ht.ended hended
    cases direction with
    | reader => exact ⟨hbytes, hclosed, hwriters⟩
    | writer => exact ⟨hbytes, hclosed, hlast hended rfl⟩

/-- A writing end is attached only while the owner's is open, and then no end of file was reported. -/
theorem Tracks.attach (ht : Tracks h token record) (hopen : record.ownerOpen direction = true)
    (hroom : record.attached direction < 2 ^ 32 - 2) :
    Tracks (h ++ [.attached ⟨token, direction⟩]) token
      (record.setAttached (record.attached direction + 1) direction) := by
  refine ht.recount (by simp [taken, written]) (fun d => ?_) (by omega) fun hended hwriter => ?_
  · rw [outstanding_concat, ← ht.attached d]
    cases direction <;> cases d <;> simp [setAttached, PipeRecord.attached]
  · rw [hwriter, PipeRecord.ownerOpen, (ht.ended hended).2.1] at hopen
    cases hopen

/-- Releasing an end gives one back. -/
theorem Tracks.detach (ht : Tracks h token record) :
    Tracks (h ++ [.detached ⟨token, direction⟩]) token
      (record.setAttached (record.attached direction - 1) direction) := by
  have hsmall := ht.small direction
  refine ht.recount (by simp [taken, written]) (fun d => ?_) (by omega) fun hended hwriter => ?_
  · rw [outstanding_concat, ← ht.attached d]
    cases direction <;> cases d <;> simp [setAttached, PipeRecord.attached]
  · have hwriters : record.attached .writer = 0 := (ht.ended hended).2.2
    rw [hwriter, hwriters]

theorem attached_closeOwner (record : PipeRecord) (direction d : PipeDirection) :
    (record.closeOwner direction).attached d = record.attached d := by
  cases direction <;> cases d <;> rfl

variable (ht : Tracks h token record)
include ht

theorem Tracks.closeOwner : Tracks h token (record.closeOwner direction) := by
  refine ⟨?_, fun d => ?_, fun d => ?_, fun hended => ?_⟩
  · cases direction <;> exact ht.bytes
  · rw [attached_closeOwner]
    exact ht.attached d
  · rw [attached_closeOwner]
    exact ht.small d
  · obtain ⟨hbytes, hclosed, hwriters⟩ := ht.ended hended
    cases direction with
    | reader => exact ⟨hbytes, hclosed, hwriters⟩
    | writer => exact ⟨hbytes, rfl, hwriters⟩

/-- Somebody can write only as long as no end of file was reported. -/
theorem Tracks.write (hwriter : record.ownerWriterOpen = true ∨ 0 < outstanding h ⟨token, .writer⟩)
    (hw : record.writePipe bytes = .ok record') :
    record'.capacity = record.capacity ∧
      Tracks (h ++ [.wrote token (bytes.take bytes.length)]) token record' := by
  simp only [PipeRecord.writePipe, ok_rules] at hw
  obtain ⟨_, -, _, -, hw⟩ := hw
  cases hw
  refine ⟨rfl, ?_, fun d => ?_, fun d => ?_, fun hended => ?_⟩
  · rw [written_append, List.take_length, ← ht.bytes]
    simp [taken, written]
  · rw [outstanding_concat, if_neg (by simp), ← ht.attached]
    cases d <;> rfl
  · have := ht.small d
    cases d <;> exact this
  · have hended : PipeEvent.ended token ∈ h := by simpa using hended
    obtain ⟨-, hclosed, hwriters⟩ := ht.ended hended
    rcases hwriter with hopen | hout
    · rw [hclosed] at hopen
      cases hopen
    · rw [← ht.attached] at hout
      exact absurd hwriters (Nat.ne_of_gt hout)

/-- No writer is left when the sum of the writing ends is zero: it does not wrap. -/
theorem Tracks.writers_eq_zero (hw : record.writers = 0) :
    record.ownerWriterOpen = false ∧ record.attachedWriters = 0 := by
  have hsmall : record.attachedWriters + 1 < 2 ^ 32 := ht.small .writer
  unfold PipeRecord.writers at hw
  cases hopen : record.ownerWriterOpen with
  | false =>
    rw [hopen, Bool.toNat_false, Nat.zero_add, Nat.mod_eq_of_lt (by omega)] at hw
    exact ⟨rfl, hw⟩
  | true =>
    rw [hopen, Bool.toNat_true] at hw
    omega

/-- A read takes bytes from the front, or reports the end of file. -/
theorem Tracks.read {size : ℕ} (hr : record.readPipe size = .ok (bytes, record')) :
    record'.capacity = record.capacity ∧ Tracks (h ++ [readEvent token bytes]) token record' := by
  simp only [PipeRecord.readPipe, ok_rules] at hr
  obtain ⟨_, hsize, hr⟩ := hr
  split at hr
  next hempty =>
    split at hr
    next hwriters =>
      cases hr
      refine ⟨rfl, ?_, fun d => ?_, ht.small, fun _ => ⟨hempty, ht.writers_eq_zero hwriters⟩⟩
      · rw [written_append, readEvent, if_pos rfl]
        simpa [taken, written] using ht.bytes
      · rw [readEvent, outstanding_concat, if_neg (by simp), if_neg (by simp)]
        exact ht.attached d
    · cases hr
  next hsome =>
    cases hr
    have hne : record.bytes.take size ≠ [] := by
      rw [Ne, List.take_eq_nil_iff, not_or]
      exact ⟨hsize, hsome⟩
    rw [readEvent, if_neg hne]
    refine ⟨rfl, ?_, fun d => ?_, fun d => ?_, fun hended => ?_⟩
    · rw [written_append, ← ht.bytes]
      simp [taken, written]
    · rw [outstanding_concat, if_neg (by simp), ← ht.attached]
      cases d <;> rfl
    · have := ht.small d
      cases d <;> exact this
    · have hended : PipeEvent.ended token ∈ h := by simpa using hended
      exact absurd (ht.ended hended).1 hsome

end

/-! ## The invariant -/

/-- The invariant of a run. -/
structure Inv (table : PipeTable) (h : List PipeEvent) : Prop where
  capacity : table.capacity ≤ maxPipesPerOwner
  length : table.slots.length ≤ table.capacity
  generation : ∀ i < table.slots.length,
    1 ≤ table.slots.generation i ∧ table.slots.generation i < 2 ^ 32
  live : ∀ i record, table.slots.value i = some record →
    Tracks h (tokenOf i (table.slots.generation i)) record
  unused : ∀ i < table.capacity, ∀ g, (table.slots.generation i < g ∨
    table.slots.generation i = g ∧ table.slots.value i = none) → Unused h (tokenOf i g)
  named : ∀ event ∈ h, ∃ i < table.capacity, ∃ g, 1 ≤ g ∧ g < 2 ^ 32 ∧ event.token = tokenOf i g
  reserved : table.reservedBytes = table.slots.sum PipeRecord.capacity
  limit : table.reservedBytes ≤ maxPipeBytesPerOwner

section

variable {table : PipeTable} {h evs : List PipeEvent} {token : PipeToken} {index : ℕ}
  {record record' : PipeRecord} {owner : OwnerId} {direction : PipeDirection}

theorem Inv.index_small (hinv : Inv table h) {i : ℕ} (hi : i < table.capacity) : i + 1 < 2 ^ 32 := by
  have := hinv.capacity
  unfold maxPipesPerOwner at this
  omega

/-- A token names the pipe in its slot, if that has the generation of the token. -/
theorem endpointRecord_iff : table.endpointRecord token = .ok (index, record) ↔
    ∃ slot, table.slots[index]? = some slot ∧ slot.value = some record ∧
      decodeToken token table.capacity = .ok (index, slot.generation) := by
  simp only [PipeTable.endpointRecord, ok_rules, Prod.exists, not_not]
  constructor
  · rintro ⟨i, _, hdecode, slot, hslot, _, rfl, record, hrecord, hpair⟩
    cases hpair
    exact ⟨slot, hslot, hrecord, hdecode⟩
  · rintro ⟨slot, hslot, hrecord, hdecode⟩
    exact ⟨index, _, hdecode, slot, hslot, (), rfl, record, hrecord, rfl⟩

/-- The pipe that a token names in a run. -/
theorem endpointRecord_eq_ok (hinv : Inv table h) :
    table.endpointRecord token = .ok (index, record) ↔
      token = tokenOf index (table.slots.generation index) ∧
        table.slots.value index = some record := by
  rw [endpointRecord_iff]
  constructor
  · rintro ⟨slot, hslot, hrecord, hdecode⟩
    obtain ⟨htoken, -⟩ := decodeToken_eq_ok.mp hdecode
    refine ⟨?_, by rw [value, hslot, Option.bind_some, hrecord]⟩
    rw [htoken, GenSlab.generation, hslot, Option.map_some, Option.getD_some]
  · rintro ⟨rfl, hvalue⟩
    have hindex := lt_length_of_value hvalue
    obtain ⟨hpos, hlt⟩ := hinv.generation index hindex
    have hlength := hinv.length
    have hsmall := hinv.index_small (Nat.lt_of_lt_of_le hindex hlength)
    refine ⟨table.slots[index], List.getElem?_eq_getElem hindex, ?_, ?_⟩
    · simpa [value, hindex] using hvalue
    · simpa [GenSlab.generation, hindex] using
        decodeToken_eq_ok.mpr ⟨rfl, by omega, hsmall, hpos, hlt⟩

theorem ownerRecord_eq_ok : table.ownerRecord owner token = .ok (index, record) ↔
      table.endpointRecord token = .ok (index, record) ∧ record.owner = owner := by
  simp only [PipeTable.ownerRecord, ok_rules, Prod.exists, not_not]
  constructor
  · rintro ⟨i, record, hrecord, _, howner, hpair⟩
    cases hpair
    exact ⟨hrecord, howner⟩
  · rintro ⟨hrecord, howner⟩
    exact ⟨index, record, hrecord, (), howner, rfl⟩

section

variable (hinv : Inv table h)
include hinv

/-- A pipe is written to a slot, and what happened is recorded under its token. -/
theorem Inv.place (hindex : index < table.slots.length)
    (hevs : ∀ event ∈ evs, event.token = tokenOf index (table.slots.generation index))
    (ht : Tracks (h ++ evs) (tokenOf index (table.slots.generation index)) record') {reserved : ℕ}
    (hreserved : reserved + (table.slots.value index).elim 0 PipeRecord.capacity
      = table.reservedBytes + record'.capacity) (hlimit : reserved ≤ maxPipeBytesPerOwner) :
    Inv { table with slots := table.slots.put index (some record'), reservedBytes := reserved }
      (h ++ evs) := by
  have hlength := hinv.length
  have hroom : index < table.capacity := by omega
  -- tokens are different, so the events say nothing about another pipe
  have hother : ∀ i < table.capacity, ∀ g, i ≠ index ∨ g ≠ table.slots.generation index →
      Unused evs (tokenOf i g) := by
    intro i hi g hne event hevent heq
    rw [hevs event hevent] at heq
    obtain ⟨rfl, rfl⟩ := tokenOf_inj (hinv.index_small hroom) (hinv.index_small hi) heq
    simp at hne
  refine ⟨hinv.capacity, ?_, ?_, ?_, ?_, ?_, ?_, hlimit⟩
  · rw [length_put]
    exact hinv.length
  · intro i hi
    rw [length_put] at hi
    rw [generation_put]
    exact hinv.generation i hi
  · intro i r hr
    rw [value_put hindex] at hr
    rw [generation_put]
    split at hr
    next hi =>
      cases hr
      rw [hi]
      exact ht
    next hi =>
      have hlive := lt_length_of_value hr
      exact (hinv.live i r hr).other (hother i (by omega) _ (.inl hi))
  · intro i hi g hg
    simp only [generation_put, value_put hindex] at hg
    have hne : i ≠ index ∨ g ≠ table.slots.generation index := by
      by_contra hboth
      push Not at hboth
      obtain ⟨rfl, rfl⟩ := hboth
      simp at hg
    intro event hevent
    rcases mem_append.mp hevent with hevent | hevent
    · refine hinv.unused i hi g (hg.imp_right fun hg => ⟨hg.1, ?_⟩) event hevent
      by_cases hi : i = index
      · simp [hi] at hg
      · simpa [hi] using hg.2
    · exact hother i hi g hne event hevent
  · intro event hevent
    rcases mem_append.mp hevent with hevent | hevent
    · exact hinv.named event hevent
    · obtain ⟨hpos, hlt⟩ := hinv.generation index hindex
      exact ⟨index, hroom, _, hpos, hlt, hevs event hevent⟩
  · have hsum := GenSlab.sum_put hindex (some record') PipeRecord.capacity
    have hold := hinv.reserved
    rw [Option.elim_some] at hsum
    show reserved = (table.slots.put index (some record')).sum PipeRecord.capacity
    omega

/-- The pipe in a slot changes. -/
theorem Inv.put (hvalue : table.slots.value index = some record)
    (hcapacity : record'.capacity = record.capacity)
    (hevs : ∀ event ∈ evs, event.token = tokenOf index (table.slots.generation index))
    (ht : Tracks (h ++ evs) (tokenOf index (table.slots.generation index)) record') :
    Inv { table with slots := table.slots.put index (some record') } (h ++ evs) := by
  refine hinv.place (lt_length_of_value hvalue) hevs ht ?_ hinv.limit
  rw [hvalue, Option.elim_some, hcapacity]

/-- What happens to a token that names nothing any more. -/
theorem Inv.idle (hevs : ∀ event ∈ evs, (∃ old ∈ h, old.token = event.token) ∧
      ∀ pair, table.endpointRecord event.token ≠ .ok pair) : Inv table (h ++ evs) := by
  refine ⟨hinv.capacity, hinv.length, hinv.generation, ?_, ?_, ?_, hinv.reserved, hinv.limit⟩
  · intro i r hr
    refine (hinv.live i r hr).other fun event hevent heq => ?_
    exact (hevs event hevent).2 (i, r) ((endpointRecord_eq_ok hinv).mpr ⟨heq, hr⟩)
  · intro i hi g hg event hevent
    rcases mem_append.mp hevent with hevent | hevent
    · exact hinv.unused i hi g hg event hevent
    · obtain ⟨old, hold, heq⟩ := (hevs event hevent).1
      rw [← heq]
      exact hinv.unused i hi g hg old hold
  · intro event hevent
    rcases mem_append.mp hevent with hevent | hevent
    · exact hinv.named event hevent
    · obtain ⟨old, hold, heq⟩ := (hevs event hevent).1
      rw [← heq]
      exact hinv.named old hold

/-- The pipe in a slot goes. -/
theorem Inv.vacate (hvalue : table.slots.value index = some record)
    (hgeneration : table.slots.generation index + 1 < 2 ^ 32) :
    record.capacity ≤ table.reservedBytes ∧
      Inv { table with
        slots := table.slots.vacate index
        reservedBytes := table.reservedBytes - record.capacity } h := by
  have hindex := lt_length_of_value hvalue
  have hsum := GenSlab.sum_vacate hindex PipeRecord.capacity
  rw [hvalue, Option.elim_some, ← hinv.reserved] at hsum
  have hlimit := hinv.limit
  refine ⟨by omega, hinv.capacity, ?_, ?_, ?_, ?_, hinv.named, ?_, ?_⟩
  · rw [GenSlab.length_vacate]
    exact hinv.length
  · intro i hi
    rw [GenSlab.length_vacate] at hi
    rw [generation_vacate hindex]
    split
    · exact ⟨Nat.le_add_left _ _, hgeneration⟩
    · exact hinv.generation i hi
  · intro i r hr
    rw [GenSlab.value_vacate hindex] at hr
    rw [generation_vacate hindex]
    split at hr
    · cases hr
    next hi =>
      rw [if_neg hi]
      exact hinv.live i r hr
  · intro i hi g hg
    rw [generation_vacate hindex, GenSlab.value_vacate hindex] at hg
    refine hinv.unused i hi g ?_
    by_cases hi : i = index
    · rw [if_pos hi] at hg
      rw [hi]
      omega
    · rwa [if_neg hi, if_neg hi] at hg
  · show table.reservedBytes - record.capacity = (table.slots.vacate index).sum _
    omega
  · show table.reservedBytes - record.capacity ≤ _
    omega

/-- Another slot. -/
theorem Inv.concat (hlength : table.slots.length ≠ table.capacity) :
    Inv { table with slots := table.slots ++ [{ generation := 1, value := none }] } h := by
  have hle := hinv.length
  refine ⟨hinv.capacity, ?_, ?_, ?_, ?_, hinv.named, ?_, hinv.limit⟩
  · rw [length_append]
    show table.slots.length + 1 ≤ table.capacity
    omega
  · intro i hi
    rw [length_append, List.length_singleton] at hi
    rw [generation_concat]
    split
    · exact ⟨Nat.le_refl 1, by decide⟩
    · exact hinv.generation i (by omega)
  · intro i r hr
    rw [value_concat rfl] at hr
    have hi := lt_length_of_value hr
    rw [generation_concat, if_neg (Nat.ne_of_lt hi)]
    exact hinv.live i r hr
  · intro i hi g hg
    rw [generation_concat, value_concat rfl] at hg
    refine hinv.unused i hi g ?_
    split at hg
    next heq =>
      -- the slot was not there, and had no generation
      have hzero : table.slots.generation i = 0 := by
        rw [heq, GenSlab.generation, List.getElem?_eq_none (le_rfl)]
        rfl
      dsimp only at hg
      omega
    · exact hg
  · rw [hinv.reserved]
    simp [sum]

/-- A new pipe. -/
theorem Inv.create (hindex : index < table.slots.length) (hvalue : table.slots.value index = none)
    (hbytes : record.bytes = []) (hreaders : record.attachedReaders = 0)
    (hwriters : record.attachedWriters = 0)
    (hlimit : table.reservedBytes + record.capacity ≤ maxPipeBytesPerOwner) :
    Inv { table with
        slots := table.slots.put index (some record)
        reservedBytes := table.reservedBytes + record.capacity }
      (h ++ [.created (tokenOf index (table.slots.generation index))]) := by
  have hlength := hinv.length
  have hunused := hinv.unused index (by omega) _ (.inr ⟨rfl, hvalue⟩)
  refine hinv.place hindex (fun event hevent => ?_)
    (tracks_created hunused hbytes hreaders hwriters) ?_ hlimit
  · rw [mem_singleton.mp hevent]
    rfl
  · rw [hvalue, Option.elim_none, Nat.add_zero]

end

/-! ## The operations -/

/-- Every way the operation ends keeps the invariant, with these events. -/
abbrev Upholds {α : Type} (operation : PipeAct α) (table : PipeTable) (h : List PipeEvent)
    (done : α → List PipeEvent) (failed : List PipeEvent) : Prop :=
  operation.wp (fun a t => Inv t (h ++ done a)) (fun _ t => Inv t (h ++ failed)) table

theorem Inv.same (hinv : Inv table h) : Inv table (h ++ []) := by
  rwa [append_nil]

theorem slot_of_value (hvalue : table.slots.value index = some record) :
    ∃ slot, table.slots[index]? = some slot ∧ slot.value = some record ∧
      slot.generation = table.slots.generation index := by
  obtain ⟨slot, hslot, hrecord⟩ := Option.bind_eq_some_iff.mp hvalue
  refine ⟨slot, hslot, hrecord, ?_⟩
  rw [GenSlab.generation, hslot]
  rfl

variable (hinv : Inv table h)
include hinv

/-- A pipe without ends gives its bytes back. -/
theorem upholds_removeIfClosed (hvalue : table.slots.value index = some record) :
    (removeIfClosed index).always (Inv · h) table := by
  obtain ⟨slot, hslot, hrecord, hgeneration⟩ := slot_of_value hvalue
  simp only [removeIfClosed, wp_rules, hslot, hrecord, Option.some.injEq, forall_eq',
    reduceCtorEq, false_implies, and_true, Act.wp_ite, ok_rules]
  refine ⟨fun _ => ⟨?_, fun _ => hinv⟩, fun _ => hinv⟩
  rintro _ ⟨hnext, -⟩
  rw [hgeneration] at hnext
  obtain ⟨hle, hvacated⟩ := hinv.vacate hvalue hnext
  refine ⟨?_, fun hnone => ?_⟩
  · rintro _ ⟨-, rfl⟩
    exact hvacated
  · simp [checkedSub, hle] at hnone

/-- The pipe in a slot changes, and goes if no end is left. -/
theorem Inv.put_removeIfClosed (hvalue : table.slots.value index = some record)
    (hcapacity : record'.capacity = record.capacity)
    (hevs : ∀ event ∈ evs, event.token = tokenOf index (table.slots.generation index))
    (ht : Tracks (h ++ evs) (tokenOf index (table.slots.generation index)) record') :
    (removeIfClosed index).always (Inv · (h ++ evs))
      { table with slots := table.slots.put index (some record') } := by
  have hnew : (table.slots.put index (some record')).value index = some record' :=
    (value_put (lt_length_of_value hvalue) _ _).trans (if_pos rfl)
  exact upholds_removeIfClosed (hinv.put hvalue hcapacity hevs ht) hnew

/-- A new end is one more that is out. -/
theorem upholds_attach
    (hroom : ∀ index record, table.ownerRecord owner token = .ok (index, record) →
      record.attached direction < 2 ^ 32 - 2) :
    Upholds (attach owner token direction) table h (fun endpoint => [.attached endpoint]) [] := by
  simp only [Upholds, attach, putRecord, wp_quiet, ok_rules, Bool.not_eq_false, hinv.same]
  rintro ⟨index, record⟩ hrecord hopen _ ⟨-, rfl⟩
  obtain ⟨rfl, hvalue⟩ := (endpointRecord_eq_ok hinv).mp (ownerRecord_eq_ok.mp hrecord).1
  refine hinv.put hvalue (by cases direction <;> rfl) (by simp [PipeEvent.token]) ?_
  exact (hinv.live index record hvalue).attach hopen (hroom index record hrecord)

theorem upholds_detach {endpoint : PipeEndpoint} (hout : 0 < outstanding h endpoint) :
    Upholds (detach endpoint) table h (fun _ => [.detached endpoint]) [.detached endpoint] := by
  simp only [Upholds, detach, putRecord, wp_rules, ok_rules]
  refine ⟨?_, fun e he => ?_⟩
  · rintro ⟨index, record⟩ hrecord
    obtain ⟨htoken, hvalue⟩ := (endpointRecord_eq_ok hinv).mp hrecord
    have htracks := hinv.live index record hvalue
    rw [← htoken] at htracks
    have hattached := htracks.attached endpoint.direction
    refine ⟨?_, fun hnone => ?_⟩
    · rintro _ ⟨-, rfl⟩
      exact hinv.put_removeIfClosed hvalue (by cases endpoint.direction <;> rfl)
        (by simp [PipeEvent.token, htoken]) (htoken ▸ htracks.detach)
    · have hpos : 1 ≤ record.attached endpoint.direction := by
        rw [hattached]
        exact hout
      simp [checkedSub, hpos] at hnone
  · refine hinv.idle fun event hevent => ?_
    rw [mem_singleton.mp hevent]
    refine ⟨exists_event_of_outstanding hout, fun pair hpair => ?_⟩
    cases he.symm.trans hpair

theorem upholds_closeOwner :
    Upholds (closeOwner owner token direction) table h (fun _ => []) [] := by
  simp only [Upholds, closeOwner, putRecord, wp_quiet, hinv.same]
  rintro ⟨index, record⟩ hrecord _
  obtain ⟨rfl, hvalue⟩ := (endpointRecord_eq_ok hinv).mp (ownerRecord_eq_ok.mp hrecord).1
  refine hinv.put_removeIfClosed hvalue (by cases direction <;> rfl) (by simp) ?_
  rw [append_nil]
  exact (hinv.live index record hvalue).closeOwner

theorem upholds_writeSlot {bytes : List UInt8}
    (hrecord : table.endpointRecord token = .ok (index, record))
    (hwriter : record.ownerWriterOpen = true ∨ 0 < outstanding h ⟨token, .writer⟩) :
    Upholds (writeSlot index record bytes) table h
      (fun count => [.wrote token (bytes.take count)]) [] := by
  obtain ⟨rfl, hvalue⟩ := (endpointRecord_eq_ok hinv).mp hrecord
  simp only [Upholds, writeSlot, putRecord, wp_quiet, hinv.same]
  intro record' hw
  obtain ⟨hcapacity, htracks⟩ := (hinv.live index record hvalue).write hwriter hw
  exact hinv.put hvalue hcapacity (by simp [PipeEvent.token]) htracks

theorem upholds_readSlot {size : ℕ} (hrecord : table.endpointRecord token = .ok (index, record)) :
    Upholds (readSlot index record size) table h (fun bytes => [readEvent token bytes]) [] := by
  obtain ⟨rfl, hvalue⟩ := (endpointRecord_eq_ok hinv).mp hrecord
  simp only [Upholds, readSlot, putRecord, wp_quiet, hinv.same]
  rintro ⟨bytes, record'⟩ hr
  obtain ⟨hcapacity, htracks⟩ := (hinv.live index record hvalue).read hr
  refine hinv.put hvalue hcapacity (fun event hevent => ?_) htracks
  rw [mem_singleton.mp hevent, readEvent]
  split <;> rfl

theorem upholds_vacantSlot {granted : Bool} :
    (vacantSlot granted).wp
      (fun index t => Inv t h ∧ index < t.slots.length ∧ t.slots.value index = none ∧
        t.reservedBytes = table.reservedBytes)
      (fun _ t => Inv t h) table := by
  simp only [vacantSlot, wp_rules]
  split
  next index hindex =>
    rw [List.findIdx?_eq_some_iff_getElem] at hindex
    obtain ⟨hlt, hfree, -⟩ := hindex
    refine ⟨hinv, hlt, ?_, rfl⟩
    simpa [value, hlt] using hfree
  · simp only [wp_quiet, hinv]
    intro hlength _
    refine ⟨hinv.concat hlength, ?_, ?_⟩
    · rw [length_append]
      exact Nat.lt_succ_self _
    · rw [value_concat rfl, value, List.getElem?_eq_none (le_rfl)]
      rfl

/-- A new pipe has a token that was never used. -/
theorem upholds_create {capacity : ℕ} {slotGranted bytesGranted : Bool} :
    Upholds (create owner capacity slotGranted bytesGranted) table h
      (fun token => [.created token]) [] := by
  simp only [Upholds, create, putRecord, wp_rules, ok_rules, not_or]
  refine ⟨fun _ => hinv.same, fun hlimit => ?_⟩
  refine Act.wp_mono (upholds_vacantSlot hinv) (fun index t ht => ?_) fun _ t ht => ht.same
  obtain ⟨hinv', hindex, hvalue, hreserved⟩ := ht
  have hfits : t.reservedBytes + capacity ≤ maxPipeBytesPerOwner := by
    rw [hreserved]
    exact Nat.not_lt.mp hlimit.2.2
  refine ⟨fun token htoken => ⟨fun _ => hinv'.same, fun _ => ⟨?_, fun hnone => ?_⟩⟩,
    fun _ _ => hinv'.same⟩
  · rintro _ ⟨-, rfl⟩
    obtain rfl := encodeToken_eq_ok htoken
    exact hinv'.create hindex hvalue rfl rfl rfl hfits
  · exfalso
    unfold checkedAdd at hnone
    split at hnone
    · cases hnone
    next hoverflow =>
      unfold maxPipeBytesPerOwner at hfits
      omega

end

end Troe.Process
