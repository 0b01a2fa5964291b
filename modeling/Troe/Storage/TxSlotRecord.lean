import Troe.Storage.TxSlot

/-!
# Records of the dual-slot store and their blocks

A record is one generation and its payload. Its data block parses back to it, and its commit block
names exactly the records with its generation and data checksum.
-/

namespace Troe.TxSlot

open Lib Block

/-- One generation and its payload. -/
structure Record where
  generation : ℕ
  payload : Bytes

/-- A record that `commit` accepts for blocks of `blockBytes` bytes. -/
structure Record.Fits (blockBytes : ℕ) (r : Record) : Prop where
  positive : r.generation ≠ 0
  generation_lt : r.generation < 2 ^ 64
  payload_le : r.payload.length + 32 ≤ blockBytes
  block_le : blockBytes ≤ maxLogicalBlockBytes

/-- The data block of a record. -/
def dataBlock (blockBytes : ℕ) (r : Record) : Bytes :=
  sealBlock (fillData (List.replicate blockBytes 0) r.generation r.payload)

/-- The checksum that ties a record's commit block to its data block. -/
def recordChecksum (blockBytes : ℕ) (r : Record) : ℕ :=
  crc32ZeroedChecksum (dataBlock blockBytes r)

/-- The commit block of a record. -/
def commitBlock (blockBytes : ℕ) (r : Record) : Bytes :=
  sealBlock (fillCommit (List.replicate blockBytes 0) r.generation (recordChecksum blockBytes r))

/-- A data block that holds a record or was never written. -/
def dataCell (blockBytes : ℕ) : Option Record → Bytes
  | none => List.replicate blockBytes 0
  | some r => dataBlock blockBytes r

/-- A commit block that holds a record or was never written. -/
def commitCell (blockBytes : ℕ) : Option Record → Bytes
  | none => List.replicate blockBytes 0
  | some r => commitBlock blockBytes r

section

variable {bb : ℕ} {r : Record}

/-- The body of a record's data block: reserved bytes, the payload, and padding. -/
def dataBody (blockBytes : ℕ) (r : Record) : Bytes :=
  List.replicate 8 0 ++ (r.payload ++ List.replicate (blockBytes - (32 + r.payload.length)) 0)

theorem Record.Fits.length_dataBody (h : r.Fits bb) : 24 + (dataBody bb r).length = bb := by
  have := h.payload_le
  simp only [dataBody, List.length_append, List.length_replicate]
  omega

theorem Record.Fits.block_lt (h : r.Fits bb) : bb < 2 ^ 64 :=
  lt_of_le_of_lt h.block_le (by decide)

theorem Record.Fits.payload_lt (h : r.Fits bb) : r.payload.length < 2 ^ 32 := by
  have hblock := h.block_le
  have hpayload := h.payload_le
  rw [maxLogicalBlockBytes] at hblock
  omega

theorem recordChecksum_lt (bb : ℕ) (r : Record) : recordChecksum bb r < 2 ^ 32 :=
  crc32ZeroedChecksum_lt _

section

variable (h : r.Fits bb)
include h

theorem dataBlock_layout :
    dataBlock bb r = layout dataMagic r.generation r.payload.length (recordChecksum bb r)
      (dataBody bb r) := by
  have hlength : 24 + (dataBody bb r).length < 2 ^ 64 := by
    rw [h.length_dataBody]
    exact h.block_lt
  obtain ⟨c, hseal, -, hc⟩ := sealBlock_layout dataMagic r.generation r.payload.length rfl hlength
  rw [dataBody, ← fillData_layout h.payload_le] at hseal
  rw [recordChecksum, dataBlock, hseal]
  exact congrArg (layout _ _ _ · _) hc

theorem length_dataBlock : (dataBlock bb r).length = bb := by
  rw [dataBlock_layout h, length_layout rfl, h.length_dataBody]

theorem readU32_dataBlock : readU32 (dataBlock bb r) 20 = .ok (recordChecksum bb r) := by
  obtain ⟨-, -, -, hchecksum, -⟩ := layout_reads rfl (dataBlock_layout h) h.generation_lt
    h.payload_lt (recordChecksum_lt bb r)
  exact hchecksum

/-- A commit block holds the generation and data checksum of its record, and its own checksum. -/
theorem commitBlock_layout : ∃ c, c < 2 ^ 32 ∧
    commitBlock bb r = layout commitMagic r.generation (recordChecksum bb r) c
      (List.replicate (bb - 24) 0) ∧ c = crc32ZeroedChecksum (commitBlock bb r) := by
  have hfit := h.payload_le
  have hlength : 24 + (List.replicate (bb - 24) (0 : UInt8)).length < 2 ^ 64 := by
    have := h.block_lt
    rw [List.length_replicate]
    omega
  obtain ⟨c, hseal, hlt, hc⟩ :=
    sealBlock_layout commitMagic r.generation (recordChecksum bb r) rfl hlength
  rw [← fillCommit_layout (by omega)] at hseal
  exact ⟨c, hlt, hseal, hc.trans (congrArg _ hseal.symm)⟩

theorem length_commitBlock : (commitBlock bb r).length = bb := by
  obtain ⟨c, -, hlayout, -⟩ := commitBlock_layout h
  have := h.payload_le
  rw [hlayout, length_layout rfl, List.length_replicate]
  omega

end

/-! ## Parsing -/

variable {m : Media ℕ Bytes}

variable {Q : Outcome PersistError (Option (ℕ × Bytes × ℕ)) → Media ℕ Bytes → Prop}

/-- A record's data block parses to the record. -/
theorem wp_parseData_dataBlock (h : r.Fits bb)
    (hdone : Q (.done (some (r.generation, r.payload, recordChecksum bb r))) m)
    (hfailed : Q (.failed .metadataExhausted) m) (hlost : ∀ m', m.Survives m' → Q .lost m') :
    (parseData (dataBlock bb r)).wp (deviceEnv bb true) Q m := by
  obtain ⟨hmagic, hgeneration, hlength, -, hbody⟩ := layout_reads rfl (dataBlock_layout h)
    h.generation_lt h.payload_lt (recordChecksum_lt bb r)
  have hfinish : checkedAdd 64 dataHeaderBytes r.payload.length
      = some (dataHeaderBytes + r.payload.length) := by
    have := h.payload_lt
    rw [checkedAdd_eq_some, dataHeaderBytes]
    omega
  have hpayload : (dataBlock bb r).drop dataHeaderBytes
      = r.payload ++ List.replicate (bb - (32 + r.payload.length)) 0 := by
    have : (dataBlock bb r).drop (24 + 8) = (dataBody bb r).drop 8 := by
      rw [← List.drop_drop, hbody]
    exact this
  have htail : (dataBlock bb r).drop (dataHeaderBytes + r.payload.length)
      = List.replicate (bb - (32 + r.payload.length)) 0 := by
    rw [← List.drop_drop, hpayload, List.drop_left]
  have hreserved : ((dataBlock bb r).drop 24).take (dataHeaderBytes - 24) = List.replicate 8 0 := by
    rw [hbody]
    exact List.take_left' List.length_replicate
  have hchecksum : crc32ZeroedChecksum (dataBlock bb r) = recordChecksum bb r := rfl
  have hpositive := h.positive
  have hfits := h.payload_le
  have hzero (n : ℕ) : ¬ ((List.replicate n (0 : UInt8)).any (· ≠ 0)) := by simp
  unfold parseData
  refine Prog.wp_ofExcept_bind (readU32_dataBlock h) ?_
  rw [if_neg (not_not.mpr hchecksum), hreserved]
  refine Prog.wp_ofExcept_bind hgeneration (Prog.wp_ofExcept_bind hlength ?_)
  refine Prog.wp_ofOption_bind hfinish ?_
  rw [htail, length_dataBlock h, if_neg]
  · refine Prog.wp_bind.mpr (wp_tryReserve ?_ (fun _ => Prog.andThen_failed hfailed)
      fun m' hm' => Prog.andThen_lost (hlost m' hm'))
    refine Prog.wp_ofExcept_bind (readU32_dataBlock h) ?_
    rw [hpayload, Nat.add_sub_cancel_left, List.take_left]
    exact Prog.wp_pure.mpr hdone
  · rintro (hzero' | hshort | hany)
    · exact hpositive hzero'
    · rw [dataHeaderBytes] at hshort
      omega
    · exact hzero _ hany

/-- Neither magic is found in a zeroed block. -/
theorem slice_zero_ne {magic : Bytes} (hmagic : (0x54 : UInt8) ∈ magic) :
    slice (List.replicate bb 0) 0 8 ≠ some magic := by
  intro h
  have hmem := subset_of_slice_eq_some h hmagic
  rw [List.mem_replicate] at hmem
  exact absurd hmem.2 (by decide)

/-- Zeroed data is no record. -/
theorem wp_parseData_zero (hdone : Q (.done none) m) :
    (parseData (List.replicate bb 0)).wp (deviceEnv bb true) Q m := by
  unfold parseData
  rw [if_pos (slice_zero_ne (by decide))]
  exact Prog.wp_pure.mpr hdone

/-- A commit block names exactly the records with its generation and data checksum. -/
theorem parseCommit_commitBlock (h : r.Fits bb) (generation dataChecksum : ℕ) :
    parseCommit (commitBlock bb r) generation dataChecksum
      = .ok (decide (r.generation = generation ∧ recordChecksum bb r = dataChecksum)) := by
  obtain ⟨c, hlt, hlayout, hc⟩ := commitBlock_layout h
  obtain ⟨hmagic, hgeneration, hword, hchecksum, hbody⟩ := layout_reads rfl hlayout
    h.generation_lt (recordChecksum_lt bb r) hlt
  unfold parseCommit
  simp only [hmagic, hgeneration, hword, hchecksum, hbody, ← hc, bind, Except.bind, ne_eq,
    not_true_eq_false, if_false]
  by_cases hg : r.generation = generation
  · by_cases hw : recordChecksum bb r = dataChecksum
    · simp [hg, hw, pure, Except.pure]
    · simp [hg, hw, pure, Except.pure]
  · simp [hg, pure, Except.pure]

/-- A zeroed commit block names no record. -/
theorem parseCommit_zero (bb generation dataChecksum : ℕ) :
    parseCommit (List.replicate bb 0) generation dataChecksum = .ok false := by
  unfold parseCommit
  rw [if_pos (slice_zero_ne (by decide))]
  rfl

end

end Troe.TxSlot
