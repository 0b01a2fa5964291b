import Mathlib.Algebra.Ring.Nat

/-!
# Slots whose keys carry a generation

A value is stored under the generation its slot has, and the generation moves on when the value
goes. When the generations of a slot are used up, the slot is retired. A key is a slot and a
generation; once its value is gone it is `Spent`, and it stays spent.
-/

namespace Troe.Lib

/-- A slot with the generation of its present or next value, and a buffer that outlives values. -/
structure KeySlot (α β : Type) where
  generation : ℕ
  retired : Bool
  record : Option α
  buffer : β

/-- The slots of a table. -/
abbrev KeySlab (α β : Type) : Type := List (KeySlot α β)

/-- A value is stored under the generation of the slot. -/
def KeySlot.store {α β : Type} (r : α) (slot : KeySlot α β) : KeySlot α β :=
  { slot with record := some r }

/-- The value of a slot goes, and its generation with it. -/
def KeySlot.vacate {α β : Type} (limit : ℕ) (slot : KeySlot α β) : KeySlot α β :=
  if slot.generation < limit then
    { slot with record := none, generation := slot.generation + 1 }
  else { slot with record := none, retired := true }

namespace KeySlab

variable {α β : Type} {slab : KeySlab α β} {slot : KeySlot α β} {i j g : ℕ} {r : α}

/-- The value in a slot. -/
def record (slab : KeySlab α β) (i : ℕ) : Option α := slab[i]?.bind KeySlot.record

/-- The generation of a slot. -/
def generation (slab : KeySlab α β) (i : ℕ) : ℕ := (slab[i]?.map KeySlot.generation).getD 0

/-- All values that meet a condition go. -/
def vacateAll (slab : KeySlab α β) (limit : ℕ) (p : α → Bool) : KeySlab α β :=
  slab.map fun slot => if slot.record.any p then slot.vacate limit else slot

/-- The first slot that can take a value. -/
def vacancy (slab : KeySlab α β) : Option ℕ :=
  slab.findIdx? fun slot => slot.record.isNone && !slot.retired

/-- A vacancy is empty and not retired. -/
theorem vacancy_eq_some (h : slab.vacancy = some i) :
    ∃ slot, slab[i]? = some slot ∧ slot.record = none ∧ slot.retired = false := by
  rw [vacancy, List.findIdx?_eq_some_iff_getElem] at h
  obtain ⟨hi, hfree, -⟩ := h
  rw [Bool.and_eq_true, Option.isNone_iff_eq_none, Bool.not_eq_true'] at hfree
  exact ⟨slab[i], List.getElem?_eq_getElem hi, hfree.1, hfree.2⟩

theorem record_eq_some (h : slab.record i = some r) :
    ∃ slot, slab[i]? = some slot ∧ slot.record = some r :=
  Option.bind_eq_some_iff.mp h

theorem record_of_slot (h : slab[i]? = some slot) : slab.record i = slot.record := by
  rw [record, h, Option.bind_some]

theorem slot_modify (f : KeySlot α β → KeySlot α β) (h : slab[i]? = some slot) (j : ℕ) :
    (slab.modify i f)[j]? = if j = i then some (f slot) else slab[j]? := by
  rw [List.getElem?_modify]
  by_cases hj : j = i
  · rw [hj, h]
    simp
  · rw [if_neg hj]
    simp [Ne.symm hj]

theorem record_modify (f : KeySlot α β → KeySlot α β) (h : slab[i]? = some slot) (j : ℕ) :
    KeySlab.record (slab.modify i f) j = if j = i then (f slot).record else slab.record j := by
  rw [record, slot_modify f h]
  split
  · rfl
  · rfl

theorem slot_append (slot : KeySlot α β) (j : ℕ) :
    (slab ++ [slot])[j]? = if j = slab.length then some slot else slab[j]? := by
  rcases Nat.lt_trichotomy j slab.length with hlt | heq | hgt
  · rw [List.getElem?_append_left hlt, if_neg (Nat.ne_of_lt hlt)]
  · rw [if_pos heq, heq, List.getElem?_append_right (le_rfl), Nat.sub_self]
    rfl
  · rw [if_neg (Nat.ne_of_gt hgt), List.getElem?_eq_none (Nat.le_of_lt hgt), List.getElem?_eq_none]
    rw [List.length_append]
    exact hgt

theorem record_append (h : slot.record = none) (j : ℕ) :
    KeySlab.record (slab ++ [slot]) j = slab.record j := by
  rw [record, slot_append]
  split
  next hj => rw [Option.bind_some, h, record, hj, List.getElem?_eq_none (le_rfl)]; rfl
  · rfl

/-! ## Spent keys -/

/-- The value under the key is gone. -/
def Spent (slab : KeySlab α β) (i g : ℕ) : Prop :=
  ∃ slot, slab[i]? = some slot ∧
    (g < slot.generation ∨ slot.generation = g ∧ slot.record = none ∧ slot.retired = true)

/-- A slot after a change: its generation does not go back, and a retired slot stays as it is. -/
def Later (old new : KeySlot α β) : Prop :=
  old.generation < new.generation ∨ new.generation = old.generation ∧
    (old.record = none → old.retired = true → new.record = none ∧ new.retired = true)

theorem Spent.modify {f : KeySlot α β → KeySlot α β} {k : ℕ} (h : Spent slab k g)
    (hslot : slab[i]? = some slot) (hlater : Later slot (f slot)) : Spent (slab.modify i f) k g := by
  obtain ⟨old, hold, hspent⟩ := h
  by_cases hk : k = i
  · rw [hk, hslot, Option.some.injEq] at hold
    subst hold
    refine ⟨f slot, by rw [slot_modify f hslot, if_pos hk], ?_⟩
    rcases hlater with hlt | ⟨heq, hkeep⟩
    · rcases hspent with hg | ⟨hg, -⟩
      · exact .inl (Nat.lt_trans hg hlt)
      · exact .inl (by omega)
    · rcases hspent with hg | ⟨hg, hnone, hretired⟩
      · exact .inl (by omega)
      · exact .inr ⟨heq.trans hg, hkeep hnone hretired⟩
  · exact ⟨old, by rw [slot_modify f hslot, if_neg hk, hold], hspent⟩

theorem Spent.append (h : Spent slab i g) (slot : KeySlot α β) : Spent (slab ++ [slot]) i g := by
  obtain ⟨old, hold, hspent⟩ := h
  refine ⟨old, ?_, hspent⟩
  obtain ⟨hi, -⟩ := List.getElem?_eq_some_iff.mp hold
  rw [slot_append, if_neg (Nat.ne_of_lt hi), hold]

/-- Giving up a record moves to the next generation, or retires the slot. -/
theorem later_vacate (limit : ℕ) (slot : KeySlot α β) : Later slot (slot.vacate limit) := by
  unfold KeySlot.vacate
  split
  · exact .inl (Nat.lt_succ_self _)
  · exact .inr ⟨rfl, fun _ _ => ⟨rfl, rfl⟩⟩

/-- A value that is stored has a key that is not spent. -/
theorem not_spent_of_record (hslot : slab[i]? = some slot) (hr : slot.record = some r) :
    ¬ Spent slab i slot.generation := by
  rintro ⟨s, hs, hspent⟩
  obtain rfl := Option.mem_unique hslot hs
  rcases hspent with hlt | ⟨-, hnone, -⟩
  · exact Nat.lt_irrefl _ hlt
  · cases hnone.symm.trans hr

theorem not_spent_of_free (hslot : slab[i]? = some slot) (hretired : slot.retired = false) :
    ¬ Spent slab i slot.generation := by
  rintro ⟨s, hs, hspent⟩
  obtain rfl := Option.mem_unique hslot hs
  rcases hspent with hlt | ⟨-, -, h⟩
  · exact Nat.lt_irrefl _ hlt
  · cases hretired.symm.trans h

/-- The generation of a record that is given up is spent. -/
theorem spent_vacate (limit : ℕ) (hslot : slab[i]? = some slot) :
    Spent (slab.modify i (KeySlot.vacate limit)) i slot.generation := by
  refine ⟨slot.vacate limit, by rw [slot_modify _ hslot, if_pos rfl], ?_⟩
  unfold KeySlot.vacate
  split
  · exact .inl (Nat.lt_succ_self _)
  · exact .inr ⟨rfl, rfl, rfl⟩

@[simp] theorem record_vacate (limit : ℕ) (slot : KeySlot α β) : (slot.vacate limit).record = none := by
  unfold KeySlot.vacate
  split <;> rfl

@[simp] theorem buffer_vacate (limit : ℕ) (slot : KeySlot α β) :
    (slot.vacate limit).buffer = slot.buffer := by
  unfold KeySlot.vacate
  split <;> rfl

/-! ## Issuing and revoking keys -/

/-- The value is stored under the key. -/
def Holds (slab : KeySlab α β) (i g : ℕ) (r : α) : Prop :=
  ∃ slot, slab[i]? = some slot ∧ slot.generation = g ∧ slot.record = some r

/-- The key has had a value. -/
def Used (slab : KeySlab α β) (i g : ℕ) : Prop := Spent slab i g ∨ ∃ r, Holds slab i g r

theorem Holds.used (h : Holds slab i g r) : Used slab i g := .inr ⟨r, h⟩

theorem Holds.unique {r' : α} (h : Holds slab i g r) (h' : Holds slab i g r') : r = r' := by
  obtain ⟨slot, hslot, -, hr⟩ := h
  obtain ⟨slot', hslot', -, hr'⟩ := h'
  obtain rfl := Option.mem_unique hslot hslot'
  exact Option.mem_unique hr hr'

theorem holds_nil : ¬ Holds ([] : KeySlab α β) i g r := by
  rintro ⟨slot, hslot, -⟩
  cases hslot

/-- From one table to the next, a new key has received a value and no other key has changed. -/
structure Issues (slab slab' : KeySlab α β) (i g : ℕ) (r : α) : Prop where
  fresh : ¬ Used slab i g
  holds : ∀ j k s, Holds slab' j k s ↔ (j = i ∧ k = g ∧ s = r) ∨ Holds slab j k s
  used : ∀ j k, Used slab j k → Used slab' j k

/-- From one table to the next, exactly the keys with `P` have lost their values. -/
structure Revokes (slab slab' : KeySlab α β) (P : ℕ → ℕ → α → Prop) : Prop where
  holds : ∀ j k s, Holds slab' j k s ↔ Holds slab j k s ∧ ¬ P j k s
  used : ∀ j k, Used slab j k → Used slab' j k

/-- From one table to the next, one value has changed. -/
structure Replaces (slab slab' : KeySlab α β) (i g : ℕ) (r : α) : Prop where
  holds : ∀ j k s, Holds slab' j k s ↔ if j = i ∧ k = g then s = r else Holds slab j k s
  used : ∀ j k, Used slab j k → Used slab' j k

/-- A record in a vacancy has a generation of its own. -/
theorem issues_store {v : α} (hvacancy : slab.vacancy = some i) :
    Issues slab (slab.modify i (KeySlot.store v)) i (slab.generation i) v := by
  obtain ⟨slot, hslot, hnone, hretired⟩ := vacancy_eq_some hvacancy
  have hgeneration : slab.generation i = slot.generation := by simp [generation, hslot]
  have hempty : ∀ g r, ¬ Holds slab i g r := by
    rintro g r ⟨s, hs, -, hr⟩
    obtain rfl := Option.mem_unique hslot hs
    cases hnone.symm.trans hr
  have hholds : ∀ j k s, Holds (slab.modify i (KeySlot.store v)) j k s ↔
      (j = i ∧ k = slot.generation ∧ s = v) ∨ Holds slab j k s := by
    intro j k s
    by_cases hj : j = i
    · subst hj
      rw [or_iff_left (hempty k s)]
      simp only [Holds, slot_modify _ hslot, if_true, Option.some.injEq, exists_eq_left', true_and,
        KeySlot.store]
      exact and_congr eq_comm eq_comm
    · simp [Holds, slot_modify _ hslot, hj]
  have hlater : Later slot (slot.store v) :=
    .inr ⟨rfl, fun _ h => absurd (hretired.symm.trans h) (by simp)⟩
  refine ⟨?_, by rwa [hgeneration], ?_⟩
  · rw [hgeneration]
    rintro (hspent | ⟨r, hr⟩)
    · exact not_spent_of_free hslot hretired hspent
    · exact hempty _ r hr
  · rintro j k (hspent | ⟨r, hr⟩)
    · exact .inl (hspent.modify hslot hlater)
    · exact .inr ⟨r, (hholds j k r).mpr (.inr hr)⟩

theorem issues_append (slab : KeySlab α β) (hslot : slot.record = some r) :
    Issues slab (slab ++ [slot]) slab.length slot.generation r := by
  have hnone : ∀ g, ¬ Used slab slab.length g := by
    rintro g (⟨s, hs, -⟩ | ⟨r, s, hs, -⟩)
    all_goals
      rw [List.getElem?_eq_none (le_rfl)] at hs
      cases hs
  have hholds : ∀ j k s, Holds (slab ++ [slot]) j k s ↔
      (j = slab.length ∧ k = slot.generation ∧ s = r) ∨ Holds slab j k s := by
    intro j k s
    by_cases hj : j = slab.length
    · subst hj
      rw [or_iff_left fun h => hnone k h.used]
      simp only [Holds, slot_append, if_true, Option.some.injEq, exists_eq_left', true_and, hslot]
      exact and_congr eq_comm eq_comm
    · simp [Holds, slot_append, hj]
  refine ⟨hnone _, hholds, ?_⟩
  rintro j k (hspent | ⟨s, hs⟩)
  · exact .inl (hspent.append slot)
  · exact .inr ⟨s, (hholds j k s).mpr (.inr hs)⟩

/-- The value of one key goes. -/
theorem revokes_vacate (limit : ℕ) (hholds : Holds slab i g r) :
    Revokes slab (slab.modify i (KeySlot.vacate limit)) fun j k _ => j = i ∧ k = g := by
  obtain ⟨slot, hslot, rfl, hr⟩ := hholds
  have hiff : ∀ j k s, Holds (slab.modify i (KeySlot.vacate limit)) j k s ↔
      Holds slab j k s ∧ ¬ (j = i ∧ k = slot.generation) := by
    intro j k s
    by_cases hj : j = i
    · subst hj
      simp only [Holds, slot_modify _ hslot, hslot, if_true, Option.some.injEq, exists_eq_left',
        record_vacate]
      grind
    · simp [Holds, slot_modify _ hslot, hj]
  refine ⟨hiff, ?_⟩
  rintro j k (hspent | ⟨s, hs⟩)
  · exact .inl (hspent.modify hslot (later_vacate limit slot))
  · by_cases hkey : j = i ∧ k = slot.generation
    · obtain ⟨rfl, rfl⟩ := hkey
      exact .inl (spent_vacate limit hslot)
    · exact .inr ⟨s, (hiff j k s).mpr ⟨hs, hkey⟩⟩

/-- The values with `p` go. -/
theorem revokes_vacateAll (slab : KeySlab α β) (limit : ℕ) (p : α → Bool) :
    Revokes slab (slab.vacateAll limit p) fun _ _ s => p s = true := by
  have hslot : ∀ j, (slab.vacateAll limit p)[j]? =
      slab[j]?.map fun slot : KeySlot α β => if slot.record.any p then slot.vacate limit else slot :=
    fun j => List.getElem?_map
  have hiff : ∀ j k s, Holds (slab.vacateAll limit p) j k s ↔ Holds slab j k s ∧ ¬ p s = true := by
    intro j k s
    simp only [Holds, hslot]
    cases slab[j]? with
    | none => simp
    | some slot =>
      simp only [Option.map_some, Option.some.injEq, exists_eq_left']
      cases hr : slot.record with
      | none => simp [hr]
      | some r =>
        by_cases hp : p r
        · simp only [Option.any_some, hp, if_true, record_vacate]
          grind
        · simp only [Option.any_some, hp]
          grind
  refine ⟨hiff, ?_⟩
  rintro j k (⟨slot, hj, hspent⟩ | ⟨s, hs⟩)
  · refine .inl ⟨_, by rw [hslot, hj, Option.map_some], ?_⟩
    split
    · rcases later_vacate limit slot with hlt | ⟨heq, hkeep⟩
      · exact .inl (by rcases hspent with h | ⟨h, -⟩ <;> omega)
      · rcases hspent with h | ⟨h, hnone, hretired⟩
        · exact .inl (by omega)
        · exact .inr ⟨heq.trans h, hkeep hnone hretired⟩
    · exact hspent
  · by_cases hp : p s = true
    · obtain ⟨slot, hj, rfl, hr⟩ := hs
      refine .inl ⟨slot.vacate limit, ?_, ?_⟩
      · rw [hslot, hj, Option.map_some, hr, Option.any_some, if_pos hp]
      · unfold KeySlot.vacate
        split
        · exact .inl (Nat.lt_succ_self _)
        · exact .inr ⟨rfl, rfl, rfl⟩
    · exact .inr ⟨s, (hiff j k s).mpr ⟨hs, hp⟩⟩

/-- A value is changed in place. -/
theorem replaces_store {v : α} (hholds : Holds slab i g r) :
    Replaces slab (slab.modify i (KeySlot.store v)) i g v := by
  obtain ⟨slot, hslot, rfl, hr⟩ := hholds
  have hiff : ∀ j k s, Holds (slab.modify i (KeySlot.store v)) j k s ↔
      if j = i ∧ k = slot.generation then s = v else Holds slab j k s := by
    intro j k s
    by_cases hj : j = i
    · subst hj
      simp only [Holds, slot_modify _ hslot, hslot, if_true, Option.some.injEq, exists_eq_left',
        KeySlot.store]
      grind
    · simp [Holds, slot_modify _ hslot, hj]
  refine ⟨hiff, ?_⟩
  rintro j k (hspent | ⟨s, hs⟩)
  · refine .inl (hspent.modify hslot (.inr ⟨rfl, fun hnone _ => ?_⟩))
    cases hnone.symm.trans hr
  · by_cases hkey : j = i ∧ k = slot.generation
    · exact .inr ⟨v, (hiff j k v).mpr (by rw [if_pos hkey])⟩
    · exact .inr ⟨s, (hiff j k s).mpr (by rwa [if_neg hkey])⟩

/-! ## Sums -/

/-- Sum of `f` over the stored values. -/
def sum (slab : KeySlab α β) (f : α → ℕ) : ℕ := (slab.map fun slot => slot.record.elim 0 f).sum

theorem sum_append (slot : KeySlot α β) (f : α → ℕ) :
    KeySlab.sum (slab ++ [slot]) f = slab.sum f + slot.record.elim 0 f := by
  simp [sum]

theorem sum_modify {h : KeySlot α β → KeySlot α β} (hslot : slab[i]? = some slot) (f : α → ℕ) :
    KeySlab.sum (slab.modify i h) f + slot.record.elim 0 f
      = slab.sum f + (h slot).record.elim 0 f := by
  induction slab generalizing i with
  | nil => cases hslot
  | cons s slab ih =>
    unfold sum at ih ⊢
    cases i with
    | zero =>
      cases hslot
      simp only [List.modify_zero_cons, List.map_cons, List.sum_cons]
      omega
    | succ i =>
      have := ih hslot
      simp only [List.modify_succ_cons, List.map_cons, List.sum_cons]
      omega

/-! ## All values -/

theorem sum_eq (slab : KeySlab α β) (f : α → ℕ) :
    slab.sum f = ((slab.filterMap KeySlot.record).map f).sum := by
  unfold sum
  induction slab with
  | nil => rfl
  | cons slot slab ih =>
    rw [List.map_cons, List.sum_cons, ih, List.filterMap_cons]
    cases slot.record with
    | none => exact Nat.zero_add _
    | some r => rfl

/-- Values in different slots are related. -/
theorem pairwise_records {R : α → α → Prop}
    (h : ∀ i j r r', i < j → slab.record i = some r → slab.record j = some r' → R r r') :
    (slab.filterMap KeySlot.record).Pairwise R := by
  induction slab with
  | nil => exact .nil
  | cons slot slab ih =>
    have htail := ih fun i j r r' hij hr hr' =>
      h (i + 1) (j + 1) r r' (Nat.succ_lt_succ hij) hr hr'
    rw [List.filterMap_cons]
    cases hslot : slot.record with
    | none => exact htail
    | some r =>
      refine List.Pairwise.cons (fun r' hr' => ?_) htail
      obtain ⟨s, hs, hrecord⟩ := List.mem_filterMap.mp hr'
      obtain ⟨j, hj⟩ := List.mem_iff_getElem?.mp hs
      refine h 0 (j + 1) r r' (Nat.succ_pos j) hslot ?_
      exact (record_of_slot hj).trans hrecord

end KeySlab

end Troe.Lib
