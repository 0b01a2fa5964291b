import Mathlib.Algebra.Ring.Nat
import Mathlib.Data.List.Basic

/-!
# Slabs

Fixed arrays of slots. A slot of a generational slab counts the values it has held, so that an
index together with a generation names one value only.
-/

namespace Troe.Lib

variable {α : Type}

/-! ## Optional slots -/

/-- The value in a slot. -/
def slotAt (slots : List (Option α)) (i : ℕ) : Option α := slots[i]?.getD none

variable {slots : List (Option α)}

theorem slotAt_set {i : ℕ} (hi : i < slots.length) (v : Option α) (j : ℕ) :
    slotAt (slots.set i v) j = if j = i then v else slotAt slots j := by
  unfold slotAt
  by_cases hj : j = i
  · subst hj
    simp [hi]
  · rw [List.getElem?_set_ne (Ne.symm hj), if_neg hj]

theorem slotAt_map (slots : List (Option α)) (f : Option α → Option α) (hf : f none = none)
    (i : ℕ) : slotAt (slots.map f) i = f (slotAt slots i) := by
  unfold slotAt
  rw [List.getElem?_map]
  cases slots[i]? <;> simp [hf]

theorem slotAt_replicate (n i : ℕ) : slotAt (List.replicate n (none : Option α)) i = none := by
  unfold slotAt
  rw [List.getElem?_replicate]
  split <;> rfl

theorem lt_length_of_slotAt {i : ℕ} {v : α} (h : slotAt slots i = some v) : i < slots.length := by
  by_contra hle
  rw [slotAt, List.getElem?_eq_none (Nat.le_of_not_lt hle)] at h
  cases h

/-! ## Generational slots -/

/-- A slot and the number of values it has held. -/
structure GenSlot (α : Type) where
  generation : ℕ
  value : Option α
deriving DecidableEq

/-- A slab of generational slots. -/
abbrev GenSlab (α : Type) : Type := List (GenSlot α)

namespace GenSlab

/-- An empty slab. -/
def empty (n : ℕ) : GenSlab α := List.replicate n { generation := 0, value := none }

/-- The value in a slot. -/
def value (slab : GenSlab α) (i : ℕ) : Option α := slab[i]?.bind GenSlot.value

/-- The generation of a slot. -/
def generation (slab : GenSlab α) (i : ℕ) : ℕ := (slab[i]?.map GenSlot.generation).getD 0

/-- Write a slot within its generation. -/
def put (slab : GenSlab α) (i : ℕ) (v : Option α) : GenSlab α :=
  slab.modify i fun slot => { slot with value := v }

/-- The first empty slot with a generation left. -/
def firstFree (slab : GenSlab α) (limit : ℕ) : Option ℕ :=
  slab.findIdx? fun slot => slot.value.isNone && slot.generation < limit

/-- Store a value of the slot's next generation. -/
def occupy (slab : GenSlab α) (i : ℕ) (v : α) : GenSlab α :=
  slab.modify i fun slot => { generation := slot.generation + 1, value := some v }

variable {slab : GenSlab α} {i : ℕ} {v : α}

theorem lt_length_of_value (h : slab.value i = some v) : i < slab.length := by
  by_contra hle
  rw [value, List.getElem?_eq_none (Nat.le_of_not_lt hle)] at h
  cases h

variable {f : GenSlot α → GenSlot α}

theorem value_modify {w : Option α} (hf : ∀ slot, (f slot).value = w) (hi : i < slab.length) (j : ℕ) :
    value (slab.modify i f) j = if j = i then w else slab.value j := by
  unfold value
  by_cases hj : j = i
  · subst hj
    simp [hi, hf]
  · simp [hj, Ne.symm hj]

theorem generation_modify (hf : ∀ slot, (f slot).generation = slot.generation + 1)
    (hi : i < slab.length) (j : ℕ) :
    generation (slab.modify i f) j
      = if j = i then slab.generation i + 1 else slab.generation j := by
  unfold generation
  by_cases hj : j = i
  · subst hj
    simp [hi, hf]
  · simp [hj, Ne.symm hj]

theorem value_put (hi : i < slab.length) (w : Option α) (j : ℕ) :
    (slab.put i w).value j = if j = i then w else slab.value j :=
  value_modify (w := w) (fun _ => rfl) hi j

theorem generation_put (w : Option α) (j : ℕ) :
    (slab.put i w).generation j = slab.generation j := by
  unfold generation put
  rw [List.getElem?_modify]
  cases slab[j]? with
  | none => rfl
  | some slot => by_cases hj : i = j <;> simp [hj]

/-- The slot that is chosen is empty. -/
theorem firstFree_eq_some {limit : ℕ} (h : slab.firstFree limit = some i) :
    i < slab.length ∧ slab.value i = none := by
  rw [firstFree, List.findIdx?_eq_some_iff_getElem] at h
  obtain ⟨hi, hfree, -⟩ := h
  simp only [Bool.and_eq_true, Option.isNone_iff_eq_none, decide_eq_true_eq] at hfree
  simp [value, hi, hfree]

theorem value_occupy (hi : i < slab.length) (v : α) (j : ℕ) :
    (slab.occupy i v).value j = if j = i then some v else slab.value j :=
  value_modify (w := some v) (fun _ => rfl) hi j

theorem generation_occupy (hi : i < slab.length) (v : α) (j : ℕ) :
    (slab.occupy i v).generation j = if j = i then slab.generation i + 1 else slab.generation j :=
  generation_modify (fun _ => rfl) hi j

/-- A generation that does not go back in its own slot goes back nowhere. -/
theorem generation_le_modify {f : GenSlot α → GenSlot α}
    (hf : ∀ slot, slot.generation ≤ (f slot).generation) (j : ℕ) :
    slab.generation j ≤ generation (slab.modify i f) j := by
  unfold generation
  rw [List.getElem?_modify]
  cases slab[j]? with
  | none => exact le_rfl
  | some slot => by_cases hj : i = j <;> simp [hj, hf]

@[simp] theorem length_put (w : Option α) : (slab.put i w).length = slab.length :=
  List.length_modify ..

@[simp] theorem length_occupy : (slab.occupy i v).length = slab.length :=
  List.length_modify ..

/-- Empty a slot for the next generation. -/
def vacate (slab : GenSlab α) (i : ℕ) : GenSlab α :=
  slab.modify i fun slot => { generation := slot.generation + 1, value := none }

@[simp] theorem length_vacate : (slab.vacate i).length = slab.length := List.length_modify ..

theorem value_vacate (hi : i < slab.length) (j : ℕ) :
    (slab.vacate i).value j = if j = i then none else slab.value j :=
  value_modify (w := none) (fun _ => rfl) hi j

theorem generation_vacate (hi : i < slab.length) (j : ℕ) :
    (slab.vacate i).generation j = if j = i then slab.generation i + 1 else slab.generation j :=
  generation_modify (fun _ => rfl) hi j

/-- Another slot. -/
theorem value_concat {slot : GenSlot α} (h : slot.value = none) (j : ℕ) :
    value (slab ++ [slot]) j = slab.value j := by
  unfold value
  rcases Nat.lt_trichotomy j slab.length with hlt | rfl | hgt
  · rw [List.getElem?_append_left hlt]
  · simp [h]
  · rw [List.getElem?_eq_none (Nat.le_of_lt hgt), List.getElem?_eq_none]
    rw [List.length_append]
    exact hgt

theorem generation_concat (slot : GenSlot α) (j : ℕ) :
    generation (slab ++ [slot]) j
      = if j = slab.length then slot.generation else slab.generation j := by
  unfold generation
  rcases Nat.lt_trichotomy j slab.length with hlt | rfl | hgt
  · rw [List.getElem?_append_left hlt, if_neg (Nat.ne_of_lt hlt)]
  · simp
  · rw [List.getElem?_eq_none (Nat.le_of_lt hgt), List.getElem?_eq_none, if_neg (Nat.ne_of_gt hgt)]
    rw [List.length_append]
    exact hgt

/-- The sum of a weight over the values. -/
def sum (slab : GenSlab α) (f : α → ℕ) : ℕ := (slab.map fun slot => slot.value.elim 0 f).sum

theorem sum_le {slab' : GenSlab α} {f f' : α → ℕ} (hlength : slab'.length = slab.length)
    (h : ∀ i, (slab'.value i).elim 0 f' ≤ (slab.value i).elim 0 f) :
    slab'.sum f' ≤ slab.sum f := by
  induction slab generalizing slab' with
  | nil =>
    rw [List.length_nil, List.length_eq_zero_iff] at hlength
    rw [hlength]
    exact Nat.zero_le _
  | cons slot slab ih =>
    obtain _ | ⟨slot', slab'⟩ := slab'
    · cases hlength
    have hrest : sum slab' f' ≤ sum slab f := ih (by simpa using hlength) fun i => h (i + 1)
    have hhead : slot'.value.elim 0 f' ≤ slot.value.elim 0 f := h 0
    simp only [sum, List.map_cons, List.sum_cons] at hrest ⊢
    omega

/-- The sum over the values that satisfy a predicate. -/
theorem sum_filter (slab : GenSlab α) (p : α → Bool) (f : α → ℕ) :
    (((slab.filterMap GenSlot.value).filter p).map f).sum
      = slab.sum fun v => if p v then f v else 0 := by
  induction slab with
  | nil => rfl
  | cons slot slab ih =>
    unfold sum at ih ⊢
    rw [List.map_cons, List.sum_cons, ← ih]
    cases hvalue : slot.value with
    | none => simp [hvalue]
    | some v =>
      rw [List.filterMap_cons, hvalue]
      by_cases hp : p v = true
      · simp [hp]
      · simp [hp]

/-- Writing one slot changes the sum by what was there and what is there now. -/
theorem sum_modify {w : Option α} (hf : ∀ slot, (f slot).value = w) (hi : i < slab.length)
    (g : α → ℕ) :
    sum (slab.modify i f) g + (slab.value i).elim 0 g = slab.sum g + w.elim 0 g := by
  induction slab generalizing i with
  | nil => cases hi
  | cons slot slab ih =>
    cases i with
    | zero =>
      have hvalue : value (slot :: slab) 0 = slot.value := rfl
      rw [List.modify_zero_cons, hvalue]
      simp only [sum, List.map_cons, List.sum_cons, hf]
      omega
    | succ i =>
      have hvalue : value (slot :: slab) (i + 1) = value slab i := rfl
      have hrest := ih (i := i) (by simpa using hi)
      simp only [sum] at hrest
      rw [List.modify_succ_cons, hvalue]
      simp only [sum, List.map_cons, List.sum_cons]
      omega

/-- What a slot counts is exchanged. -/
theorem sum_put (hi : i < slab.length) (w : Option α) (f : α → ℕ) :
    (slab.put i w).sum f + (slab.value i).elim 0 f = slab.sum f + w.elim 0 f :=
  sum_modify (w := w) (fun _ => rfl) hi f

theorem sum_vacate (hi : i < slab.length) (f : α → ℕ) :
    (slab.vacate i).sum f + (slab.value i).elim 0 f = slab.sum f :=
  sum_modify (w := none) (fun _ => rfl) hi f

/-- A new value adds its weight. -/
theorem sum_occupy (hi : i < slab.length) (hfree : slab.value i = none) (v : α) (f : α → ℕ) :
    (slab.occupy i v).sum f = slab.sum f + f v := by
  have h : (slab.occupy i v).sum f + (slab.value i).elim 0 f = slab.sum f + f v :=
    sum_modify (w := some v) (fun _ => rfl) hi f
  rw [hfree] at h
  exact h

theorem sum_eq_zero {f : α → ℕ} (h : ∀ i v, slab.value i = some v → f v = 0) : slab.sum f = 0 := by
  unfold sum
  rw [List.sum_eq_zero_iff_forall_eq_nat]
  intro n hn
  obtain ⟨slot, hslot, rfl⟩ := List.mem_map.mp hn
  obtain ⟨i, hi⟩ := List.mem_iff_getElem?.mp hslot
  cases hv : slot.value with
  | none => rfl
  | some v => exact h i v (by rw [value, hi, Option.bind_some, hv])

/-- How many values satisfy a predicate. -/
def count (slab : GenSlab α) (p : α → Bool) : ℕ := slab.countP fun slot => slot.value.any p

theorem elim_ite (p : α → Bool) (w : Option α) :
    (w.elim 0 fun v => if p v then 1 else 0) = if w.any p then 1 else 0 := by
  cases w <;> rfl

theorem count_eq_sum (slab : GenSlab α) (p : α → Bool) :
    slab.count p = slab.sum fun v => if p v then 1 else 0 := by
  induction slab with
  | nil => rfl
  | cons slot slab ih =>
    simp only [count, sum, List.countP_cons, List.map_cons, List.sum_cons, elim_ite] at ih ⊢
    rw [ih, Nat.add_comm]

theorem count_congr {slab' : GenSlab α} {p : α → Bool} (hlength : slab'.length = slab.length)
    (h : ∀ i, (slab'.value i).any p = (slab.value i).any p) : slab'.count p = slab.count p := by
  rw [count_eq_sum, count_eq_sum]
  refine Nat.le_antisymm (sum_le hlength fun i => ?_) (sum_le hlength.symm fun i => ?_)
  · rw [elim_ite, elim_ite, h]
  · rw [elim_ite, elim_ite, h]

/-- Writing one slot changes the count by what was there and what is there now. -/
theorem count_put (hi : i < slab.length) (w : Option α) (p : α → Bool) :
    (slab.put i w).count p + (if (slab.value i).any p then 1 else 0)
      = slab.count p + if w.any p then 1 else 0 := by
  rw [count_eq_sum, count_eq_sum, ← elim_ite, ← elim_ite]
  exact sum_put hi w _

/-- A positive count has a member. -/
theorem count_pos {p : α → Bool} (h : 0 < slab.count p) :
    ∃ i v, slab.value i = some v ∧ p v = true := by
  rw [count, List.countP_pos_iff] at h
  obtain ⟨slot, hmem, hany⟩ := h
  obtain ⟨i, hi, rfl⟩ := List.mem_iff_getElem.mp hmem
  obtain ⟨v, hv, hp⟩ := (Option.any_eq_true _ _).mp hany
  exact ⟨i, v, by simp [value, hi, hv], hp⟩

theorem value_empty (n i : ℕ) : (empty n : GenSlab α).value i = none := by
  unfold value empty
  rw [List.getElem?_replicate]
  split <;> rfl

theorem generation_empty (n i : ℕ) : (empty n : GenSlab α).generation i = 0 := by
  unfold generation empty
  rw [List.getElem?_replicate]
  split <;> rfl

theorem count_empty (n : ℕ) (p : α → Bool) : (empty n : GenSlab α).count p = 0 := by
  rw [count, List.countP_eq_zero]
  intro slot hslot
  rw [List.eq_of_mem_replicate hslot]
  simp

end GenSlab

/-! ## Lookups in a partial map -/

variable {β : Type} [DecidableEq α] {f : α → Option β} {a b : α} {x y : β}

/-- What a lookup finds after an entry was written: that entry, or what was there before. -/
theorem update_eq_some :
    Function.update f a (some x) b = some y ↔ (b = a ∧ y = x) ∨ (b ≠ a ∧ f b = some y) := by
  by_cases h : b = a
  · simp [h, eq_comm]
  · simp [h]

/-- What the new entry and the old ones satisfy, all entries do. -/
theorem forall_update {P : α → β → Prop} (hnew : P a x) (hold : ∀ b y, f b = some y → P b y) (b : α)
    (y : β) (h : Function.update f a (some x) b = some y) : P b y := by
  rcases update_eq_some.mp h with ⟨rfl, rfl⟩ | ⟨-, h⟩
  · exact hnew
  · exact hold b y h

/-- An entry that was there is still there. -/
theorem exists_update (h : f b = some y) (a : α) (x : β) :
    ∃ z, Function.update f a (some x) b = some z := by
  by_cases heq : b = a
  · exact ⟨x, update_eq_some.mpr (.inl ⟨heq, rfl⟩)⟩
  · exact ⟨y, update_eq_some.mpr (.inr ⟨heq, h⟩)⟩

end Troe.Lib
