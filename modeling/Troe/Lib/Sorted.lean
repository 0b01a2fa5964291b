import Mathlib.Data.List.Sort

/-!
# Sorted lists

The branchless search of `slice::binary_search_by`, and what sorting a sorted list again does after
one more element was appended.
-/

namespace Troe.Lib

/-! ## Binary search -/

variable {α : Type}

/-- Halve the window of `size` elements from `base` on until one is left. -/
def narrow (xs : List α) (f : α → Ordering) (base size : ℕ) : ℕ :=
  if 1 < size then
    if (xs[base + size / 2]?).map f = some .gt then narrow xs f base (size - size / 2)
    else narrow xs f (base + size / 2) (size - size / 2)
  else base
termination_by size

/-- `binary_search_by`, where `f` compares an element with what is searched. -/
def binarySearchBy (xs : List α) (f : α → Ordering) : Option (Fin xs.length) :=
  let base := narrow xs f 0 xs.length
  if h : base < xs.length then
    if f (xs.get ⟨base, h⟩) = .eq then some ⟨base, h⟩ else none
  else none

/-- The elements below what is searched come first, and at most one equals it. -/
def Ascending (xs : List α) (f : α → Ordering) : Prop :=
  xs.Pairwise fun x y => f y ≠ .gt → f x = .lt

variable {xs : List α} {f : α → Ordering}

/-- An element equal to what is searched stays in the window. -/
theorem narrow_eq (hsorted : Ascending xs f) {i : ℕ} (hi : i < xs.length) (hx : f xs[i] = .eq)
    {base size : ℕ} (hwindow : base + size ≤ xs.length) (hlow : base ≤ i)
    (hhigh : i < base + size) : narrow xs f base size = i := by
  have hrel := List.pairwise_iff_getElem.mp hsorted
  fun_induction narrow xs f base size with
  | case1 base size hsize hgt ih =>
    -- The middle is above what is searched, so the element is below the middle.
    have hmid : base + size / 2 < xs.length := by omega
    rw [List.getElem?_eq_getElem hmid, Option.map_some, Option.some_inj] at hgt
    refine ih (by omega) hlow (Nat.lt_of_not_le fun hle => ?_)
    obtain hlt | heq : base + size / 2 < i ∨ base + size / 2 = i := by omega
    · have hless := hrel _ i hmid hi hlt (by simp [hx])
      cases hgt.symm.trans hless
    · subst heq
      cases hgt.symm.trans hx
  | case2 base size hsize hle ih =>
    have hmid : base + size / 2 < xs.length := by omega
    rw [List.getElem?_eq_getElem hmid, Option.map_some, Option.some_inj] at hle
    refine ih (by omega) (Nat.le_of_not_lt fun hlt => ?_) (by omega)
    cases hx.symm.trans (hrel i _ hi hmid hlt hle)
  | case3 base size hsize => omega

/-- The search finds exactly the index of an element equal to what is searched. -/
theorem binarySearchBy_eq_some (hsorted : Ascending xs f) {i : Fin xs.length} :
    binarySearchBy xs f = some i ↔ f (xs.get i) = .eq := by
  unfold binarySearchBy
  constructor
  · intro h
    dsimp only at h
    split at h
    · split at h
      next heq =>
        cases h
        exact heq
      · cases h
    · cases h
  · intro hi
    have hbase : narrow xs f 0 xs.length = i :=
      narrow_eq hsorted i.isLt hi (by omega) (Nat.zero_le _) (by omega)
    rw [dif_pos (hbase ▸ i.isLt)]
    simp only [hbase, Fin.eta, if_pos hi]

/-- The search returns what a search from the front returns. -/
theorem map_get_binarySearchBy (hsorted : Ascending xs f) :
    (binarySearchBy xs f).map xs.get = xs.find? fun x => f x = .eq := by
  cases hfind : xs.find? fun x => f x = .eq with
  | none =>
    have hnone : binarySearchBy xs f = none := by
      rw [Option.eq_none_iff_forall_not_mem]
      intro i hi
      have heq := (binarySearchBy_eq_some hsorted).mp hi
      exact List.find?_eq_none.mp hfind _ (List.get_mem xs i) (by simpa using heq)
    rw [hnone, Option.map_none]
  | some x =>
    obtain ⟨hx, -⟩ := List.find?_eq_some_iff_append.mp hfind
    obtain ⟨i, rfl⟩ := List.mem_iff_get.mp (List.mem_of_find?_eq_some hfind)
    rw [(binarySearchBy_eq_some hsorted).mpr (by simpa using hx), Option.map_some]

/-! ## Sorting again -/

variable {r : α → α → Prop} {x : α}

/-- A sorted list is cut at the place of a further element. -/
theorem exists_cut [IsTrans α r] (hsorted : xs.Pairwise r) (x : α) :
    ∃ front back, xs = front ++ back ∧ (∀ a ∈ front, r a x) ∧ ∀ b ∈ back, ¬ r b x := by
  induction xs with
  | nil => exact ⟨[], [], rfl, by simp, by simp⟩
  | cons a xs ih =>
    obtain ⟨ha, hxs⟩ := List.pairwise_cons.mp hsorted
    by_cases hax : r a x
    · obtain ⟨front, back, rfl, hfront, hback⟩ := ih hxs
      exact ⟨a :: front, back, rfl, List.forall_mem_cons.mpr ⟨hax, hfront⟩, hback⟩
    · -- What comes after an element that is not in front of `x` is not in front of it either.
      refine ⟨[], a :: xs, rfl, by simp, List.forall_mem_cons.mpr ⟨hax, fun b hb hbx => ?_⟩⟩
      exact hax (IsTrans.trans a b x (ha b hb) hbx)

variable [DecidableRel r] [IsTrans α r] [Std.Total r]

/-- Sorting again puts the new element at the cut. -/
theorem insertionSort_append_singleton {front back : List α}
    (hsorted : (front ++ back).Pairwise r) (hfront : ∀ a ∈ front, r a x)
    (hback : ∀ b ∈ back, ¬ r b x)
    (hantisymm : ∀ a ∈ front ++ back ++ [x], ∀ b ∈ front ++ back ++ [x], r a b → r b a → a = b) :
    (front ++ back ++ [x]).insertionSort r = front ++ x :: back := by
  have hperm : (front ++ back ++ [x]).Perm (front ++ x :: back) := by
    rw [List.append_assoc]
    exact (List.perm_append_singleton x back).append_left front
  obtain ⟨hf, hb, hcross⟩ := List.pairwise_append.mp hsorted
  refine List.Perm.eq_of_pairwise ?_ (List.pairwise_insertionSort r _) ?_
    ((List.perm_insertionSort r _).trans hperm)
  · intro a b ha hb
    exact hantisymm a ((List.mem_insertionSort r).mp ha) b (hperm.mem_iff.mpr hb)
  · refine List.pairwise_append.mpr ⟨hf, List.pairwise_cons.mpr ⟨fun b hmem => ?_, hb⟩, ?_⟩
    · exact (Std.Total.total b x).resolve_left (hback b hmem)
    · intro a ha b hmem
      rcases List.mem_cons.mp hmem with rfl | hmem
      · exact hfront a ha
      · exact hcross a ha b hmem

/-- The elements in front of the new one keep their index. -/
theorem getElem?_insertionSort_append_singleton (hsorted : xs.Pairwise r)
    (hantisymm : ∀ a ∈ xs ++ [x], ∀ b ∈ xs ++ [x], r a b → r b a → a = b) {i : ℕ} {a : α}
    (hi : xs[i]? = some a) (ha : r a x) : ((xs ++ [x]).insertionSort r)[i]? = some a := by
  obtain ⟨front, back, rfl, hfront, hback⟩ := exists_cut hsorted x
  rw [insertionSort_append_singleton hsorted hfront hback hantisymm]
  have hlt : i < front.length := by
    by_contra hle
    rw [List.getElem?_append_right (Nat.le_of_not_lt hle)] at hi
    exact hback a (List.mem_of_getElem? hi) ha
  rw [List.getElem?_append_left hlt] at hi ⊢
  exact hi

end Troe.Lib
