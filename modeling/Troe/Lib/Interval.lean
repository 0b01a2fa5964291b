import Mathlib.Data.List.Pairwise
import Mathlib.Data.List.Sort

/-!
# Lists of labelled half-open intervals

Items `x` stand for the interval from `lo x` up to but not including `hi x`, with the label
`label x`. A list in normal form is ascending and disjoint, and never has two items that touch and
carry the same label. Such a list is determined by the labels it gives to points.
-/

namespace Troe.Lib

variable {α β κ : Type*} [LinearOrder α]

section

variable (lo hi : β → α) (label : β → κ)

/-- The point lies in the item's interval. -/
def Covers (x : β) (a : α) : Prop := lo x ≤ a ∧ a < hi x

/-- Some item of the list gives the point this label. -/
def Shows (l : List β) (a : α) (k : κ) : Prop := ∃ x ∈ l, Covers lo hi x a ∧ label x = k

/-- The first item lies before the second; where they touch their labels differ. -/
def Precedes (x y : β) : Prop := hi x ≤ lo y ∧ (hi x = lo y → label x ≠ label y)

/-- Nonempty items, ascending, disjoint and maximal. -/
structure NormalForm (l : List β) : Prop where
  proper : ∀ x ∈ l, lo x < hi x
  precedes : l.Pairwise (Precedes lo hi label)

end

variable {lo hi : β → α} {label : β → κ} {l l' : List β} {a : α} {k k' : κ}

@[simp] theorem shows_nil : ¬ Shows lo hi label [] a k := by
  rintro ⟨x, hx, -⟩
  exact List.not_mem_nil hx

theorem shows_cons {x : β} :
    Shows lo hi label (x :: l) a k ↔
      (Covers lo hi x a ∧ label x = k) ∨ Shows lo hi label l a k := by
  simp [Shows]

theorem shows_append :
    Shows lo hi label (l ++ l') a k ↔ Shows lo hi label l a k ∨ Shows lo hi label l' a k := by
  simp only [Shows, List.mem_append, or_and_right, exists_or]

theorem shows_iff_of_perm (h : l.Perm l') : Shows lo hi label l a k ↔ Shows lo hi label l' a k := by
  simp only [Shows, h.mem_iff]

/-- Sort by a key. -/
def sortByKey (key : β → α) (l : List β) : List β := l.insertionSort fun x y => key x ≤ key y

theorem sortByKey_perm (key : β → α) (l : List β) : (sortByKey key l).Perm l :=
  List.perm_insertionSort _ l

theorem pairwise_sortByKey (key : β → α) (l : List β) :
    (sortByKey key l).Pairwise fun x y => key x ≤ key y := by
  exact List.pairwise_insertionSort _ l

namespace NormalForm

theorem tail {x : β} (h : NormalForm lo hi label (x :: l)) : NormalForm lo hi label l :=
  ⟨fun y hy => h.proper y (List.mem_cons_of_mem _ hy), (List.pairwise_cons.mp h.precedes).2⟩

/-- Points of later items are not below the end of the first. -/
theorem le_of_shows_tail {x : β} (h : NormalForm lo hi label (x :: l))
    (hs : Shows lo hi label l a k) : hi x ≤ a := by
  obtain ⟨y, hy, ⟨hlo, -⟩, -⟩ := hs
  exact ((List.pairwise_cons.mp h.precedes).1 y hy).1.trans hlo

section

variable (h : NormalForm lo hi label l)
include h

/-- A point is in at most one item, so it has at most one label. -/
theorem label_unique (hk : Shows lo hi label l a k) (hk' : Shows lo hi label l a k') : k = k' := by
  induction l with
  | nil => exact absurd hk shows_nil
  | cons x l ih =>
    rw [shows_cons] at hk hk'
    rcases hk with ⟨hc, rfl⟩ | hk
    · rcases hk' with ⟨-, rfl⟩ | hk'
      · rfl
      · exact absurd hc.2 (not_lt.mpr (h.le_of_shows_tail hk'))
    · rcases hk' with ⟨hc, -⟩ | hk'
      · exact absurd hc.2 (not_lt.mpr (h.le_of_shows_tail hk))
      · exact ih h.tail hk hk'

/-- What bounds the last item bounds them all. -/
theorem hi_le_of_getLast (hlast : ∀ y ∈ l.getLast?, hi y ≤ a) : ∀ y ∈ l, hi y ≤ a := by
  rcases List.eq_nil_or_concat' l with rfl | ⟨l, x, rfl⟩
  · simp
  · rw [List.getLast?_concat] at hlast
    have hx : hi x ≤ a := hlast x rfl
    obtain ⟨-, -, hcross⟩ := List.pairwise_append.mp h.precedes
    intro y hy
    rcases List.mem_append.mp hy with hy | hy
    · calc hi y ≤ lo x := (hcross y hy x (List.mem_singleton_self _)).1
        _ ≤ hi x := (h.proper x (by simp)).le
        _ ≤ a := hx
    · rw [List.mem_singleton.mp hy]
      exact hx

/-- Add an item after the last one. -/
theorem concat {x : β} (hx : lo x < hi x) (hle : ∀ y ∈ l, hi y ≤ lo x)
    (hlast : ∀ y ∈ l.getLast?, Precedes lo hi label y x) :
    NormalForm lo hi label (l ++ [x]) := by
  refine ⟨fun y hy => ?_, List.pairwise_append.mpr ⟨h.precedes, List.pairwise_singleton _ _, ?_⟩⟩
  · rcases List.mem_append.mp hy with hy | hy
    · exact h.proper y hy
    · rw [List.mem_singleton.mp hy]
      exact hx
  · intro y hy z hz
    rw [List.mem_singleton.mp hz]
    obtain ⟨l, last, rfl⟩ := (List.eq_nil_or_concat' l).resolve_left (List.ne_nil_of_mem hy)
    rw [List.getLast?_concat] at hlast
    rcases List.mem_append.mp hy with hmem | hmem
    · -- items before the last one do not touch the new one
      obtain ⟨-, -, hcross⟩ := List.pairwise_append.mp h.precedes
      have hlt : hi y < lo x :=
        calc hi y ≤ lo last := (hcross y hmem last (List.mem_singleton_self _)).1
          _ < hi last := h.proper last (by simp)
          _ ≤ lo x := hle last (by simp)
      exact ⟨hlt.le, fun heq => absurd heq hlt.ne⟩
    · rw [List.mem_singleton.mp hmem]
      exact hlast last rfl

end

/-- Move the end of the last item. -/
theorem extend {x x' : β} (h : NormalForm lo hi label (l ++ [x])) (hx : lo x' < hi x')
    (hlo : lo x' = lo x) (hlabel : label x' = label x) : NormalForm lo hi label (l ++ [x']) := by
  obtain ⟨hl, -, hcross⟩ := List.pairwise_append.mp h.precedes
  refine ⟨fun y hy => ?_, List.pairwise_append.mpr ⟨hl, List.pairwise_singleton _ _, ?_⟩⟩
  · rcases List.mem_append.mp hy with hy | hy
    · exact h.proper y (List.mem_append_left _ hy)
    · rw [List.mem_singleton.mp hy]
      exact hx
  · intro y hy z hz
    rw [List.mem_singleton.mp hz]
    have hyx := hcross y hy x (List.mem_singleton_self _)
    rwa [Precedes, hlo, hlabel]

/-- Dropping the first item drops exactly the points before its end. -/
theorem shows_tail_iff {x : β} (h : NormalForm lo hi label (x :: l)) :
    Shows lo hi label l a k ↔ Shows lo hi label (x :: l) a k ∧ hi x ≤ a := by
  rw [shows_cons]
  constructor
  · intro hs
    exact ⟨.inr hs, h.le_of_shows_tail hs⟩
  · rintro ⟨⟨⟨-, hlt⟩, -⟩ | hs, hle⟩
    · exact absurd hle (not_le.mpr hlt)
    · exact hs

/-- The first point of a list is where its first item starts. -/
theorem le_of_shows {x : β} (h : NormalForm lo hi label (x :: l))
    (hs : Shows lo hi label (x :: l) a k) : lo x ≤ a := by
  rcases shows_cons.mp hs with ⟨⟨hle, -⟩, -⟩ | hs
  · exact hle
  · exact (h.proper x List.mem_cons_self).le.trans (h.le_of_shows_tail hs)

theorem shows_lo {x : β} (h : NormalForm lo hi label (x :: l)) :
    Shows lo hi label (x :: l) (lo x) (label x) :=
  shows_cons.mpr (.inl ⟨⟨le_rfl, h.proper x List.mem_cons_self⟩, rfl⟩)

/-- The first item ends where its label stops: a list that starts with the same label at the same
point cannot end it later. -/
theorem hi_le_of_shows {x y : β} (h : NormalForm lo hi label (x :: l)) (hlo : lo x = lo y)
    (hlabel : label x = label y)
    (hshows : ∀ a k, Shows lo hi label (y :: l') a k → Shows lo hi label (x :: l) a k) :
    hi y ≤ hi x := by
  by_contra hlt
  rw [not_le] at hlt
  -- the point `hi x` still has the label in the other list, so the next item here touches
  have hcovers : Covers lo hi y (hi x) := ⟨hlo ▸ (h.proper x List.mem_cons_self).le, hlt⟩
  have hx : Shows lo hi label (x :: l) (hi x) (label y) :=
    hshows _ _ (shows_cons.mpr (.inl ⟨hcovers, rfl⟩))
  rcases shows_cons.mp hx with ⟨⟨-, habs⟩, -⟩ | ⟨z, hz, ⟨hzlo, -⟩, hzlabel⟩
  · exact lt_irrefl _ habs
  · obtain ⟨hxz, hne⟩ := (List.pairwise_cons.mp h.precedes).1 z hz
    exact hne (le_antisymm hxz hzlo) (hlabel.trans hzlabel.symm)

/-- A list in normal form is determined by the labels of points. -/
theorem eq_of_shows (hinj : ∀ x y : β, lo x = lo y → hi x = hi y → label x = label y → x = y)
    (h : NormalForm lo hi label l) (h' : NormalForm lo hi label l')
    (hshows : ∀ a k, Shows lo hi label l a k ↔ Shows lo hi label l' a k) : l = l' := by
  induction l generalizing l' with
  | nil =>
    cases l' with
    | nil => rfl
    | cons y l' => exact absurd ((hshows _ _).mpr h'.shows_lo) shows_nil
  | cons x l ih =>
    cases l' with
    | nil => exact absurd ((hshows _ _).mp h.shows_lo) shows_nil
    | cons y l' =>
      have hlo : lo x = lo y :=
        le_antisymm (h.le_of_shows ((hshows _ _).mpr h'.shows_lo))
          (h'.le_of_shows ((hshows _ _).mp h.shows_lo))
      have hlabel : label x = label y :=
        h'.label_unique ((hshows _ _).mp h.shows_lo) (hlo ▸ h'.shows_lo)
      have hhi : hi x = hi y :=
        le_antisymm (h'.hi_le_of_shows hlo.symm hlabel.symm fun a k => (hshows a k).mp)
          (h.hi_le_of_shows hlo hlabel fun a k => (hshows a k).mpr)
      obtain rfl := hinj x y hlo hhi hlabel
      congr 1
      apply ih h.tail h'.tail
      intro a k
      rw [h.shows_tail_iff, h'.shows_tail_iff, hshows]

end NormalForm

end Troe.Lib
