import Mathlib.Data.List.Nodup

/-!
# Intrusive doubly linked queues

The nodes of a queue are indices; `prev` and `next` are the links they carry. `Linked` says that
head, tail and links spell out a list without repetition. Appending and removing a node is stated
pointwise, for links that were written one field at a time.
-/

namespace Troe.Lib

/-- The links of `q` in order, between the node `before` it and the node `after` it. -/
def Segment (prev next : ℕ → Option ℕ) : Option ℕ → List ℕ → Option ℕ → Prop
  | _, [], _ => True
  | before, i :: q, after =>
    prev i = before ∧ next i = q.head?.or after ∧ Segment prev next (some i) q after

/-- Head, tail and links spell out `q`. -/
structure Linked (prev next : ℕ → Option ℕ) (head tail : Option ℕ) (q : List ℕ) : Prop where
  head_eq : head = q.head?
  tail_eq : tail = q.getLast?
  nodup : q.Nodup
  segment : Segment prev next none q none

variable {prev next prev' next' : ℕ → Option ℕ} {before after head tail head' tail' : Option ℕ}
  {q l r : List ℕ} {x : ℕ}

theorem Segment.congr (h : Segment prev next before q after)
    (heq : ∀ i ∈ q, prev' i = prev i ∧ next' i = next i) :
    Segment prev' next' before q after := by
  induction q generalizing before with
  | nil => trivial
  | cons i q ih =>
    obtain ⟨hprev, hnext, hrest⟩ := h
    obtain ⟨hi, hq⟩ := List.forall_mem_cons.mp heq
    exact ⟨hi.1.trans hprev, hi.2.trans hnext, ih hrest hq⟩

theorem segment_append :
    Segment prev next before (l ++ r) after ↔
      Segment prev next before l (r.head?.or after) ∧
        Segment prev next (l.getLast?.or before) r after := by
  induction l generalizing before with
  | nil => simp [Segment]
  | cons i l ih =>
    have hlast : (i :: l).getLast?.or before = l.getLast?.or (some i) := by
      cases l <;> simp [List.getLast?_cons]
    rw [List.cons_append, Segment, Segment, ih, hlast, List.head?_append, Option.or_assoc]
    tauto

theorem linked_nil : Linked prev next none none [] := ⟨rfl, rfl, List.nodup_nil, trivial⟩

/-- The queue of an object only depends on the links of its members. -/
theorem Linked.congr (h : Linked prev next head tail q)
    (heq : ∀ i ∈ q, prev' i = prev i ∧ next' i = next i) : Linked prev' next' head tail q :=
  ⟨h.head_eq, h.tail_eq, h.nodup, h.segment.congr heq⟩

theorem Linked.eq_nil_of_head (h : Linked prev next none tail q) : q = [] :=
  List.head?_eq_none_iff.mp h.head_eq.symm

theorem Linked.eq_cons_of_head (h : Linked prev next (some x) tail q) : ∃ r, q = x :: r :=
  List.head?_eq_some_iff.mp h.head_eq.symm

theorem Linked.tail_mem (h : Linked prev next head (some x) q) : x ∈ q :=
  List.mem_of_getLast? h.tail_eq.symm

variable (h : Linked prev next head tail q)
include h

/-- The links around one member. -/
theorem Linked.split (hx : x ∈ q) :
    ∃ l r, q = l ++ x :: r ∧ x ∉ l ∧ x ∉ r ∧ prev x = l.getLast? ∧ next x = r.head? := by
  obtain ⟨l, r, rfl⟩ := List.append_of_mem hx
  have hnodup := List.nodup_middle.mp h.nodup
  have hseg := (segment_append.mp h.segment).2
  simp only [Segment, Option.or_none] at hseg
  rw [List.nodup_cons, List.mem_append, not_or] at hnodup
  exact ⟨l, r, rfl, hnodup.1.1, hnodup.1.2, hseg.1, hseg.2.1⟩

/-- A node is appended: the old tail points to it, or the head does. -/
theorem Linked.push (hx : x ∉ q) (hprev : ∀ i ∈ q, prev' i = prev i) (hprevx : prev' x = tail)
    (hnext : ∀ i ∈ q, next' i = if tail = some i then some x else next i) (hnextx : next' x = none)
    (hhead : head' = if tail = none then some x else head) :
    Linked prev' next' head' (some x) (q ++ [x]) := by
  have htail := h.tail_eq
  refine ⟨?_, by simp, ?_, ?_⟩
  · rw [hhead, h.head_eq, htail]
    cases q <;> simp [List.getLast?_cons]
  · rw [List.nodup_append_comm, List.singleton_append, List.nodup_cons]
    exact ⟨hx, h.nodup⟩
  · rw [segment_append]
    refine ⟨?_, ?_, ?_, trivial⟩
    · rcases List.eq_nil_or_concat' q with rfl | ⟨l, t, rfl⟩
      · trivial
      · -- the links up to the old tail stay, and the tail points to the new node
        obtain ⟨hl, ht, -⟩ := segment_append.mp h.segment
        have htl : t ∉ l := by
          have := List.nodup_middle.mp h.nodup
          rw [List.append_nil] at this
          exact (List.nodup_cons.mp this).1
        rw [segment_append]
        simp only [List.getLast?_append, List.getLast?_singleton, Option.some_or] at htail
        refine ⟨hl.congr fun i hi => ⟨hprev i (by simp [hi]), ?_⟩, ?_, ?_, trivial⟩
        · rw [hnext i (by simp [hi]), htail, if_neg]
          intro heq
          exact htl (Option.some.inj heq ▸ hi)
        · rw [hprev t (by simp)]
          exact ht
        · rw [hnext t (by simp), htail, if_pos rfl]
          rfl
    · rw [hprevx, htail]
      simp
    · rw [hnextx]
      rfl

/-- A node is taken out: its neighbours, or the ends, point past it. -/
theorem Linked.unlink (hx : x ∈ q)
    (hprev : ∀ i ∈ q, i ≠ x → prev' i = if next x = some i then prev x else prev i)
    (hnext : ∀ i ∈ q, i ≠ x → next' i = if prev x = some i then next x else next i)
    (hhead : head' = if prev x = none then next x else head)
    (htail : tail' = if next x = none then prev x else tail) :
    Linked prev' next' head' tail' (q.erase x) := by
  obtain ⟨l, r, rfl, hxl, hxr, hpx, hnx⟩ := h.split hx
  have herase : (l ++ x :: r).erase x = l ++ r := by
    rw [List.erase_append_right _ hxl, List.erase_cons_head]
  have hnodup : (l ++ r).Nodup := (List.nodup_cons.mp (List.nodup_middle.mp h.nodup)).2
  have hdisjoint : ∀ i ∈ l, i ∉ r := fun i hl hr =>
    (List.nodup_append.mp hnodup).2.2 i hl i hr rfl
  obtain ⟨hl, hxr'⟩ := segment_append.mp h.segment
  obtain ⟨-, -, hr⟩ := hxr'
  rw [herase]
  refine ⟨?_, ?_, hnodup, segment_append.mpr ⟨?_, ?_⟩⟩
  · rw [hhead, h.head_eq, hpx, hnx]
    cases l <;> simp
  · rw [htail, h.tail_eq, hpx, hnx]
    rcases List.eq_nil_or_concat' r with rfl | ⟨r, t, rfl⟩ <;> simp [List.getLast?_cons]
  · -- before the node only the link of its predecessor changed
    rcases List.eq_nil_or_concat' l with rfl | ⟨l, p, rfl⟩
    · trivial
    · obtain ⟨hl, hp, -⟩ := segment_append.mp hl
      have hpl : p ∉ l := by
        have := (List.nodup_append.mp hnodup).1
        rw [List.nodup_append_comm, List.singleton_append, List.nodup_cons] at this
        exact this.1
      have hne : ∀ i ∈ l ++ [p], i ≠ x := fun i hi heq => hxl (heq ▸ hi)
      have hkeep : ∀ i ∈ l ++ [p], prev' i = prev i := by
        intro i hi
        rw [hprev i (by simp at hi ⊢; tauto) (hne i hi), if_neg]
        intro heq
        rw [hnx] at heq
        exact hdisjoint i hi (List.mem_of_head? heq)
      rw [List.getLast?_append, List.getLast?_singleton, Option.some_or] at hpx
      rw [segment_append]
      refine ⟨hl.congr fun i hi => ⟨hkeep i (by simp [hi]), ?_⟩, ?_, ?_, trivial⟩
      · rw [hnext i (by simp [hi]) (hne i (by simp [hi])), hpx, if_neg]
        intro heq
        exact hpl (Option.some.inj heq ▸ hi)
      · rw [hkeep p (by simp)]
        exact hp
      · rw [hnext p (by simp) (hne p (by simp)), hpx, hnx]
        simp
  · -- behind it only the link of its successor
    cases r with
    | nil => trivial
    | cons n r =>
      obtain ⟨-, hn, hr⟩ := hr
      have hnr : n ∉ r := (List.nodup_cons.mp (List.nodup_append.mp hnodup).2.1).1
      have hne : ∀ i ∈ n :: r, i ≠ x := fun i hi heq => hxr (heq ▸ hi)
      have hkeep : ∀ i ∈ n :: r, next' i = next i := by
        intro i hi
        rw [hnext i (by simp at hi ⊢; tauto) (hne i hi), if_neg]
        intro heq
        rw [hpx] at heq
        exact hdisjoint i (List.mem_of_getLast? heq) hi
      refine ⟨?_, ?_, hr.congr fun i hi => ⟨?_, hkeep i (by simp [hi])⟩⟩
      · rw [hprev n (by simp) (hne n (by simp)), hnx, List.head?_cons, if_pos rfl, hpx,
          Option.or_none]
      · rw [hkeep n (by simp)]
        exact hn
      · rw [hprev i (by simp [hi]) (hne i (by simp [hi])), hnx, if_neg]
        intro heq
        exact hnr (Option.some.inj heq ▸ hi)

end Troe.Lib
