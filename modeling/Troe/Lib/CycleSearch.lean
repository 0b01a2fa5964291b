import Mathlib.Algebra.Order.BigOperators.Group.Finset

/-!
# Depth-first cycle search with three colours

An iterative search over a finite graph. The stack holds pending visits and, below the pending
children of every node under way, the mark that leaves that node. One node may be pending several
times. A visit of a node that is still under way is a cycle, and a search that finds none has left
every node it started from outside of all cycles.
-/

namespace Troe.Lib

open Function (update update_of_ne update_self)

/-- Not seen yet, under way, done. -/
inductive Color where
  | white
  | gray
  | black
deriving DecidableEq

namespace CycleSearch

variable {ε α : Type} {children : α → Except ε (List α)} {cycle : ε} {colors colors' : α → Color}
  {u v w : α} {stack rest : List (α × Bool)}

/-! ## The loop -/

/-- An upper bound for what a visit of the node leaves on the stack. -/
def weight (children : α → Except ε (List α)) (v : α) : ℕ :=
  (children v).toOption.elim 0 List.length + 2

/-- The weights of the nodes not seen yet. -/
def unseen [Fintype α] (children : α → Except ε (List α)) (colors : α → Color) : ℕ :=
  ∑ v, if colors v = .white then weight children v else 0

theorem unseen_update_add [DecidableEq α] [Fintype α] (children : α → Except ε (List α))
    (colors : α → Color) (v : α) {color : Color} (hcolor : color ≠ .white) :
    unseen children (update colors v color) +
      (if colors v = .white then weight children v else 0) = unseen children colors := by
  unfold unseen
  rw [← Finset.add_sum_erase _ _ (Finset.mem_univ v), ← Finset.add_sum_erase _ _ (Finset.mem_univ v)]
  have hrest : ∀ w ∈ Finset.univ.erase v,
      (if update colors v color w = .white then weight children w else 0) =
        if colors w = .white then weight children w else 0 := by
    intro w hw
    rw [update_of_ne (Finset.ne_of_mem_erase hw)]
  rw [Finset.sum_congr rfl hrest, update_self, if_neg hcolor]
  omega

/-- The search from a stack: a loop that takes one entry at a time, a mark to leave a node or a
pending visit. -/
def walk [DecidableEq α] [Fintype α] (children : α → Except ε (List α)) (cycle : ε)
    (colors : α → Color) (stack : List (α × Bool)) : Except ε (α → Color) :=
  match stack with
  | [] => .ok colors
  | (v, true) :: rest => walk children cycle (update colors v .black) rest
  | (v, false) :: rest =>
    match _hcolor : colors v with
    | .gray => .error cycle
    | .black => walk children cycle colors rest
    | .white =>
      match _hchildren : children v with
      | .error error => .error error
      | .ok targets =>
        walk children cycle (update colors v .gray)
          (targets.map (·, false) ++ (v, true) :: rest)
termination_by unseen children colors + stack.length
decreasing_by
  · have := unseen_update_add children colors v (by decide : Color.black ≠ .white)
    simp only [List.length_cons]
    omega
  · simp only [List.length_cons]
    omega
  · have := unseen_update_add children colors v (by decide : Color.gray ≠ .white)
    rw [if_pos _hcolor, weight, _hchildren] at this
    simp only [Except.toOption, Option.elim_some] at this
    simp only [List.length_append, List.length_map, List.length_cons]
    omega

/-! ## The path on the stack -/

/-- The graph of a fallible successor function. -/
def Edge (children : α → Except ε (List α)) (v w : α) : Prop :=
  ∃ targets, children v = .ok targets ∧ w ∈ targets

/-- The node under way whose children lie on top of the stack. -/
def topMark : List (α × Bool) → Option α
  | [] => none
  | (v, true) :: _ => some v
  | (_, false) :: rest => topMark rest

/-- Every entry is a child of the node whose mark comes next below it. -/
def Linked (children : α → Except ε (List α)) : List (α × Bool) → Prop
  | [] => True
  | entry :: rest =>
    Linked children rest ∧ ∀ v, topMark rest = some v → Edge children v entry.1

theorem exists_topMark (hv : (v, true) ∈ stack) : ∃ top, topMark stack = some top := by
  induction stack with
  | nil => cases hv
  | cons entry rest ih =>
    obtain ⟨x, _ | _⟩ := entry
    · obtain hv | hv := List.mem_cons.mp hv
      · cases hv
      · exact ih hv
    · exact ⟨x, rfl⟩

/-- A node under way reaches the one on top. -/
theorem Linked.reaches (h : Linked children stack) {top : α} (htop : topMark stack = some top)
    (hv : (v, true) ∈ stack) : Relation.ReflTransGen (Edge children) v top := by
  induction stack generalizing top with
  | nil => cases hv
  | cons entry rest ih =>
    obtain ⟨hrest, hedge⟩ := h
    obtain ⟨x, mark⟩ := entry
    cases mark with
    | false =>
      obtain hv | hv := List.mem_cons.mp hv
      · cases hv
      · exact ih hrest htop hv
    | true =>
      obtain rfl : x = top := by simpa [topMark] using htop
      obtain hv | hv := List.mem_cons.mp hv
      · cases hv
        exact .refl
      · obtain ⟨below, hbelow⟩ := exists_topMark hv
        exact (ih hrest hbelow hv).tail (hedge below hbelow)

/-- A pending visit of a node under way closes a cycle. -/
theorem Linked.transGen_self (h : Linked children ((v, false) :: rest)) (hv : (v, true) ∈ rest) :
    Relation.TransGen (Edge children) v v := by
  obtain ⟨top, htop⟩ := exists_topMark hv
  exact .tail' (h.1.reaches htop hv) (h.2 top htop)

theorem topMark_pending (targets : List α) (v : α) (rest : List (α × Bool)) :
    topMark (targets.map (·, false) ++ (v, true) :: rest) = some v := by
  induction targets with
  | nil => rfl
  | cons target targets ih => exact ih

theorem Linked.visit {targets : List α} (h : Linked children ((v, false) :: rest))
    (htargets : ∀ w ∈ targets, Edge children v w) :
    Linked children (targets.map (·, false) ++ (v, true) :: rest) := by
  induction targets with
  | nil => exact ⟨h.1, h.2⟩
  | cons target targets ih =>
    refine ⟨ih fun w hw => htargets w (List.mem_cons_of_mem _ hw), fun top htop => ?_⟩
    cases (topMark_pending targets v rest).symm.trans htop
    exact htargets target List.mem_cons_self

/-- Where a mark lies in a stack with pending visits on top. -/
theorem eq_append_mark {targets : List α} {above below : List (α × Bool)}
    (h : targets.map (·, false) ++ (v, true) :: rest = above ++ (u, true) :: below) :
    above = targets.map (·, false) ∧ u = v ∨
      ∃ middle, above = targets.map (·, false) ++ (v, true) :: middle ∧
        rest = middle ++ (u, true) :: below := by
  induction targets generalizing above with
  | nil =>
    cases above with
    | nil =>
      cases h
      exact .inl ⟨rfl, rfl⟩
    | cons entry above =>
      obtain ⟨rfl, hrest⟩ := List.cons.inj h
      exact .inr ⟨above, rfl, hrest⟩
  | cons target targets ih =>
    cases above with
    | nil => cases h
    | cons entry above =>
      obtain ⟨rfl, hrest⟩ := List.cons.inj h
      obtain ⟨rfl, rfl⟩ | ⟨middle, rfl, hmiddle⟩ := ih hrest
      · exact .inl ⟨rfl, rfl⟩
      · exact .inr ⟨middle, rfl, hmiddle⟩

/-! ## The invariant -/

/-- What holds between the turns of the loop. -/
structure Inv (children : α → Except ε (List α)) (colors : α → Color)
    (stack : List (α × Bool)) : Prop where
  marked : ∀ v, colors v = .gray ↔ (v, true) ∈ stack
  markedOnce : ((stack.filter (·.2)).map (·.1)).Nodup
  linked : Linked children stack
  pending : ∀ above v below, stack = above ++ (v, true) :: below → ∀ w, Edge children v w →
    colors w = .black ∨ ∃ mark, (w, mark) ∈ above
  closed : ∀ v w, colors v = .black → Edge children v w → colors w = .black
  noCycle : ∀ v, colors v = .black → ¬ Relation.TransGen (Edge children) v v

/-- Nothing is seen. -/
theorem inv_white : Inv children (fun _ => .white) [] where
  marked := by simp
  markedOnce := by simp
  linked := trivial
  pending := by simp
  closed := by simp
  noCycle := by simp

/-- Between two searches, one more node is to be visited. -/
theorem Inv.start (h : Inv children colors []) (v : α) : Inv children colors [(v, false)] where
  marked := by simpa using h.marked
  markedOnce := by simp
  linked := ⟨trivial, by simp [topMark]⟩
  pending := by
    intro above u below hstack
    have hmem : (u, true) ∈ [(v, false)] := by simp [hstack]
    simp at hmem
  closed := h.closed
  noCycle := h.noCycle

/-- Done nodes reach done nodes only. -/
theorem Inv.black_of_reaches (h : Inv children colors stack) (hv : colors v = .black)
    (hvw : Relation.ReflTransGen (Edge children) v w) : colors w = .black := by
  induction hvw with
  | refl => exact hv
  | tail _ hedge ih => exact h.closed _ _ ih hedge

/-- A pending visit of a done node is dropped. -/
theorem Inv.skip (h : Inv children colors ((v, false) :: rest)) (hv : colors v = .black) :
    Inv children colors rest where
  marked := by simpa using h.marked
  markedOnce := by simpa using h.markedOnce
  linked := h.linked.1
  pending := by
    intro above u below hstack w hw
    obtain hblack | ⟨mark, hmem⟩ :=
      h.pending ((v, false) :: above) u below (by rw [hstack]; rfl) w hw
    · exact .inl hblack
    · obtain heq | hmem := List.mem_cons.mp hmem
      · obtain ⟨rfl, -⟩ := Prod.mk.inj heq
        exact .inl hv
      · exact .inr ⟨mark, hmem⟩
  closed := h.closed
  noCycle := h.noCycle

section Step

variable [DecidableEq α]

/-- The node on top is left: its children are all done. -/
theorem Inv.leave (h : Inv children colors ((v, true) :: rest)) :
    Inv children (update colors v .black) rest := by
  have hgray : colors v = .gray := (h.marked v).mpr List.mem_cons_self
  have hnodup := h.markedOnce
  simp only [List.filter_cons, if_true, List.map_cons, List.nodup_cons] at hnodup
  have hnot : (v, true) ∉ rest := by
    intro hmem
    exact hnodup.1 (List.mem_map.mpr ⟨_, List.mem_filter.mpr ⟨hmem, rfl⟩, rfl⟩)
  have hkeep : ∀ w, colors w = .black → update colors v .black w = .black := by
    intro w hw
    by_cases hwv : w = v
    · rw [hwv, update_self]
    · rw [update_of_ne hwv, hw]
  have hchildren : ∀ w, Edge children v w → colors w = .black := by
    intro w hw
    obtain hblack | ⟨_, hmem⟩ := h.pending [] v rest rfl w hw
    · exact hblack
    · cases hmem
  constructor
  case marked =>
    intro u
    by_cases huv : u = v
    · simp [huv, hnot]
    · rw [update_of_ne huv, h.marked u]
      simp [huv]
  case markedOnce => exact hnodup.2
  case linked => exact h.linked.1
  case pending =>
    intro above u below hstack w hw
    obtain hblack | ⟨mark, hmem⟩ := h.pending ((v, true) :: above) u below (by rw [hstack]; rfl) w hw
    · exact .inl (hkeep w hblack)
    · obtain heq | hmem := List.mem_cons.mp hmem
      · obtain ⟨rfl, -⟩ := Prod.mk.inj heq
        exact .inl (update_self ..)
      · exact .inr ⟨mark, hmem⟩
  case closed =>
    intro u w hu hw
    by_cases huv : u = v
    · exact hkeep w (hchildren w (huv ▸ hw))
    · rw [update_of_ne huv] at hu
      exact hkeep w (h.closed u w hu hw)
  case noCycle =>
    intro u hu hcycle
    by_cases huv : u = v
    · -- From a child of the node only done nodes are reached, and the node was not done.
      subst huv
      obtain ⟨w, hw, hreach⟩ := Relation.TransGen.head'_iff.mp hcycle
      have hblack := h.black_of_reaches (hchildren w hw) hreach
      rw [hgray] at hblack
      cases hblack
    · rw [update_of_ne huv] at hu
      exact h.noCycle u hu hcycle

/-- A node is entered: its children are pending above its mark. -/
theorem Inv.visit {targets : List α} (h : Inv children colors ((v, false) :: rest))
    (hv : colors v = .white) (htargets : children v = .ok targets) :
    Inv children (update colors v .gray) (targets.map (·, false) ++ (v, true) :: rest) := by
  have hnot : (v, true) ∉ rest := by
    intro hmem
    have hgray := (h.marked v).mpr (List.mem_cons_of_mem _ hmem)
    rw [hv] at hgray
    cases hgray
  have hblack : ∀ w, update colors v .gray w = .black ↔ colors w = .black := by
    intro w
    by_cases hwv : w = v
    · simp [hwv, hv]
    · rw [update_of_ne hwv]
  constructor
  case marked =>
    intro u
    have hold : colors u = .gray ↔ (u, true) ∈ rest := by simpa using h.marked u
    by_cases huv : u = v
    · simp [huv]
    · rw [update_of_ne huv, hold]
      simp [huv]
  case markedOnce =>
    have hold : ((rest.filter (·.2)).map (·.1)).Nodup := by simpa using h.markedOnce
    have hpending : (targets.map (·, false)).filter (·.2) = [] := by simp
    rw [List.filter_append, hpending, List.nil_append, List.filter_cons, if_pos rfl]
    refine List.nodup_cons.mpr ⟨fun hmem => ?_, hold⟩
    obtain ⟨⟨u, mark⟩, hentry, huv⟩ := List.mem_map.mp hmem
    obtain ⟨hentry, hmark⟩ := List.mem_filter.mp hentry
    obtain rfl : mark = true := hmark
    obtain rfl : u = v := huv
    exact hnot hentry
  case linked => exact h.linked.visit fun w hw => ⟨targets, htargets, hw⟩
  case pending =>
    intro above u below hstack w hw
    obtain ⟨rfl, rfl⟩ | ⟨middle, rfl, hrest⟩ := eq_append_mark hstack
    · obtain ⟨targets', htargets', hmem⟩ := hw
      rw [htargets] at htargets'
      cases htargets'
      exact .inr ⟨false, List.mem_map.mpr ⟨w, hmem, rfl⟩⟩
    · obtain hdone | ⟨mark, hmem⟩ :=
        h.pending ((v, false) :: middle) u below (by rw [hrest]; rfl) w hw
      · exact .inl ((hblack w).mpr hdone)
      · obtain heq | hmem := List.mem_cons.mp hmem
        · obtain ⟨rfl, -⟩ := Prod.mk.inj heq
          exact .inr ⟨true, by simp⟩
        · exact .inr ⟨mark, by simp [hmem]⟩
  case closed =>
    intro u w hu hw
    exact (hblack w).mpr (h.closed u w ((hblack u).mp hu) hw)
  case noCycle => exact fun u hu => h.noCycle u ((hblack u).mp hu)

/-! ## Whole searches -/

variable [Fintype α]

/-- A search that ends leaves every node of its stack done, and keeps what was done. -/
theorem walk_ok (hinv : Inv children colors stack)
    (h : walk children cycle colors stack = .ok colors') :
    Inv children colors' [] ∧ (∀ v, colors v = .black → colors' v = .black) ∧
      ∀ entry ∈ stack, colors' entry.1 = .black := by
  fun_induction walk children cycle colors stack with
  | case1 colors =>
    cases h
    exact ⟨hinv, fun _ hv => hv, by simp⟩
  | case2 colors v rest ih =>
    obtain ⟨hend, hkeep, hdone⟩ := ih hinv.leave h
    refine ⟨hend, fun u hu => hkeep u ?_, ?_⟩
    · by_cases huv : u = v
      · rw [huv, update_self]
      · rw [update_of_ne huv, hu]
    · refine List.forall_mem_cons.mpr ⟨hkeep v ?_, hdone⟩
      exact update_self ..
  | case3 => cases h
  | case4 colors v rest hblack ih =>
    obtain ⟨hend, hkeep, hdone⟩ := ih (hinv.skip hblack) h
    exact ⟨hend, hkeep, List.forall_mem_cons.mpr ⟨hkeep v hblack, hdone⟩⟩
  | case5 => cases h
  | case6 colors v rest hwhite targets htargets ih =>
    obtain ⟨hend, hkeep, hdone⟩ := ih (hinv.visit hwhite htargets) h
    refine ⟨hend, fun u hu => hkeep u ?_, ?_⟩
    · have huv : u ≠ v := by
        rintro rfl
        rw [hwhite] at hu
        cases hu
      rw [update_of_ne huv, hu]
    · -- The entry for the node turned into its mark.
      refine List.forall_mem_cons.mpr ⟨hdone (v, true) (by simp), fun entry hentry => ?_⟩
      exact hdone entry (by simp [hentry])

/-- A search stops early at a cycle, or at a node whose children are not known. -/
theorem walk_error (hinv : Inv children colors stack) {error : ε}
    (h : walk children cycle colors stack = .error error) :
    error = cycle ∧ (∃ v, Relation.TransGen (Edge children) v v) ∨
      ∃ v, children v = .error error := by
  fun_induction walk children cycle colors stack with
  | case1 => cases h
  | case2 colors v rest ih => exact ih hinv.leave h
  | case3 colors v rest hgray =>
    cases h
    have hmark : (v, true) ∈ rest := by simpa using (hinv.marked v).mp hgray
    exact .inl ⟨rfl, v, hinv.linked.transGen_self hmark⟩
  | case4 colors v rest hblack ih => exact ih (hinv.skip hblack) h
  | case5 colors v rest hwhite error' hchildren =>
    cases h
    exact .inr ⟨v, hchildren⟩
  | case6 colors v rest hwhite targets htargets ih => exact ih (hinv.visit hwhite htargets) h

end Step

end CycleSearch

end Troe.Lib
