/-!
# Paths as lists of components

A path is rendered by writing the separator before every component. Rendering and splitting are
inverse to each other on components without the separator, so that a rendered path determines its
components; being below a directory is a statement about components, not about characters.
-/

namespace Troe.Lib

section

variable {α : Type} {sep : α} {c : List α} {cs ds : List (List α)}

/-- Every component after a separator. -/
def render (sep : α) (cs : List (List α)) : List α := cs.flatMap (sep :: ·)

@[simp] theorem render_nil : render sep ([] : List (List α)) = [] := rfl

@[simp] theorem render_cons : render sep (c :: cs) = sep :: (c ++ render sep cs) := rfl

@[simp] theorem render_append : render sep (cs ++ ds) = render sep cs ++ render sep ds :=
  List.flatMap_append

end

variable {α : Type} [DecidableEq α] {sep : α} {c : List α} {cs : List (List α)}

/-- Splitting at the separators of a rendered path gives its components. -/
theorem splitOn_render (h : ∀ c ∈ cs, sep ∉ c) : (render sep cs).splitOn sep = [] :: cs := by
  induction cs with
  | nil => rfl
  | cons c cs ih =>
    have hc : sep ∉ c := h c List.mem_cons_self
    have hrest := ih fun d hd => h d (List.mem_cons_of_mem c hd)
    rw [render_cons, List.splitOn_cons_eq_if_modifyHead, if_pos (beq_self_eq_true sep)]
    congr 1
    cases cs with
    | nil =>
      rw [render_nil, List.append_nil, List.splitOn, List.splitOnP_eq_singleton]
      intro x hx
      rw [beq_eq_false_iff_ne]
      rintro rfl
      exact hc hx
    | cons d ds =>
      rw [render_cons, List.splitOn_append_cons_self_of_not_mem hc]
      rw [render_cons, List.splitOn_cons_eq_if_modifyHead, if_pos (beq_self_eq_true sep)] at hrest
      rw [(List.cons.inj hrest).2]

/-- The components of a split do not contain the separator, and their elements come from the path. -/
theorem of_mem_splitOn {path : List α} (h : c ∈ path.splitOn sep) : sep ∉ c ∧ c ⊆ path := by
  induction path generalizing c with
  | nil =>
    rw [List.splitOn_nil, List.mem_singleton] at h
    simp [h]
  | cons x path ih =>
    rw [List.splitOn_cons_eq_if_modifyHead] at h
    split at h
    · rcases List.mem_cons.mp h with rfl | h
      · simp
      · exact (ih h).imp_right (List.subset_cons_of_subset x)
    next hx =>
      cases hsplit : path.splitOn sep with
      | nil => exact absurd hsplit (List.splitOnP_ne_nil _ _)
      | cons d ds =>
        rw [hsplit] at h ih
        rcases List.mem_cons.mp h with rfl | h
        · -- the first component grows by an element that is not the separator
          obtain ⟨hsep, hsub⟩ := ih List.mem_cons_self
          have hne : sep ≠ x := fun heq => hx (beq_iff_eq.mpr heq.symm)
          exact ⟨List.not_mem_cons_of_ne_of_not_mem hne hsep, List.cons_subset_cons x hsub⟩
        · exact (ih (List.mem_cons_of_mem d h)).imp_right (List.subset_cons_of_subset x)

end Troe.Lib
