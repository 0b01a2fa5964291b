import Mathlib.Data.List.Basic

/-!
# Media with a volatile write cache

Blocks are written atomically into a cache. A flush makes the cached contents durable; a power
loss keeps an arbitrary subset of the block writes issued since the last flush, in the order they
were issued.
-/

namespace Troe.Lib

variable {A B : Type}

section

variable [DecidableEq A]

/-- Apply block writes to block contents, oldest first. -/
def applyWrites (ws : List (A × B)) (d : A → B) : A → B :=
  ws.foldl (fun d w => Function.update d w.1 w.2) d

@[simp] theorem applyWrites_nil (d : A → B) : applyWrites [] d = d := rfl

@[simp] theorem applyWrites_cons (w : A × B) (ws : List (A × B)) (d : A → B) :
    applyWrites (w :: ws) d = applyWrites ws (Function.update d w.1 w.2) := rfl

theorem applyWrites_append (ws vs : List (A × B)) (d : A → B) :
    applyWrites (ws ++ vs) d = applyWrites vs (applyWrites ws d) :=
  List.foldl_append

/-- A block no write names keeps its contents. -/
theorem applyWrites_of_forall_ne {ws : List (A × B)} {a : A} (h : ∀ w ∈ ws, w.1 ≠ a)
    (d : A → B) : applyWrites ws d a = d a := by
  induction ws generalizing d with
  | nil => rfl
  | cons w ws ih =>
    rw [applyWrites_cons, ih (fun v hv => h v (List.mem_cons_of_mem _ hv))]
    exact Function.update_of_ne (h w List.mem_cons_self).symm _ _

/-- A written block holds what it held before or what one of the writes put there. -/
theorem applyWrites_mem (ws : List (A × B)) (d : A → B) (a : A) :
    applyWrites ws d a = d a ∨ (a, applyWrites ws d a) ∈ ws := by
  induction ws generalizing d with
  | nil => exact .inl rfl
  | cons w ws ih =>
    rw [applyWrites_cons]
    rcases ih (Function.update d w.1 w.2) with heq | hmem
    · rw [heq]
      by_cases hw : a = w.1
      · subst hw
        exact .inr (by simp)
      · exact .inl (Function.update_of_ne hw _ _)
    · exact .inr (List.mem_cons_of_mem _ hmem)

end

/-- Block contents and the writes the cache has not made durable yet. -/
structure Media (A B : Type) where
  durable : A → B
  pending : List (A × B)

namespace Media

/-- Issue block writes. -/
def write (m : Media A B) (ws : List (A × B)) : Media A B :=
  { m with pending := m.pending ++ ws }

@[simp] theorem write_durable (m : Media A B) (ws : List (A × B)) :
    (m.write ws).durable = m.durable := rfl

@[simp] theorem write_pending (m : Media A B) (ws : List (A × B)) :
    (m.write ws).pending = m.pending ++ ws := rfl

variable [DecidableEq A]

/-- What a read returns: the durable contents under the cached writes. -/
def view (m : Media A B) : A → B := applyWrites m.pending m.durable

/-- Make every cached write durable. -/
def flush (m : Media A B) : Media A B := { durable := m.view, pending := [] }

/-- Media that power loss may leave behind. -/
def Survives (m m' : Media A B) : Prop :=
  ∃ ws, ws.Sublist m.pending ∧ m' = { durable := applyWrites ws m.durable, pending := [] }

/-- After power loss a block holds its durable contents or one of the cached writes to it. -/
theorem Survives.block {m m' : Media A B} (h : m.Survives m') (a : A) :
    m'.durable a = m.durable a ∨ (a, m'.durable a) ∈ m.pending := by
  obtain ⟨ws, hsub, rfl⟩ := h
  rcases applyWrites_mem ws m.durable a with heq | hmem
  · exact .inl heq
  · exact .inr (hsub.subset hmem)

theorem Survives.pending_eq {m m' : Media A B} (h : m.Survives m') : m'.pending = [] := by
  obtain ⟨ws, -, rfl⟩ := h
  rfl

/-- With an empty cache power loss changes nothing. -/
theorem Survives.eq_of_pending_nil {m m' : Media A B} (h : m.Survives m')
    (hp : m.pending = []) : m' = m := by
  obtain ⟨ws, hsub, rfl⟩ := h
  rw [hp, List.sublist_nil] at hsub
  cases m
  simp_all

/-- A read returns the durable contents or one of the cached writes. -/
theorem view_block (m : Media A B) (a : A) : m.view a = m.durable a ∨ (a, m.view a) ∈ m.pending :=
  applyWrites_mem m.pending m.durable a

/-- A block without cached writes is read as it is durable. -/
theorem view_of_forall_ne {m : Media A B} {a : A} (h : ∀ w ∈ m.pending, w.1 ≠ a) :
    m.view a = m.durable a :=
  applyWrites_of_forall_ne h _

@[simp] theorem flush_pending (m : Media A B) : m.flush.pending = [] := rfl

/-- The block written last is the one read back. -/
@[simp] theorem view_write_self (m : Media A B) (a : A) (b : B) : (m.write [(a, b)]).view a = b := by
  simp [view, applyWrites_append]

end Media

end Troe.Lib
