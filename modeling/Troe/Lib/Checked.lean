import Mathlib.Algebra.Ring.Nat
import Mathlib.Data.List.Basic
import Mathlib.Data.List.Induction

/-!
# Checked arithmetic and early exits

Machine arithmetic on `ℕ` that reports overflow, and the two ways a fallible function leaves
early: on a condition, and on a missing value.
-/

namespace Troe.Lib

/-- `width`-bit addition that reports overflow. -/
def checkedAdd (width a b : ℕ) : Option ℕ := if a + b < 2 ^ width then some (a + b) else none

/-- `width`-bit multiplication that reports overflow. -/
def checkedMul (width a b : ℕ) : Option ℕ := if a * b < 2 ^ width then some (a * b) else none

/-- Subtraction that reports a negative result. -/
def checkedSub (a b : ℕ) : Option ℕ := if b ≤ a then some (a - b) else none

@[simp] theorem checkedAdd_eq_some {width a b c : ℕ} :
    checkedAdd width a b = some c ↔ a + b < 2 ^ width ∧ a + b = c := by
  simp [checkedAdd]

@[simp] theorem checkedMul_eq_some {width a b c : ℕ} :
    checkedMul width a b = some c ↔ a * b < 2 ^ width ∧ a * b = c := by
  simp [checkedMul]

@[simp] theorem checkedSub_eq_some {a b c : ℕ} : checkedSub a b = some c ↔ b ≤ a ∧ a - b = c := by
  simp [checkedSub]

section

variable {ε α β : Type}

/-- Leave with the error when `c` holds. -/
def rejectIf (c : Prop) [Decidable c] (e : ε) : Except ε Unit := if c then .error e else .ok ()

/-- Leave with the error when there is no value. -/
def okOr (x : Option α) (e : ε) : Except ε α := x.elim (.error e) .ok

variable {x : Except ε α} {f : α → Except ε β}

theorem bind_eq_ok {b : β} : x >>= f = .ok b ↔ ∃ a, x = .ok a ∧ f a = .ok b := by
  cases x with
  | error e => simp [bind, Except.bind]
  | ok a => simp [bind, Except.bind]

/-- What holds of every value that the second part returns, whatever the first part returned. -/
theorem forall_bind_ok {P : β → Prop} (h : ∀ a b, f a = .ok b → P b) :
    ∀ b, x >>= f = .ok b → P b := by
  intro b hb
  obtain ⟨a, -, ha⟩ := bind_eq_ok.mp hb
  exact h a b ha

@[simp] theorem rejectIf_eq_ok {c : Prop} [Decidable c] {e : ε} {u : Unit} :
    rejectIf c e = .ok u ↔ ¬ c := by
  unfold rejectIf
  split <;> simp_all

@[simp] theorem mapError_eq_ok {ε' : Type} {f : ε → ε'} {a : α} :
    x.mapError f = .ok a ↔ x = .ok a := by
  cases x <;> simp [Except.mapError]

@[simp] theorem okOr_eq_ok {x : Option α} {e : ε} {a : α} : okOr x e = .ok a ↔ x = some a := by
  cases x <;> simp [okOr]

end

/-- When checked and fallible steps succeed, as one rule set. -/
theorem ok_rules : type_of% @bind_eq_ok ∧ type_of% @rejectIf_eq_ok ∧ type_of% @okOr_eq_ok ∧
    type_of% @checkedAdd_eq_some ∧ type_of% @checkedMul_eq_some ∧ type_of% @checkedSub_eq_some :=
  ⟨@bind_eq_ok, @rejectIf_eq_ok, @okOr_eq_ok, @checkedAdd_eq_some, @checkedMul_eq_some,
    @checkedSub_eq_some⟩

/-! ## Fallible loops

A loop that may leave early is `List.foldlM` in `Except`. What every turn keeps holds after the
loop. -/

section

variable {ε α σ : Type}

variable {items : List α} {step : σ → α → Except ε σ} {f : α → Except ε σ}

theorem foldlM_concat_eq_ok {item : α} {s t : σ} (h : (items ++ [item]).foldlM step s = .ok t) :
    ∃ s', items.foldlM step s = .ok s' ∧ step s' item = .ok t := by
  rw [List.foldlM_append, bind_eq_ok] at h
  obtain ⟨s', hfirst, h⟩ := h
  rw [List.foldlM_cons, bind_eq_ok] at h
  obtain ⟨t', hlast, hnil⟩ := h
  cases hnil
  exact ⟨s', hfirst, hlast⟩

/-- What every step of a fallible loop keeps holds after the loop. The property may speak of the
items done so far. -/
theorem foldlM_ok_induction {P : List α → σ → Prop} {s t : σ} (h : items.foldlM step s = .ok t)
    (h0 : P [] s)
    (hstep : ∀ done item s s', P done s → step s item = .ok s' → P (done ++ [item]) s') :
    P items t := by
  induction items using List.reverseRecOn generalizing t with
  | nil =>
    cases h
    exact h0
  | append_singleton items item ih =>
    obtain ⟨s', hfirst, hlast⟩ := foldlM_concat_eq_ok h
    exact hstep items item s' t (ih hfirst) hlast

/-- The same for a loop over the indices below `n`, where the property may speak of the index. -/
theorem foldlM_range_ok_induction {step : σ → ℕ → Except ε σ} {P : ℕ → σ → Prop} {n : ℕ} {s t : σ}
    (h : (List.range n).foldlM step s = .ok t) (h0 : P 0 s)
    (hstep : ∀ i s s', i < n → P i s → step s i = .ok s' → P (i + 1) s') : P n t := by
  induction n generalizing t with
  | zero =>
    cases h
    exact h0
  | succ n ih =>
    rw [List.range_succ] at h
    obtain ⟨s', hfirst, hlast⟩ := foldlM_concat_eq_ok h
    refine hstep n s' t (Nat.lt_succ_self n) (ih hfirst ?_) hlast
    exact fun i s s' hi => hstep i s s' (Nat.lt_succ_of_lt hi)

/-- A loop that fails does so at an item, in a state that the turns before it led to. -/
theorem foldlM_error_induction {P : σ → Prop} {s : σ} {error : ε}
    (h : items.foldlM step s = .error error) (h0 : P s)
    (hstep : ∀ s item s', P s → step s item = .ok s' → P s') :
    ∃ s, P s ∧ ∃ item ∈ items, step s item = .error error := by
  induction items generalizing s with
  | nil => cases h
  | cons item items ih =>
    rw [List.foldlM_cons] at h
    cases hfirst : step s item with
    | error error' =>
      rw [hfirst] at h
      cases h
      exact ⟨s, h0, item, List.mem_cons_self, hfirst⟩
    | ok s' =>
      rw [hfirst] at h
      obtain ⟨s'', hs'', item', hitem', herror⟩ := ih h (hstep s item s' h0 hfirst)
      exact ⟨s'', hs'', item', List.mem_cons_of_mem _ hitem', herror⟩

/-- Loops whose steps agree on the items agree. -/
theorem foldlM_congr_mem {step step' : σ → α → Except ε σ}
    (h : ∀ item ∈ items, ∀ s, step s item = step' s item) (s : σ) :
    items.foldlM step s = items.foldlM step' s := by
  induction items generalizing s with
  | nil => rfl
  | cons item items ih =>
    obtain ⟨hitem, hitems⟩ := List.forall_mem_cons.mp h
    rw [List.foldlM_cons, hitem]
    exact congrArg _ (funext (ih hitems))

/-- A loop of checks passes when every check does. -/
theorem forM_eq_ok {f : α → Except ε Unit} :
    items.forM f = .ok () ↔ ∀ item ∈ items, f item = .ok () := by
  induction items with
  | nil => simp [List.forM, pure, Except.pure]
  | cons item items ih =>
    rw [List.forall_mem_cons, ← ih]
    show (f item >>= fun _ => items.forM f) = .ok () ↔ _
    rw [bind_eq_ok]
    constructor
    · rintro ⟨⟨⟩, hfirst, hrest⟩
      exact ⟨hfirst, hrest⟩
    · rintro ⟨hfirst, hrest⟩
      exact ⟨(), hfirst, hrest⟩

/-- A fallible map returns what its items are mapped to. -/
theorem mem_mapM_ok {results : List σ} (h : items.mapM f = .ok results) (result : σ) :
    result ∈ results ↔ ∃ item ∈ items, f item = .ok result := by
  induction items generalizing results with
  | nil =>
    cases h
    simp
  | cons item items ih =>
    rw [List.mapM_cons, bind_eq_ok] at h
    obtain ⟨first, hitem, h⟩ := h
    obtain ⟨rest, hrest, h⟩ := bind_eq_ok.mp h
    cases h
    rw [List.mem_cons, ih hrest, List.exists_mem_cons_iff, hitem, Except.ok.injEq, eq_comm]

theorem mapM_ok_of_forall (h : ∀ item ∈ items, ∃ result, f item = .ok result) :
    ∃ results, items.mapM f = .ok results := by
  induction items with
  | nil => exact ⟨[], rfl⟩
  | cons item items ih =>
    obtain ⟨⟨result, hresult⟩, hitems⟩ := List.forall_mem_cons.mp h
    obtain ⟨results, hresults⟩ := ih hitems
    exact ⟨result :: results, by rw [List.mapM_cons, hresult, hresults]; rfl⟩

end

/-! ## Places in lists -/

/-- Where an element can stand in a list that has grown by one. -/
theorem concat_eq_append_cons {α : Type} {l pre post : List α} {x y : α} :
    l ++ [x] = pre ++ y :: post ↔
      (post = [] ∧ l = pre ∧ x = y) ∨ ∃ post', post = post' ++ [x] ∧ l = pre ++ y :: post' := by
  rcases List.eq_nil_or_concat' post with rfl | ⟨post', last, rfl⟩
  · simp
  · rw [← List.cons_append, ← List.append_assoc, List.append_singleton_inj, and_comm, @eq_comm _ x]
    simp

/-- The numbers below `i` come before it in a range. -/
theorem mem_of_range_eq_append {n i j : ℕ} {xs ys : List ℕ} (h : List.range n = xs ++ i :: ys)
    (hj : j < i) : j ∈ xs := by
  rw [List.range_eq_range', List.range'_eq_append_iff] at h
  obtain ⟨k, -, rfl, h⟩ := h
  obtain ⟨rfl, -⟩ := List.range'_eq_cons_iff.mp h.symm
  simpa using hj

end Troe.Lib
