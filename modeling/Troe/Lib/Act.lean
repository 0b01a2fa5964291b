import Mathlib.Data.List.Basic

/-!
# Fallible operations on a state

An `Act` reads and writes a state and may leave early with an error. What it wrote before it left
stays written, as in a method that returns through the question-mark operator. `Act.wp` is the
weakest precondition, with one postcondition for each way out.
-/

namespace Troe.Lib

/-- An operation on states `σ` that returns an `α` or leaves with an `ε`. -/
def Act (σ ε α : Type) : Type := σ → Except ε α × σ

namespace Act

variable {σ ε α β : Type}

/-- Sequencing; an error of the first operation skips the second. -/
def bind (x : Act σ ε α) (f : α → Act σ ε β) : Act σ ε β := fun s =>
  match x s with
  | (.ok a, s') => f a s'
  | (.error e, s') => (.error e, s')

instance : Monad (Act σ ε) where
  pure a := fun s => (.ok a, s)
  bind := bind

/-- The current state. -/
def get : Act σ ε σ := fun s => (.ok s, s)

/-- Change the state. -/
def modify (f : σ → σ) : Act σ ε Unit := fun s => (.ok (), f s)

/-- Leave with an error. -/
def fail (e : ε) : Act σ ε α := fun s => (.error e, s)

/-- Leave with the error when `c` holds. -/
def reject (c : Prop) [Decidable c] (e : ε) : Act σ ε Unit := if c then fail e else pure ()

/-- A computation that does not touch the state. -/
def ofExcept : Except ε α → Act σ ε α
  | .ok a => pure a
  | .error e => fail e

/-- Leave with the error when there is no value. -/
def okOr (x : Option α) (e : ε) : Act σ ε α := x.elim (fail e) pure

/-- Run an operation and hand its outcome on, whichever way it went. -/
def attempt (x : Act σ ε α) : Act σ ε (Except ε α) := fun s => (.ok (x s).1, (x s).2)

/-- `for x in xs { body(x)? }`. -/
def forEach (xs : List α) (body : α → Act σ ε Unit) : Act σ ε Unit :=
  match xs with
  | [] => pure ()
  | x :: xs => do
    body x
    forEach xs body

/-- A loop over `xs` whose body either continues or returns a value. -/
def firstSome (xs : List α) (body : α → Act σ ε (Option β)) : Act σ ε (Option β) :=
  match xs with
  | [] => pure none
  | x :: xs => do
    match ← body x with
    | some b => return some b
    | none => firstSome xs body

/-- `for x in xs { acc = body(acc, x)? }`. -/
def forFold (xs : List α) (acc : β) (body : β → α → Act σ ε β) : Act σ ε β :=
  match xs with
  | [] => pure acc
  | x :: xs => do
    let acc ← body acc x
    forFold xs acc body

/-! ## Weakest preconditions -/

/-- The operation ends in `Q` when it returns and in `R` when it leaves. -/
def wp (x : Act σ ε α) (Q : α → σ → Prop) (R : ε → σ → Prop) (s : σ) : Prop :=
  match x s with
  | (.ok a, s') => Q a s'
  | (.error e, s') => R e s'

/-- Whichever way the operation ends, the state satisfies `P`. -/
abbrev always (x : Act σ ε α) (P : σ → Prop) (s : σ) : Prop := x.wp (fun _ => P) (fun _ => P) s

variable {Q : α → σ → Prop} {R : ε → σ → Prop} {s : σ}

variable {x : Act σ ε α} {a : α} {xs : List β}

theorem bind_of_ok {s' : σ} (h : x s = (.ok a, s')) (f : α → Act σ ε β) : (x >>= f) s = f a s' := by
  show Act.bind x f s = _
  rw [Act.bind, h]

theorem wp_iff :
    x.wp Q R s ↔ (∀ a s', x s = (.ok a, s') → Q a s') ∧ ∀ e s', x s = (.error e, s') → R e s' := by
  unfold wp
  rcases x s with ⟨e | a, s'⟩
  · simp
  · simp

theorem wp_mono {Q' : α → σ → Prop} {R' : ε → σ → Prop} (h : x.wp Q R s)
    (hQ : ∀ a s', Q a s' → Q' a s') (hR : ∀ e s', R e s' → R' e s') : x.wp Q' R' s := by
  unfold wp at *
  split
  next heq =>
    rw [heq] at h
    exact hQ _ _ h
  next heq =>
    rw [heq] at h
    exact hR _ _ h

/-- Only what holds on return is weakened. -/
theorem wp_ok_mono {Q' : α → σ → Prop} (h : x.wp Q R s) (hQ : ∀ a s', Q a s' → Q' a s') :
    x.wp Q' R s :=
  wp_mono h hQ fun _ _ hR => hR

theorem always_mono {P P' : σ → Prop} (h : x.always P s) (hP : ∀ s', P s' → P' s') :
    x.always P' s :=
  wp_mono h (fun _ => hP) fun _ => hP

/-- What holds of how an operation ends. -/
theorem of_wp {P : Except ε α → σ → Prop}
    (h : x.wp (fun a => P (.ok a)) (fun e => P (.error e)) s) : P (x s).1 (x s).2 := by
  unfold wp at h
  split at h
  next heq => rwa [heq]
  next heq => rwa [heq]

/-- What holds of the state, whichever way an operation ends. -/
theorem snd_of_wp {P : σ → Prop} (h : x.always P s) : P (x s).2 :=
  of_wp (P := fun _ => P) h

/-- What holds after an operation that has returned. -/
theorem of_wp_ok (h : x.wp Q R s) (hok : (x s).1 = .ok a) : Q a (x s).2 := by
  unfold wp at h
  split at h
  next heq =>
    rw [heq] at hok ⊢
    exact Except.ok.inj hok ▸ h
  next heq =>
    rw [heq] at hok
    cases hok

theorem wp_trivial : x.wp (fun _ _ => True) (fun _ _ => True) s :=
  wp_iff.mpr ⟨fun _ _ _ => trivial, fun _ _ _ => trivial⟩

/-- An operation that never leaves early returns. -/
theorem wp_returns : x.wp Q (fun _ _ => False) s ↔ ∃ a s', x s = (.ok a, s') ∧ Q a s' := by
  unfold wp
  rcases x s with ⟨e | a, s'⟩
  · simp
  · simp

/-- How an operation ends that can end in one way only. -/
theorem eq_ok {s' : σ} (h : x.wp (fun b t => b = a ∧ t = s') (fun _ _ => False) s) :
    x s = (.ok a, s') := by
  unfold wp at h
  split at h
  next heq => rw [heq, h.1, h.2]
  · exact h.elim

/-- What an operation returns that can return one value only. -/
theorem fst_eq_ok (h : x.wp (fun b _ => b = a) (fun _ _ => False) s) : (x s).1 = .ok a := by
  unfold wp at h
  split at h
  next heq => rw [heq, h]
  · exact h.elim

/-- An operation that leaves early in every case and changes nothing. -/
theorem eq_error (h : x.wp (fun _ _ => False) (fun _ s' => s' = s) s) :
    ∃ e, x s = (.error e, s) := by
  unfold wp at h
  split at h
  · exact h.elim
  next e s' heq => exact ⟨e, h ▸ heq⟩

/-- An operation that leaves early in every case. -/
theorem fst_eq_error (h : x.wp (fun _ _ => False) (fun _ _ => True) s) :
    ∃ e, (x s).1 = .error e := by
  unfold wp at h
  split at h
  · exact h.elim
  next e s' heq => exact ⟨e, congrArg Prod.fst heq⟩

@[simp] theorem wp_pure : (pure a : Act σ ε α).wp Q R s ↔ Q a s := Iff.rfl

@[simp] theorem wp_get {Q : σ → σ → Prop} : (get : Act σ ε σ).wp Q R s ↔ Q s s := Iff.rfl

@[simp] theorem wp_modify {f : σ → σ} {Q : Unit → σ → Prop} :
    (modify f : Act σ ε Unit).wp Q R s ↔ Q () (f s) := Iff.rfl

@[simp] theorem wp_fail {e : ε} : (fail e : Act σ ε α).wp Q R s ↔ R e s := Iff.rfl

@[simp] theorem wp_bind {x : Act σ ε β} {f : β → Act σ ε α} :
    (x >>= f).wp Q R s ↔ x.wp (fun b s' => (f b).wp Q R s') R s := by
  show (x.bind f).wp Q R s ↔ _
  unfold wp bind
  rcases x s with ⟨e | b, s'⟩
  · rfl
  · rfl

@[simp] theorem wp_reject {c : Prop} [Decidable c] {e : ε} {Q : Unit → σ → Prop} :
    (reject c e : Act σ ε Unit).wp Q R s ↔ (c → R e s) ∧ (¬ c → Q () s) := by
  unfold reject
  split <;> simp_all

/-- An operation that never leaves early passes its check. -/
theorem wp_reject_returns {c : Prop} [Decidable c] {e : ε} {Q : Unit → σ → Prop} :
    (reject c e : Act σ ε Unit).wp Q (fun _ _ => False) s ↔ ¬ c ∧ Q () s := by
  rw [wp_reject]
  exact ⟨fun h => ⟨h.1, h.2 h.1⟩, fun h => ⟨h.1, fun _ => h.2⟩⟩

@[simp] theorem wp_ofExcept {x : Except ε α} :
    (ofExcept x : Act σ ε α).wp Q R s ↔ (∀ a, x = .ok a → Q a s) ∧ ∀ e, x = .error e → R e s := by
  cases x <;> simp [ofExcept]

@[simp] theorem wp_okOr {x : Option α} {e : ε} :
    (okOr x e : Act σ ε α).wp Q R s ↔ (∀ a, x = some a → Q a s) ∧ (x = none → R e s) := by
  cases x <;> simp [okOr]

@[simp] theorem wp_attempt {Q : Except ε α → σ → Prop} :
    (attempt x).wp Q R s ↔ x.wp (fun a => Q (.ok a)) (fun e => Q (.error e)) s := by
  unfold wp attempt
  rcases x s with ⟨e | a, s'⟩
  · rfl
  · rfl

theorem wp_ite {c : Prop} [Decidable c] {x y : Act σ ε α} :
    (if c then x else y).wp Q R s ↔ (c → x.wp Q R s) ∧ (¬ c → y.wp Q R s) := by
  split <;> simp_all

/-- Two operations one after the other keep what each of them keeps. -/
theorem always_bind {P : σ → Prop} {x : Act σ ε β} {f : β → Act σ ε α} (hx : x.always P s)
    (hf : ∀ b s', P s' → (f b).always P s') : (x >>= f).always P s :=
  wp_bind.mpr (wp_ok_mono hx hf)

/-- Whichever way the operation ends, it keeps every invariant of the family. -/
def Keeps {ι : Type} (I : ι → σ → Prop) (x : Act σ ε α) : Prop :=
  ∀ i s, I i s → x.wp (fun _ => I i) (fun _ => I i) s

section Keeps

variable {ι : Type} {I : ι → σ → Prop} {e : ε} {f : β → Act σ ε α}

theorem Keeps.pure (a : α) : Keeps I (pure a : Act σ ε α) := fun _ _ h => h

/-- What each of two operations keeps, the two keep one after the other. The rules below are this one
for the operations that leave the state alone. -/
theorem Keeps.bind {x : Act σ ε β} (hx : Keeps I x) (hf : ∀ b, Keeps I (f b)) : Keeps I (x >>= f) :=
  fun i s h => always_bind (hx i s h) fun b => hf b i

theorem Keeps.get {f : σ → Act σ ε α} (hf : ∀ s, Keeps I (f s)) : Keeps I (Act.get >>= f) :=
  .bind (fun _ _ h => h) hf

theorem Keeps.reject {c : Prop} [Decidable c] {f : Unit → Act σ ε α} (hf : ∀ a, Keeps I (f a)) :
    Keeps I (Act.reject c e >>= f) :=
  .bind (fun _ _ h => wp_reject.mpr ⟨fun _ => h, fun _ => h⟩) hf

theorem Keeps.ofExcept {x : Except ε β} (hf : ∀ b, Keeps I (f b)) :
    Keeps I (Act.ofExcept x >>= f) :=
  .bind (fun _ _ h => wp_ofExcept.mpr ⟨fun _ _ => h, fun _ _ => h⟩) hf

theorem Keeps.okOr {x : Option β} (hf : ∀ b, Keeps I (f b)) : Keeps I (Act.okOr x e >>= f) :=
  .bind (fun _ _ h => wp_okOr.mpr ⟨fun _ _ => h, fun _ => h⟩) hf

theorem Keeps.ite {c : Prop} [Decidable c] {x y : Act σ ε α} (hx : Keeps I x) (hy : Keeps I y) :
    Keeps I (if c then x else y) := by
  split
  · exact hx
  · exact hy

end Keeps

/-- A loop whose bodies keep an invariant over the elements already visited. -/
theorem wp_forEach {body : β → Act σ ε Unit} {Q : Unit → σ → Prop} (I : List β → σ → Prop)
    (hstart : I [] s)
    (hbody : ∀ visited x t, x ∈ xs → I visited t →
      (body x).wp (fun _ t' => I (visited ++ [x]) t') R t) (hend : ∀ t, I xs t → Q () t) :
    (forEach xs body).wp Q R s := by
  suffices h : ∀ visited rest t, xs = visited ++ rest → I visited t →
      (forEach rest body).wp Q R t from h [] xs s rfl hstart
  intro visited rest
  induction rest generalizing visited with
  | nil =>
    intro t hxs hI
    rw [List.append_nil] at hxs
    subst hxs
    exact hend t hI
  | cons x rest ih =>
    intro t hxs hI
    rw [forEach, wp_bind]
    refine wp_ok_mono (hbody visited x t (by simp [hxs]) hI) fun _ t' hI' => ?_
    exact ih (visited ++ [x]) t' (by simp [hxs]) hI'

/-- A loop with an accumulator, whose bodies keep an invariant. -/
theorem wp_forFold {acc : α} {body : α → β → Act σ ε α} (I : α → σ → Prop) (hstart : I acc s)
    (hbody : ∀ acc x t, x ∈ xs → I acc t → (body acc x).wp I R t) :
    (forFold xs acc body).wp I R s := by
  induction xs generalizing acc s with
  | nil => exact hstart
  | cons x xs ih =>
    rw [forFold, wp_bind]
    refine wp_ok_mono (hbody acc x s (List.mem_cons_self ..) hstart) fun acc' t hI => ?_
    exact ih hI fun acc'' y t' hy => hbody acc'' y t' (List.mem_cons_of_mem x hy)

/-- A search whose bodies leave the state alone when they continue. `P` is what is then known of
the elements passed over. -/
theorem wp_firstSome {body : β → Act σ ε (Option α)} {Q : Option α → σ → Prop} (P : β → Prop)
    (hbody : ∀ passed x rest, xs = passed ++ x :: rest → (∀ y ∈ passed, P y) →
      (body x).wp (fun r t => (r = none → t = s ∧ P x) ∧ ∀ b, r = some b → Q (some b) t) R s)
    (hend : (∀ x ∈ xs, P x) → Q none s) : (firstSome xs body).wp Q R s := by
  suffices h : ∀ passed rest, xs = passed ++ rest → (∀ y ∈ passed, P y) →
      (firstSome rest body).wp Q R s from h [] xs rfl (by simp)
  intro passed rest
  induction rest generalizing passed with
  | nil =>
    intro hxs hpassed
    rw [List.append_nil] at hxs
    subst hxs
    exact hend hpassed
  | cons x rest ih =>
    intro hxs hpassed
    rw [firstSome, wp_bind]
    refine wp_ok_mono (hbody passed x rest hxs hpassed) fun r t hr => ?_
    cases r with
    | some b => exact hr.2 b rfl
    | none =>
      obtain ⟨rfl, hx⟩ := hr.1 rfl
      apply ih (passed ++ [x]) (by simp [hxs])
      intro y hy
      rcases List.mem_append.mp hy with hy | hy
      · exact hpassed y hy
      · rw [List.mem_singleton.mp hy]
        exact hx

end Act

open Act in
/-- The rules of `wp` for the operations without a loop, as one rule set. -/
theorem wp_rules : type_of% @wp_pure ∧ type_of% @wp_get ∧ type_of% @wp_modify ∧ type_of% @wp_fail ∧
    type_of% @wp_bind ∧ type_of% @wp_reject ∧ type_of% @wp_ofExcept ∧ type_of% @wp_okOr :=
  ⟨@wp_pure, @wp_get, @wp_modify, @wp_fail, @wp_bind, @wp_reject, @wp_ofExcept, @wp_okOr⟩

/-- The same, with the parts dropped that hold wherever the operation ends. -/
theorem wp_quiet : type_of% @wp_rules ∧ type_of% @implies_true.{0} ∧ type_of% @implies_true.{1} ∧
    type_of% @and_true ∧ type_of% @true_and :=
  ⟨wp_rules, implies_true, implies_true, and_true, true_and⟩

/-- The same, for a lookup with a known result. -/
theorem wp_known : type_of% @wp_rules ∧ type_of% @Option.some.injEq.{0} ∧
    type_of% @Option.some_ne_none.{0} ∧ type_of% @false_imp_iff ∧ type_of% @and_true ∧
    type_of% @forall_eq'.{1} :=
  ⟨wp_rules, Option.some.injEq, @Option.some_ne_none, false_imp_iff, and_true, @forall_eq'⟩

end Troe.Lib
