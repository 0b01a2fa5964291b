/-!
# Programs over an effect signature, with failure and power loss

A `Prog` is a tree of calls into an environment. It ends with a value, with an error of its
own, or not at all: the power may be lost at any call. `Runs` gives the executions against an
environment that answers nondeterministically, and `Prog.wp` is the matching weakest
precondition, so that a crash condition is one more case of the postcondition.
-/

namespace Troe.Lib

/-- An effect signature: the calls a program can make and the answer each one returns. -/
structure Effects where
  Call : Type
  Answer : Call → Type

/-- A program that makes calls of `E`, fails with an `ε`, or returns an `α`. -/
inductive Prog (E : Effects) (ε α : Type) where
  | pure (a : α)
  | throw (e : ε)
  | call (c : E.Call) (k : E.Answer c → Prog E ε α)

/-- How an execution ended: with a value, with the program's own error, or by power loss. -/
inductive Outcome (ε α : Type) where
  | done (a : α)
  | failed (e : ε)
  | lost
deriving DecidableEq

/-- An environment with state `S`: the answers it may give to a call and the state that goes with
each, and the states a power loss during the call may leave behind. -/
structure Env (E : Effects) (S : Type) where
  answer : S → (c : E.Call) → E.Answer c → S → Prop
  lose : S → E.Call → S → Prop

namespace Prog

variable {E : Effects} {ε ε' α β S : Type}

/-- Sequencing; an error of the first program skips the second. -/
def bind : Prog E ε α → (α → Prog E ε β) → Prog E ε β
  | pure a, f => f a
  | throw e, _ => throw e
  | call c k, f => call c fun r => (k r).bind f

instance : Monad (Prog E ε) where
  pure := pure
  bind := bind

/-- Rename the errors of a program. -/
def mapErr (g : ε → ε') : Prog E ε α → Prog E ε' α
  | pure a => pure a
  | throw e => throw (g e)
  | call c k => call c fun r => (k r).mapErr g

/-- Run a program and hand its outcome on, whichever way it went. -/
def attempt : Prog E ε α → Prog E ε' (Except ε α)
  | pure a => pure (.ok a)
  | throw e => pure (.error e)
  | call c k => call c fun r => (k r).attempt

/-- Make one call and return its answer. -/
def perform (c : E.Call) : Prog E ε (E.Answer c) := call c pure

/-- Stop with the given error when `c` holds. -/
def reject (c : Prop) [Decidable c] (e : ε) : Prog E ε Unit := if c then throw e else pure ()

/-- A pure computation that may fail. -/
def ofExcept : Except ε α → Prog E ε α
  | .ok a => pure a
  | .error e => throw e

/-- A missing value is the given error. -/
def ofOption (e : ε) : Option α → Prog E ε α
  | some a => pure a
  | none => throw e

/-- Executions of a program from one state to another. -/
inductive Runs (W : Env E S) : Prog E ε α → S → Outcome ε α → S → Prop
  | pure (a : α) (s : S) : Runs W (pure a) s (.done a) s
  | throw (e : ε) (s : S) : Runs W (throw e) s (.failed e) s
  | call {c : E.Call} {k : E.Answer c → Prog E ε α} {r : E.Answer c} {s s' t : S}
      {o : Outcome ε α} (answered : W.answer s c r s') (rest : Runs W (k r) s' o t) :
      Runs W (call c k) s o t
  | lose {c : E.Call} {k : E.Answer c → Prog E ε α} {s s' : S} (lost : W.lose s c s') :
      Runs W (call c k) s .lost s'

/-- Execute a program against a handler that answers every call. -/
def run (handle : (c : E.Call) → S → E.Answer c × S) : Prog E ε α → S → Outcome ε α × S
  | pure a, s => (.done a, s)
  | throw e, s => (.failed e, s)
  | call c k, s => (k (handle c s).1).run handle (handle c s).2

variable {W : Env E S} {p : Prog E ε α} {s : S} {Q : Outcome ε β → S → Prop} {f : α → Prog E ε β}
  {a : α} {e : ε}

/-- What a handler computes is an execution, when its answers are the environment's. -/
theorem runs_run {handle : (c : E.Call) → S → E.Answer c × S}
    (hhandle : ∀ c s, W.answer s c (handle c s).1 (handle c s).2) (p : Prog E ε α) (s : S) :
    Runs W p s (p.run handle s).1 (p.run handle s).2 := by
  induction p generalizing s with
  | pure a => exact .pure a s
  | throw e => exact .throw e s
  | call c k ih => exact .call (hhandle c s) (ih _ _)

/-- A handler that never changes the state leaves it as it was. -/
theorem run_snd (handle : (c : E.Call) → S → E.Answer c × S) (hhandle : ∀ c s, (handle c s).2 = s)
    (p : Prog E ε α) (s : S) : (p.run handle s).2 = s := by
  induction p generalizing s with
  | pure a => rfl
  | throw e => rfl
  | call c k ih => exact (ih _ _).trans (hhandle c s)

/-- Weakest precondition: every execution from the state ends in `Q`. -/
def wp (W : Env E S) : Prog E ε α → (Outcome ε α → S → Prop) → S → Prop
  | pure a, Q, s => Q (.done a) s
  | throw e, Q, s => Q (.failed e) s
  | call c k, Q, s =>
    (∀ r s', W.answer s c r s' → (k r).wp W Q s') ∧ ∀ s', W.lose s c s' → Q .lost s'

/-- `wp` is sound and complete for `Runs`. -/
theorem wp_iff (W : Env E S) (p : Prog E ε α) (Q : Outcome ε α → S → Prop) (s : S) :
    p.wp W Q s ↔ ∀ o t, Runs W p s o t → Q o t := by
  induction p generalizing s with
  | pure a =>
    constructor
    · rintro h o t ⟨⟩
      exact h
    · intro h
      exact h _ _ (.pure a s)
  | throw e =>
    constructor
    · rintro h o t ⟨⟩
      exact h
    · intro h
      exact h _ _ (.throw e s)
  | call c k ih =>
    constructor
    · rintro ⟨hanswer, hlose⟩ o t hrun
      cases hrun with
      | call answered rest => exact (ih _ _).mp (hanswer _ _ answered) o t rest
      | lose lost => exact hlose _ lost
    · intro h
      refine ⟨fun r s' answered => (ih r s').mpr fun o t rest => ?_, fun s' lost => ?_⟩
      · exact h o t (.call answered rest)
      · exact h _ _ (.lose lost)

/-- Every execution ends in what was established by `wp`. -/
theorem Runs.of_wp {Q : Outcome ε α → S → Prop} {o : Outcome ε α} {s t : S} (hrun : Runs W p s o t)
    (h : p.wp W Q s) : Q o t :=
  (wp_iff W p Q s).mp h o t hrun

/-- A larger postcondition is easier to meet. -/
theorem wp_mono {Q Q' : Outcome ε α → S → Prop} (h : p.wp W Q s) (hQ : ∀ o t, Q o t → Q' o t) :
    p.wp W Q' s := by
  rw [wp_iff] at h ⊢
  exact fun o t hrun => hQ o t (h o t hrun)

/-- The postcondition of the first of two sequenced programs. -/
def andThen (W : Env E S) (f : α → Prog E ε β) (Q : Outcome ε β → S → Prop) :
    Outcome ε α → S → Prop
  | .done a, s => (f a).wp W Q s
  | .failed e, s => Q (.failed e) s
  | .lost, s => Q .lost s

theorem andThen_done (h : (f a).wp W Q s) : andThen W f Q (.done a) s := h

theorem andThen_failed (h : Q (.failed e) s) : andThen W f Q (.failed e) s := h

theorem andThen_lost (h : Q .lost s) : andThen W f Q .lost s := h

/-- Sequencing: establish `andThen` after the first program. -/
theorem wp_bind : (p >>= f).wp W Q s ↔ p.wp W (andThen W f Q) s := by
  show (p.bind f).wp W Q s ↔ _
  induction p generalizing s with
  | pure a => rfl
  | throw e => rfl
  | call c k ih => simp only [bind, wp, ih, andThen]

/-- Renaming the errors moves into the postcondition. -/
theorem wp_mapErr {g : ε → ε'} {Q : Outcome ε' α → S → Prop} :
    (p.mapErr g).wp W Q s ↔ p.wp W (fun
      | .done a => Q (.done a)
      | .failed e => Q (.failed (g e))
      | .lost => Q .lost) s := by
  induction p generalizing s with
  | pure a => rfl
  | throw e => rfl
  | call c k ih => simp only [mapErr, wp, ih]

/-- The error of an attempt is its result. -/
theorem wp_attempt {Q : Outcome ε' (Except ε α) → S → Prop} :
    (p.attempt : Prog E ε' (Except ε α)).wp W Q s ↔ p.wp W (fun
      | .done a => Q (.done (.ok a))
      | .failed e => Q (.done (.error e))
      | .lost => Q .lost) s := by
  induction p generalizing s with
  | pure a => rfl
  | throw e => rfl
  | call c k ih => simp only [attempt, wp, ih]

@[simp] theorem wp_pure {Q : Outcome ε α → S → Prop} :
    (Pure.pure a : Prog E ε α).wp W Q s ↔ Q (.done a) s := Iff.rfl

@[simp] theorem wp_throw {Q : Outcome ε α → S → Prop} :
    (throw e : Prog E ε α).wp W Q s ↔ Q (.failed e) s := Iff.rfl

@[simp] theorem wp_perform {c : E.Call} {Q : Outcome ε (E.Answer c) → S → Prop} :
    (perform c : Prog E ε (E.Answer c)).wp W Q s ↔
      (∀ r s', W.answer s c r s' → Q (.done r) s') ∧ ∀ s', W.lose s c s' → Q .lost s' := Iff.rfl

/-- A pure step neither touches the state nor loses power. -/
theorem wp_ofExcept {x : Except ε α} {Q : Outcome ε α → S → Prop} :
    (ofExcept x : Prog E ε α).wp W Q s ↔
      (∀ a, x = .ok a → Q (.done a) s) ∧ ∀ e, x = .error e → Q (.failed e) s := by
  cases x <;> simp [ofExcept, wp]

theorem wp_ofOption {x : Option α} {Q : Outcome ε α → S → Prop} :
    (ofOption e x : Prog E ε α).wp W Q s ↔
      (∀ a, x = some a → Q (.done a) s) ∧ (x = none → Q (.failed e) s) := by
  cases x <;> simp [ofOption, wp]

/-- A pure step that is known to succeed, in front of a program. -/
theorem wp_ofExcept_bind {x : Except ε α} (h : x = .ok a) (hf : (f a).wp W Q s) :
    (ofExcept x >>= f).wp W Q s := by
  subst h
  exact hf

theorem wp_ofOption_bind {x : Option α} (h : x = some a) (hf : (f a).wp W Q s) :
    (ofOption e x >>= f).wp W Q s := by
  subst h
  exact hf

theorem wp_reject {c : Prop} [Decidable c] {Q : Outcome ε Unit → S → Prop} :
    (reject c e : Prog E ε Unit).wp W Q s ↔ (c → Q (.failed e) s) ∧ (¬ c → Q (.done ()) s) := by
  unfold reject
  split <;> simp_all [wp]

theorem wp_reject_bind {c : Prop} [Decidable c] {f : Unit → Prog E ε β} (h : ¬ c)
    (hf : (f ()).wp W Q s) :
    (reject c e >>= f).wp W Q s := by
  rw [reject, if_neg h]
  exact hf

-- proofs about programs go through the rules above, never through the definition
attribute [irreducible] wp

/-! ## The calls a program can make -/

section Calls

variable {P : E.Call → Prop}

/-- Every call the program makes, whatever the answers before it, is in `P`. -/
def Calls (P : E.Call → Prop) : Prog E ε α → Prop
  | .pure _ => True
  | .throw _ => True
  | .call c k => P c ∧ ∀ r, (k r).Calls P

theorem calls_pure (a : α) : (Pure.pure a : Prog E ε α).Calls P := trivial

variable {f : α → Prog E ε β}

theorem Calls.bind {p : Prog E ε α} (h : p.Calls P) (hf : ∀ a, (f a).Calls P) :
    (p >>= f).Calls P := by
  induction p with
  | pure a => exact hf a
  | throw e => trivial
  | call c k ih => exact ⟨h.1, fun r => ih r (h.2 r)⟩

theorem Calls.mapErr {p : Prog E ε α} (h : p.Calls P) (g : ε → ε') : (p.mapErr g).Calls P := by
  induction p with
  | pure a => trivial
  | throw e => trivial
  | call c k ih => exact ⟨h.1, fun r => ih r (h.2 r)⟩

theorem calls_perform {c : E.Call} (h : P c) : (perform c : Prog E ε (E.Answer c)).Calls P :=
  ⟨h, fun _ => trivial⟩

theorem calls_ofExcept (x : Except ε α) : (ofExcept x : Prog E ε α).Calls P := by
  cases x <;> trivial

theorem calls_ofOption (e : ε) (x : Option α) : (ofOption e x : Prog E ε α).Calls P := by
  cases x <;> trivial

theorem calls_reject (c : Prop) [Decidable c] (e : ε) : (reject c e : Prog E ε Unit).Calls P := by
  unfold reject
  split <;> trivial

/-- A pure step, then a program that may rely on its result. -/
theorem calls_ofExcept_bind {x : Except ε α} (hf : ∀ a, x = .ok a → (f a).Calls P) :
    (ofExcept x >>= f).Calls P := by
  cases x with
  | error e => trivial
  | ok a => exact hf a rfl

theorem calls_foldlM {step : β → α → Prog E ε β} (h : ∀ b a, (step b a).Calls P) (xs : List α)
    (b : β) : (xs.foldlM step b).Calls P := by
  induction xs generalizing b with
  | nil => exact calls_pure b
  | cons x xs ih =>
    exact (h b x).bind ih

end Calls

/-! ## The values a program can return -/

section Returns

variable {P : α → Prop}

/-- Every value the program returns, whatever the answers before it, is in `P`. -/
def Returns (P : α → Prop) : Prog E ε α → Prop
  | .pure a => P a
  | .throw _ => True
  | .call _ k => ∀ r, (k r).Returns P

theorem returns_pure {a : α} (h : P a) : (Pure.pure a : Prog E ε α).Returns P := h

theorem returns_trivial (p : Prog E ε α) : p.Returns fun _ => True := by
  induction p with
  | pure a => trivial
  | throw e => trivial
  | call c k ih => exact ih

variable {p : Prog E ε α} {f : α → Prog E ε β}

theorem Returns.bind {Q : β → Prop} (h : p.Returns P) (hf : ∀ a, P a → (f a).Returns Q) :
    (p >>= f).Returns Q := by
  induction p with
  | pure a => exact hf a h
  | throw e => trivial
  | call c k ih => exact fun r => ih r (h r)

/-- What the second of two programs returns, when nothing is needed of the first. -/
theorem returns_bind {Q : β → Prop} (hf : ∀ a, (f a).Returns Q) : (p >>= f).Returns Q :=
  p.returns_trivial.bind fun a _ => hf a

theorem Returns.mapErr (h : p.Returns P) (g : ε → ε') : (p.mapErr g).Returns P := by
  induction p with
  | pure a => exact h
  | throw e => trivial
  | call c k ih => exact fun r => ih r (h r)

theorem returns_ofExcept {x : Except ε α} (h : ∀ a, x = .ok a → P a) :
    (ofExcept x : Prog E ε α).Returns P := by
  cases x with
  | error e => trivial
  | ok a => exact h a rfl

/-- A check that passed, in front of a program. -/
theorem returns_reject {c : Prop} [Decidable c] {e : ε} :
    (reject c e : Prog E ε Unit).Returns fun _ => ¬ c := by
  unfold reject
  split
  · trivial
  · assumption

/-- Every execution returns what the program can return. -/
theorem Runs.returns {W : Env E S} {a : α} {s t : S} (hrun : Runs W p s (.done a) t)
    (h : p.Returns P) : P a := by
  induction p generalizing s with
  | pure b =>
    cases hrun
    exact h
  | throw e => cases hrun
  | call c k ih =>
    cases hrun with
    | call answered rest => exact ih _ rest (h _)

end Returns

/-! ## Triples

A triple says what a program does under an invariant that has to hold wherever the program may
stop, by returning, by failing or by power loss. -/

/-- A postcondition with one part for each way a program may end. -/
def Ends (done : α → S → Prop) (failed lost : S → Prop) : Outcome ε α → S → Prop
  | .done a, s => done a s
  | .failed _, s => failed s
  | .lost, s => lost s

/-- Started in `pre`, the program keeps `I` wherever it stops and returns in `post`. -/
def Triple (W : Env E S) (I pre : S → Prop) (p : Prog E ε α) (post : α → S → Prop) : Prop :=
  ∀ s, I s → pre s → p.wp W (Ends (fun a t => I t ∧ post a t) I I) s

section Triple

variable {W : Env E S} {I pre : S → Prop} {post : α → S → Prop} {p : Prog E ε α}

theorem triple_pure {a : α} (h : ∀ s, pre s → post a s) :
    Triple W I pre (Pure.pure a : Prog E ε α) post :=
  fun s hs hpre => wp_pure.mpr ⟨hs, h s hpre⟩

theorem Triple.mono {pre' : S → Prop} {post' : α → S → Prop} (h : Triple W I pre p post)
    (hpre : ∀ s, pre' s → pre s) (hpost : ∀ a s, post a s → post' a s) :
    Triple W I pre' p post' := by
  intro s hs hs'
  refine wp_mono (h s hs (hpre s hs')) fun o t ho => ?_
  cases o with
  | done a => exact ⟨ho.1, hpost a t ho.2⟩
  | failed e => exact ho
  | lost => exact ho

theorem Triple.bind {f : α → Prog E ε β} {post' : β → S → Prop} (h : Triple W I pre p post)
    (hf : ∀ a, Triple W I (post a) (f a) post') : Triple W I pre (p >>= f) post' := by
  intro s hs hpre
  refine wp_bind.mpr (wp_mono (h s hs hpre) fun o t ho => ?_)
  cases o with
  | done a => exact hf a t ho.1 ho.2
  | failed e => exact ho
  | lost => exact ho

theorem Triple.mapErr {g : ε → ε'} (h : Triple W I pre p post) :
    Triple W I pre (p.mapErr g) post := by
  intro s hs hpre
  refine wp_mapErr.mpr (wp_mono (h s hs hpre) fun o t ho => ?_)
  cases o with
  | done a => exact ho
  | failed e => exact ho
  | lost => exact ho

/-- A fact about the start that does not depend on the state. -/
theorem triple_of_fact {c : Prop} (h : c → Triple W I pre p post) :
    Triple W I (fun s => pre s ∧ c) p post :=
  fun s hs hpre => h hpre.2 s hs hpre.1

end Triple

end Prog

end Troe.Lib
