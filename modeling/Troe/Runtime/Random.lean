import Troe.Lib.Checked
import Mathlib.Data.Int.CardIntervalMod
import Mathlib.Data.Nat.Periodic

/-!
# Bounded draws (`troe-random`)

`uniform_u64` draws raw values until one is at least a threshold and returns its remainder. The
threshold is computed in wrapping arithmetic; it leaves out exactly the values that would make some
results more frequent than others. The generator itself is the list of the raw values it yields
before it is exhausted.
-/

namespace Troe.Random

open Lib
open Finset (Ico range)

/-- Failures of the generator. -/
inductive Error where
  | invalidSeed
  | invalidBound
  | exhausted
deriving DecidableEq

/-- `u64::wrapping_neg`. -/
def wrappingNeg (value : ℕ) : ℕ := (2 ^ 64 - value) % 2 ^ 64

/-- The loop of `uniform_u64`. -/
def drawLoop (upperExclusive threshold : ℕ) : List ℕ → Except Error ℕ
  | [] => .error .exhausted
  | value :: draws =>
    if threshold ≤ value then .ok (value % upperExclusive)
    else drawLoop upperExclusive threshold draws

/-- `Generator::uniform_u64`. -/
def uniformU64 (upperExclusive : ℕ) (draws : List ℕ) : Except Error ℕ := do
  rejectIf (upperExclusive = 0) .invalidBound
  drawLoop upperExclusive (wrappingNeg upperExclusive % upperExclusive) draws

variable {bound : ℕ}

/-- The threshold is what the bound leaves over of the 64-bit values. -/
theorem threshold_eq (hpos : 0 < bound) (hword : bound < 2 ^ 64) :
    wrappingNeg bound % bound = 2 ^ 64 % bound := by
  rw [wrappingNeg, Nat.mod_eq_of_lt (a := 2 ^ 64 - bound) (by omega)]
  exact (Nat.mod_eq_sub_mod hword.le).symm

theorem uniformU64_cons (hpos : 0 < bound) (hword : bound < 2 ^ 64) (raw : ℕ) (draws : List ℕ) :
    uniformU64 bound (raw :: draws) =
      if 2 ^ 64 % bound ≤ raw then .ok (raw % bound) else uniformU64 bound draws := by
  simp only [uniformU64, rejectIf, if_neg hpos.ne', drawLoop, threshold_eq hpos hword]
  rfl

/-- A raw value ends the draw. -/
def accepts (upperExclusive raw : ℕ) : Bool := (uniformU64 upperExclusive [raw]).isOk

/-- A whole number of periods has each remainder equally often. -/
theorem card_remainder {result : ℕ} (hresult : result < bound) (start periods : ℕ) :
    ((Ico start (start + periods * bound)).filter fun raw => raw % bound = result).card
      = periods := by
  induction periods with
  | zero => simp
  | succ periods ih =>
    have hperiod : Function.Periodic (fun raw => raw % bound = result) bound := by
      intro raw
      simp
    have hone : bound.count (fun raw => raw % bound = result) = 1 := by
      have hcount := Nat.count_modEq_card bound (Nat.zero_lt_of_lt hresult) result
      simpa [Nat.ModEq, Nat.mod_eq_of_lt hresult, Nat.div_self (Nat.zero_lt_of_lt hresult)]
        using hcount
    rw [Nat.succ_mul, ← Nat.add_assoc,
      ← Finset.Ico_union_Ico_eq_Ico (Nat.le_add_right _ (periods * bound)) (Nat.le_add_right _ bound),
      Finset.filter_union, Finset.card_union_of_disjoint, ih,
      Nat.filter_Ico_card_eq_of_periodic _ _ _ hperiod, hone]
    exact Finset.disjoint_filter_filter (Finset.Ico_disjoint_Ico_consecutive _ _ _)

/-- **Unbiased draws.** The raw values that are accepted split into classes of equal size, one for
each result below the bound. More than half of all raw values are accepted, and one that is not is
passed over. -/
theorem uniformU64_unbiased (hpos : 0 < bound) (hword : bound < 2 ^ 64) :
    (∀ result < bound,
      ((range (2 ^ 64)).filter fun raw => uniformU64 bound [raw] = .ok result).card
        = 2 ^ 64 / bound) ∧
    (∀ raw result, uniformU64 bound [raw] = .ok result → result < bound) ∧
    2 ^ 64 < 2 * ((range (2 ^ 64)).filter fun raw => accepts bound raw).card ∧
    ∀ raw draws, uniformU64 bound (raw :: draws) =
      if accepts bound raw then uniformU64 bound [raw] else uniformU64 bound draws := by
  have hdraw : ∀ raw, uniformU64 bound [raw] =
      if 2 ^ 64 % bound ≤ raw then .ok (raw % bound) else .error .exhausted := by
    intro raw
    rw [uniformU64_cons hpos hword, uniformU64, rejectIf, if_neg hpos.ne']
    rfl
  have haccepts : ∀ raw, accepts bound raw = decide (2 ^ 64 % bound ≤ raw) := by
    intro raw
    rw [accepts, hdraw]
    split <;> simp_all [Except.isOk, Except.toBool]
  have hmod := Nat.mod_lt (2 ^ 64) hpos
  have hdiv := Nat.mod_add_div (2 ^ 64) bound
  refine ⟨fun result hresult => ?_, fun raw result hok => ?_, ?_, fun raw draws => ?_⟩
  · -- the accepted values are a whole number of periods
    have hperiods := card_remainder hresult (2 ^ 64 % bound) (2 ^ 64 / bound)
    rw [Nat.mul_comm, hdiv] at hperiods
    rw [← hperiods]
    refine congrArg Finset.card (Finset.ext fun raw => ?_)
    simp only [Finset.mem_filter, Finset.mem_range, Finset.mem_Ico, hdraw]
    split <;> simp_all
  · rw [hdraw] at hok
    split at hok
    · rw [← Except.ok.inj hok]
      exact Nat.mod_lt raw hpos
    · cases hok
  · have hcard : ((range (2 ^ 64)).filter fun raw => accepts bound raw).card
        = 2 ^ 64 - 2 ^ 64 % bound := by
      rw [← Nat.card_Ico]
      refine congrArg Finset.card (Finset.ext fun raw => ?_)
      simp only [haccepts, Finset.mem_filter, Finset.mem_range, Finset.mem_Ico, decide_eq_true_eq]
      exact and_comm
    have hlow : bound * 1 ≤ bound * (2 ^ 64 / bound) :=
      Nat.mul_le_mul_left bound (Nat.div_pos hword.le hpos)
    omega
  · rw [uniformU64_cons hpos hword, haccepts, hdraw]
    split <;> simp_all

theorem uniformU64_unbiased_three :
    ((range (2 ^ 64)).filter fun raw => uniformU64 3 [raw] = .ok 0).card = 6148914691236517205 :=
  (uniformU64_unbiased (by decide : 0 < 3) (by decide)).1 0 (by decide)

end Troe.Random
