import Troe.Grep.Program

/-!
# Threads of a program

What a program means on a line, without a search: a thread starts at an offset, moves silently
through splits, jumps and the anchors that hold, and consumes bytes. `add_state` adds exactly the
silent closure of one instruction to a state set, with the smaller of two origins.
-/

namespace Troe.Grep

open Lib

namespace Program

variable (program : Program) (query : Query)

/-! ## Moves -/

/-- The targets that an instruction moves to without consuming a byte. -/
def silentTargets (subjectLength position pc : ℕ) : List ℕ :=
  let instruction := program.instruction pc
  match instruction.op with
  | .split => [instruction.x, instruction.y]
  | .jump => [instruction.x]
  | .start => if position = 0 then [instruction.x] else []
  | .end => if position = subjectLength then [instruction.x] else []
  | _ => []

/-- A move from one instruction to another without a byte. -/
structure Silent (subjectLength position pc pc' : ℕ) : Prop where
  source_lt : pc < program.length
  target_lt : pc' < program.length
  target : pc' ∈ program.silentTargets subjectLength position pc

/-- Any number of silent moves. -/
abbrev Silently (subjectLength position : ℕ) : ℕ → ℕ → Prop :=
  Relation.ReflTransGen (program.Silent subjectLength position)

/-- The thread that starts at `origin` can be at instruction `pc` at a position. -/
inductive Reaches (origin : ℕ) : ℕ → ℕ → Prop
  | start (h : program.start < program.length) : Reaches origin origin program.start
  | silent {position pc pc' : ℕ} (before : Reaches origin position pc)
      (move : program.Silent query.subject.length position pc pc') : Reaches origin position pc'
  | consume {position pc : ℕ} (before : Reaches origin position pc)
      (inside : position < query.subject.length)
      (accepts : (program.instruction pc).op.accepts query.ignoreCase (query.byteAt position))
      (target_lt : (program.instruction pc).x < program.length) :
      Reaches origin (position + 1) (program.instruction pc).x

/-- A thread may start here. -/
def Starts (origin : ℕ) : Prop := query.from ≤ origin ∧ query.startsAt origin = true

/-- The line matches from `origin` to `position`. -/
structure Matches (origin position : ℕ) : Prop where
  starts : Starts query origin
  inside : position ≤ query.subject.length
  ends : query.endsAt position = true
  reaches : ∃ pc, program.Reaches query origin position pc ∧ (program.instruction pc).op = .match

section

variable {program} {query} {origin position pc : ℕ}

theorem Reaches.le (h : program.Reaches query origin position pc) : origin ≤ position := by
  induction h with
  | start => exact le_rfl
  | silent _ _ ih => exact ih
  | consume _ _ _ _ ih => exact Nat.le_succ_of_le ih

theorem Reaches.silently {pc' : ℕ} (h : program.Reaches query origin position pc)
    (hmoves : program.Silently query.subject.length position pc pc') :
    program.Reaches query origin position pc' := by
  induction hmoves with
  | refl => exact h
  | tail _ move ih => exact .silent ih move

theorem consuming_of_accepts {ignoreCase : Bool} {byte : UInt8} {op : Op}
    (h : op.accepts ignoreCase byte = true) : op.consuming = true := by
  cases op <;> first | rfl | cases h

/-- A thread that goes on from a position waits there at an instruction, and every thread at that
instruction can go on the same way. -/
theorem Reaches.through {between : ℕ} (h : program.Reaches query origin position pc)
    (horigin : origin ≤ between) (hbetween : between < position) :
    ∃ pc', (program.instruction pc').op.consuming = true ∧
      program.Reaches query origin between pc' ∧
      ∀ origin', program.Reaches query origin' between pc' →
        program.Reaches query origin' position pc := by
  induction h with
  | start => omega
  | silent _ move ih =>
    obtain ⟨pc', hconsuming, hreaches, hon⟩ := ih hbetween
    exact ⟨pc', hconsuming, hreaches, fun origin' h => .silent (hon origin' h) move⟩
  | consume before inside accepts target_lt ih =>
    obtain hlt | rfl := Nat.lt_or_eq_of_le (Nat.le_of_lt_succ hbetween)
    · obtain ⟨pc', hconsuming, hreaches, hon⟩ := ih hlt
      exact ⟨pc', hconsuming, hreaches, fun origin' h =>
        .consume (hon origin' h) inside accepts target_lt⟩
    · exact ⟨_, consuming_of_accepts accepts, before, fun origin' h =>
        .consume h inside accepts target_lt⟩

/-- Where a thread is, by what it did last except moving silently. -/
theorem Reaches.last (h : program.Reaches query origin position pc) :
    (position = origin ∧ program.start < program.length ∧
        program.Silently query.subject.length position program.start pc) ∨
      ∃ before pc', position = before + 1 ∧ program.Reaches query origin before pc' ∧
        before < query.subject.length ∧
        (program.instruction pc').op.accepts query.ignoreCase (query.byteAt before) = true ∧
        (program.instruction pc').x < program.length ∧
        program.Silently query.subject.length position (program.instruction pc').x pc := by
  induction h with
  | start h => exact .inl ⟨rfl, h, .refl⟩
  | silent _ move ih =>
    rcases ih with ⟨hposition, hlt, hmoves⟩ | ⟨q, pc', hq, hbefore, hinside, hacc, hlt, hmoves⟩
    · exact .inl ⟨hposition, hlt, hmoves.tail move⟩
    · exact .inr ⟨q, pc', hq, hbefore, hinside, hacc, hlt, hmoves.tail move⟩
  | consume before inside accepts target_lt _ =>
    exact .inr ⟨_, _, rfl, before, inside, accepts, target_lt, .refl⟩

/-- A thread that has consumed nothing is where silent moves lead it from the start. -/
theorem reaches_origin_iff : program.Reaches query origin origin pc ↔
    program.start < program.length ∧
      program.Silently query.subject.length origin program.start pc := by
  constructor
  · intro h
    rcases h.last with ⟨-, hlt, hmoves⟩ | ⟨before, _, hbefore, hreaches, -⟩
    · exact ⟨hlt, hmoves⟩
    · have := hreaches.le
      omega
  · rintro ⟨hlt, hmoves⟩
    exact (Reaches.start hlt).silently hmoves

/-- A thread that has consumed a byte: where it was before, and silent moves after the byte. -/
theorem reaches_succ_iff (horigin : origin ≤ position) :
    program.Reaches query origin (position + 1) pc ↔
      ∃ pc', program.Reaches query origin position pc' ∧ position < query.subject.length ∧
        (program.instruction pc').op.accepts query.ignoreCase (query.byteAt position) = true ∧
        (program.instruction pc').x < program.length ∧
        program.Silently query.subject.length (position + 1) (program.instruction pc').x pc := by
  constructor
  · intro h
    rcases h.last with ⟨hposition, -⟩ | ⟨before, pc', hbefore, hreaches, hrest⟩
    · omega
    · obtain rfl : position = before := Nat.succ_injective hbefore
      exact ⟨pc', hreaches, hrest⟩
  · rintro ⟨pc', hreaches, hinside, hacc, hlt, hmoves⟩
    exact (Reaches.consume hreaches hinside hacc hlt).silently hmoves

end

end Program

/-! ## State sets -/

namespace StateSet

variable (program : Program)

/-- The instruction is reached from an origin no larger than this one. -/
def Reached (states : StateSet) (pc origin : ℕ) : Prop :=
  ∃ recorded ≤ origin, states.origins pc = some recorded

/-- The listed instructions are the reached ones that have no silent moves to make. -/
structure WellListed (states : StateSet) : Prop where
  listed_iff : ∀ pc, states.listed pc = true ↔ pc ∈ states.states
  reached_lt : ∀ pc, states.origins pc ≠ none → pc < program.length
  mem_iff : ∀ pc, pc ∈ states.states ↔ states.origins pc ≠ none ∧
    ((program.instruction pc).op.consuming = true ∨ (program.instruction pc).op = .match)

/-- Silent moves stay inside the set and do not increase the origin. -/
def Closed (subjectLength position : ℕ) (states : StateSet) : Prop :=
  ∀ pc origin, states.Reached pc origin → ∀ pc', program.Silent subjectLength position pc pc' →
    states.Reached pc' origin

variable {program} {states : StateSet} {pc pc' origin origin' : ℕ}

theorem Reached.mono (h : states.Reached pc origin) (hle : origin ≤ origin') :
    states.Reached pc origin' := by
  obtain ⟨recorded, hrecorded, heq⟩ := h
  exact ⟨recorded, hrecorded.trans hle, heq⟩

/-- The recorded origin is the least one the instruction is reached from. -/
theorem origins_eq_some_iff : states.origins pc = some origin ↔
    states.Reached pc origin ∧ ∀ smaller < origin, ¬ states.Reached pc smaller := by
  constructor
  · intro h
    refine ⟨⟨origin, le_rfl, h⟩, ?_⟩
    rintro smaller hsmaller ⟨recorded, hrecorded, heq⟩
    rw [h, Option.some_inj] at heq
    omega
  · rintro ⟨⟨recorded, hrecorded, heq⟩, hleast⟩
    obtain hlt | rfl := Nat.lt_or_eq_of_le hrecorded
    · exact absurd ⟨recorded, le_rfl, heq⟩ (hleast recorded hlt)
    · exact heq

theorem reached_mark (pc origin : ℕ) (pc' origin' : ℕ) :
    (states.mark pc origin).Reached pc' origin' ↔
      (pc' = pc ∧ origin ≤ origin') ∨ (pc' ≠ pc ∧ states.Reached pc' origin') := by
  unfold Reached mark
  by_cases h : pc' = pc
  · subst h
    simp
  · simp [h]

theorem not_reached_new (pc origin : ℕ) : ¬ StateSet.new.Reached pc origin := by
  rintro ⟨_, _, h⟩
  cases h

theorem wellListed_new (program : Program) : StateSet.new.WellListed program := by
  constructor <;> simp [new]

theorem closed_new (program : Program) (subjectLength position : ℕ) :
    StateSet.new.Closed program subjectLength position :=
  fun pc origin h => absurd h (not_reached_new pc origin)

/-- Recording a smaller origin leaves no origin out. -/
theorem Reached.of_mark (hnot : ¬ states.Reached pc origin) (h : states.Reached pc' origin') :
    (states.mark pc origin).Reached pc' origin' := by
  rw [reached_mark]
  by_cases hpc : pc' = pc
  · subst hpc
    exact .inl ⟨rfl, le_of_not_ge fun hle => hnot (h.mono hle)⟩
  · exact .inr ⟨hpc, h⟩

theorem origins_mark_of_ne (h : pc' ≠ pc) :
    (states.mark pc origin).origins pc' = states.origins pc' :=
  Function.update_of_ne h _ _

theorem WellListed.lt_of_mark (h : states.WellListed program) (hlt : pc < program.length) {q : ℕ}
    (hq : (states.mark pc origin).origins q ≠ none) : q < program.length := by
  by_cases hpc : q = pc
  · exact hpc ▸ hlt
  · exact h.reached_lt q (origins_mark_of_ne hpc ▸ hq)

/-- An instruction with silent moves is recorded and not listed. -/
theorem WellListed.mark (h : states.WellListed program) (hlt : pc < program.length)
    (hconsuming : (program.instruction pc).op.consuming = false)
    (hmatch : (program.instruction pc).op ≠ .match) : (states.mark pc origin).WellListed program := by
  refine ⟨h.listed_iff, fun _ => h.lt_of_mark hlt, fun q => ?_⟩
  show q ∈ states.states ↔ _
  by_cases hpc : q = pc
  · subst hpc
    rw [h.mem_iff, hconsuming]
    simp [hmatch]
  · rw [origins_mark_of_ne hpc, h.mem_iff]

/-- A consuming or matching instruction is recorded and listed. -/
theorem WellListed.push {listed : StateSet} (h : states.WellListed program)
    (hlt : pc < program.length)
    (hop : (program.instruction pc).op.consuming = true ∨ (program.instruction pc).op = .match)
    (hpush : (states.mark pc origin).push pc = .ok listed) :
    listed.WellListed program ∧ listed.origins = (states.mark pc origin).origins := by
  have hself : (states.mark pc origin).origins pc = some origin := Function.update_self ..
  unfold StateSet.push at hpush
  split at hpush
  next hlisted =>
    cases hpush
    refine ⟨⟨h.listed_iff, fun _ => h.lt_of_mark hlt, fun q => ?_⟩, rfl⟩
    show q ∈ states.states ↔ _
    by_cases hpc : q = pc
    · subst hpc
      simpa [hself, hop] using (h.listed_iff q).mp hlisted
    · rw [origins_mark_of_ne hpc, h.mem_iff]
  next hlisted =>
    obtain ⟨_, -, hpush⟩ := bind_eq_ok.mp hpush
    cases hpush
    refine ⟨⟨fun q => ?_, fun _ => h.lt_of_mark hlt, fun q => ?_⟩, rfl⟩
    · show Function.update states.listed pc true q = true ↔ q ∈ states.states ++ [pc]
      rw [List.mem_append, ← h.listed_iff]
      by_cases hpc : q = pc
      · simp [hpc]
      · simp [hpc]
    · show q ∈ states.states ++ [pc] ↔ (states.mark pc origin).origins q ≠ none ∧ _
      rw [List.mem_append]
      by_cases hpc : q = pc
      · subst hpc
        simp [hself, hop]
      · rw [origins_mark_of_ne hpc, h.mem_iff]
        simp [hpc]

end StateSet

namespace Program

variable {program : Program} {subjectLength position pc : ℕ} {states states' : StateSet}

theorem pushPending_eq_ok {pending pending' : List ℕ}
    (h : pushPending pending pc = .ok pending') : pending' = pc :: pending := by
  unfold pushPending at h
  split at h
  · cases h
  · exact (Except.ok.inj h).symm

/-- What one turn of the closure loop does for an instruction that is marked now: its silent targets
become pending, or it is listed. -/
theorem expand_eq_ok {pending pending' : List ℕ}
    (h : program.expand position subjectLength pc pending states = .ok (pending', states')) :
    pending' = program.silentTargets subjectLength position pc ++ pending ∧
      ((states' = states ∧ (program.instruction pc).op.consuming = false ∧
          (program.instruction pc).op ≠ .match) ∨
        (states.push pc = .ok states' ∧
          ((program.instruction pc).op.consuming = true ∨ (program.instruction pc).op = .match))) := by
  unfold expand silentTargets at *
  cases hop : (program.instruction pc).op with
  | split =>
    simp only [hop, bind_eq_ok] at h ⊢
    obtain ⟨_, hy, _, hx, h⟩ := h
    cases h
    rw [pushPending_eq_ok hx, pushPending_eq_ok hy]
    exact ⟨rfl, .inl ⟨rfl, rfl, nofun⟩⟩
  | jump =>
    simp only [hop, bind_eq_ok] at h ⊢
    obtain ⟨_, hx, h⟩ := h
    cases h
    rw [pushPending_eq_ok hx]
    exact ⟨rfl, .inl ⟨rfl, rfl, nofun⟩⟩
  | start | «end» =>
    simp only [hop] at h ⊢
    split at h
    next hposition =>
      obtain ⟨_, hx, h⟩ := bind_eq_ok.mp h
      cases h
      rw [pushPending_eq_ok hx, if_pos hposition]
      exact ⟨rfl, .inl ⟨rfl, rfl, nofun⟩⟩
    next hposition =>
      cases h
      rw [if_neg hposition]
      exact ⟨rfl, .inl ⟨rfl, rfl, nofun⟩⟩
  | byte _ | any | cls _ =>
    simp only [hop] at h ⊢
    obtain ⟨_, hpush, h⟩ := bind_eq_ok.mp h
    cases h
    exact ⟨rfl, .inr ⟨hpush, .inl rfl⟩⟩
  | «match» =>
    simp only [hop] at h ⊢
    obtain ⟨_, hpush, h⟩ := bind_eq_ok.mp h
    cases h
    exact ⟨rfl, .inr ⟨hpush, .inr trivial⟩⟩

/-- The loop of `add_state`, between two turns: the marks are those before the loop and part of the
silent closure of the initial instruction, and what is missing is pending. -/
structure Closing (program : Program) (subjectLength position origin initial : ℕ)
    (before : StateSet) (pending : List ℕ) (states : StateSet) : Prop where
  wellListed : states.WellListed program
  kept : ∀ pc o, before.Reached pc o → states.Reached pc o
  reached : ∀ pc o, states.Reached pc o → before.Reached pc o ∨
    (origin ≤ o ∧ initial < program.length ∧ program.Silently subjectLength position initial pc)
  closed : ∀ pc o, states.Reached pc o → ∀ pc', program.Silent subjectLength position pc pc' →
    states.Reached pc' o ∨ (origin ≤ o ∧ pc' ∈ pending)
  first : initial < program.length → states.Reached initial origin ∨ initial ∈ pending
  pending : ∀ pc ∈ pending, pc < program.length →
    initial < program.length ∧ program.Silently subjectLength position initial pc

section

variable {origin initial : ℕ} {before : StateSet} {pending pending' : List ℕ}

/-- An instruction outside the program, or reached already, is dropped. -/
theorem Closing.skip
    (h : Closing program subjectLength position origin initial before (pc :: pending) states)
    (hskip : program.length ≤ pc ∨ states.Reached pc origin) :
    Closing program subjectLength position origin initial before pending states := by
  have hpc : pc < program.length → states.Reached pc origin :=
    fun hlt => hskip.resolve_left (not_le.mpr hlt)
  refine ⟨h.wellListed, h.kept, h.reached, fun q o hq q' hmove => ?_, fun hlt => ?_, fun q hq =>
    h.pending q (List.mem_cons_of_mem _ hq)⟩
  · rcases h.closed q o hq q' hmove with hreached | ⟨ho, hmem⟩
    · exact .inl hreached
    · rcases List.mem_cons.mp hmem with rfl | hmem
      · exact .inl ((hpc hmove.target_lt).mono ho)
      · exact .inr ⟨ho, hmem⟩
  · rcases h.first hlt with hreached | hmem
    · exact .inl hreached
    · rcases List.mem_cons.mp hmem with rfl | hmem
      · exact .inl (hpc hlt)
      · exact .inr hmem

/-- An instruction is marked, and its silent targets become pending. -/
theorem Closing.mark
    (h : Closing program subjectLength position origin initial before (pc :: pending) states)
    (hlt : pc < program.length) (hnot : ¬ states.Reached pc origin)
    (hexpand : program.expand position subjectLength pc pending (states.mark pc origin)
      = .ok (pending', states')) :
    Closing program subjectLength position origin initial before pending' states' := by
  obtain ⟨rfl, hstates⟩ := expand_eq_ok hexpand
  have horigins : states'.WellListed program ∧ states'.origins = (states.mark pc origin).origins := by
    rcases hstates with ⟨rfl, hconsuming, hmatch⟩ | ⟨hpush, hop⟩
    · exact ⟨h.wellListed.mark hlt hconsuming hmatch, rfl⟩
    · exact h.wellListed.push hlt hop hpush
  obtain ⟨hwell, horigins⟩ := horigins
  have hreached q o : states'.Reached q o ↔ (states.mark pc origin).Reached q o := by
    unfold StateSet.Reached
    rw [horigins]
  obtain ⟨hinitial, hmoves⟩ := h.pending pc List.mem_cons_self hlt
  refine ⟨hwell, fun q o hq => (hreached q o).mpr ((h.kept q o hq).of_mark hnot), fun q o hq => ?_,
    fun q o hq q' hmove => ?_, fun _ => ?_, fun q hq hqlt => ?_⟩
  · rcases (StateSet.reached_mark ..).mp ((hreached q o).mp hq) with ⟨rfl, ho⟩ | ⟨-, hq⟩
    · exact .inr ⟨ho, hinitial, hmoves⟩
    · exact h.reached q o hq
  · rcases (StateSet.reached_mark ..).mp ((hreached q o).mp hq) with ⟨rfl, ho⟩ | ⟨-, hq⟩
    · exact .inr ⟨ho, List.mem_append_left _ hmove.target⟩
    · rcases h.closed q o hq q' hmove with hq' | ⟨ho, hmem⟩
      · exact .inl ((hreached q' o).mpr (hq'.of_mark hnot))
      · rcases List.mem_cons.mp hmem with rfl | hmem
        · exact .inl ((hreached q' o).mpr ((StateSet.reached_mark ..).mpr (.inl ⟨rfl, ho⟩)))
        · exact .inr ⟨ho, List.mem_append_right _ hmem⟩
  · rcases h.first hinitial with hreached' | hmem
    · exact .inl ((hreached initial origin).mpr (hreached'.of_mark hnot))
    · rcases List.mem_cons.mp hmem with rfl | hmem
      · exact .inl ((hreached initial origin).mpr
          ((StateSet.reached_mark ..).mpr (.inl ⟨rfl, le_rfl⟩)))
      · exact .inr (List.mem_append_right _ hmem)
  · rcases List.mem_append.mp hq with hq | hq
    · exact ⟨hinitial, hmoves.tail ⟨hlt, hqlt, hq⟩⟩
    · exact h.pending q (List.mem_cons_of_mem _ hq) hqlt

theorem any_le_iff (states : StateSet) (pc origin : ℕ) :
    (states.origins pc).any (· ≤ origin) = true ↔ states.Reached pc origin := by
  simp [StateSet.Reached, Option.any_eq_true, and_comm]

theorem Closing.close {turns steps steps' : ℕ}
    (h : Closing program subjectLength position origin initial before pending states)
    (hclose : program.close position subjectLength origin turns pending states steps
      = .ok (states', steps')) :
    Closing program subjectLength position origin initial before [] states' := by
  induction turns generalizing pending states steps with
  | zero =>
    cases pending with
    | nil =>
      obtain ⟨rfl, -⟩ := Prod.mk.inj (Except.ok.inj hclose)
      exact h
    | cons pc pending => cases hclose
  | succ turns ih =>
    cases pending with
    | nil =>
      obtain ⟨rfl, -⟩ := Prod.mk.inj (Except.ok.inj hclose)
      exact h
    | cons pc pending =>
      rw [Program.close] at hclose
      split at hclose
      next hskip =>
        rw [any_le_iff] at hskip
        exact ih (h.skip hskip) hclose
      next hskip =>
        rw [any_le_iff, not_or, not_le] at hskip
        simp only [ok_rules] at hclose
        obtain ⟨_, -, ⟨pending', states''⟩, hexpand, hclose⟩ := hclose
        exact ih (h.mark hskip.1 hskip.2 hexpand) hclose

/-- `add_state` adds the silent closure of the initial instruction, with this origin where no
smaller one is recorded. -/
theorem addState_spec {steps steps' : ℕ} (hwell : states.WellListed program)
    (hclosed : states.Closed program subjectLength position)
    (h : program.addState states initial position subjectLength origin steps
      = .ok (states', steps')) :
    states'.WellListed program ∧ states'.Closed program subjectLength position ∧
      ∀ pc o, states'.Reached pc o ↔ states.Reached pc o ∨
        (origin ≤ o ∧ initial < program.length ∧
          program.Silently subjectLength position initial pc) := by
  have hclosing : Closing program subjectLength position origin initial states [initial] states :=
    { wellListed := hwell
      kept := fun _ _ h => h
      reached := fun _ _ h => .inl h
      closed := fun pc o hpc pc' hmove => .inl (hclosed pc o hpc pc' hmove)
      first := fun _ => .inr List.mem_cons_self
      pending := fun pc hpc hlt => by
        obtain rfl := List.mem_singleton.mp hpc
        exact ⟨hlt, .refl⟩ }
  have hdone := hclosing.close h
  have hclosed' : states'.Closed program subjectLength position := by
    intro pc o hpc pc' hmove
    exact (hdone.closed pc o hpc pc' hmove).resolve_right fun h => List.not_mem_nil h.2
  refine ⟨hdone.wellListed, hclosed', fun pc o => ⟨hdone.reached pc o, ?_⟩⟩
  rintro (hpc | ⟨ho, hlt, hmoves⟩)
  · exact hdone.kept pc o hpc
  · refine StateSet.Reached.mono ?_ ho
    induction hmoves with
    | refl => exact (hdone.first hlt).resolve_right List.not_mem_nil
    | tail _ move ih => exact hclosed' _ _ ih _ move

end

end Program

end Troe.Grep
