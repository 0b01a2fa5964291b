import Troe.Grep.Threads
import Troe.Grep.Compile

/-!
# The range that a search returns

At every position the search holds the threads that can still matter: for every instruction the
least start that reaches it, up to the start of the best match so far. The best match is the
leftmost and then longest one that has ended by then.

The search stops when no thread of the best match's own start is waiting for a byte, also when a
thread with an earlier start still is. The range it returns is therefore the leftmost and longest
match exactly when that never happens on the line.
-/

namespace Troe.Grep

open Lib
open Nat (le_of_lt_succ)

namespace Program

variable (program : Program) (query : Query)

/-- The match starts at the smallest offset at which any match starts, and no match that starts
there is longer. -/
def LeftmostLongest (start finish : ℕ) : Prop :=
  program.Matches query start finish ∧ ∀ start' finish', program.Matches query start' finish' →
    start < start' ∨ (start = start' ∧ finish' ≤ finish)

/-- Of the matches that have ended by a position, the leftmost one starts here. -/
def EndedFirst (start position : ℕ) : Prop :=
  (∃ finish ≤ position, program.Matches query start finish) ∧
    ∀ start' finish', program.Matches query start' finish' → finish' ≤ position → start ≤ start'

/-- Some thread that started here waits for a byte at an instruction that no thread with an earlier
start has reached. -/
def Live (start position : ℕ) : Prop :=
  ∃ pc, (program.instruction pc).op.consuming = true ∧ program.Reaches query start position pc ∧
    ∀ earlier < start, Starts query earlier → ¬ program.Reaches query earlier position pc

/-- While a match that starts earlier is still to come, the leftmost match that has ended by a
position is live there. -/
def KeepsGoing (position : ℕ) : Prop :=
  ∀ start, program.EndedFirst query start position →
    (∃ earlier < start, ∃ finish, program.Matches query earlier finish) →
    program.Live query start position

/-- No match that starts earlier is given up anywhere on the line. -/
def NeverStranded : Prop := ∀ position < query.subject.length, program.KeepsGoing query position

/-! ## What the search knows at a position -/

/-- The best range is the leftmost and then longest match that ends before `limit`. -/
def Leads (best : Option (ℕ × ℕ)) (limit : ℕ) : Prop :=
  match best with
  | none => ∀ start finish, program.Matches query start finish → limit ≤ finish
  | some (start, finish) => program.Matches query start finish ∧ finish < limit ∧
      ∀ start' finish', program.Matches query start' finish' → finish' < limit →
        start < start' ∨ (start = start' ∧ finish' ≤ finish)

/-- A start that the best range does not rule out. -/
def Open (best : Option (ℕ × ℕ)) (start : ℕ) : Prop := ∀ range ∈ best, start ≤ range.1

/-- The set holds the threads at a position that started before `limit`, except such as the best
range rules out. -/
structure Holds (best : Option (ℕ × ℕ)) (limit position : ℕ) (states : StateSet) : Prop where
  wellListed : states.WellListed program
  closed : states.Closed program query.subject.length position
  sound : ∀ pc origin, states.Reached pc origin →
    ∃ start ≤ origin, Starts query start ∧ start < limit ∧ program.Reaches query start position pc
  complete : ∀ pc start, Open best start → Starts query start → start < limit →
    program.Reaches query start position pc → states.Reached pc start

section

variable {program} {query} {best best' : Option (ℕ × ℕ)} {limit position : ℕ} {states : StateSet}
  {search search' : Search}

theorem Matches.le {start finish : ℕ} (h : program.Matches query start finish) :
    start ≤ finish := by
  obtain ⟨pc, hreaches, -⟩ := h.reaches
  exact hreaches.le

theorem holds_new (position : ℕ) (hfrom : position ≤ query.from) :
    program.Holds query none position position .new where
  wellListed := StateSet.wellListed_new program
  closed := StateSet.closed_new program _ _
  sound pc origin h := absurd h (StateSet.not_reached_new pc origin)
  complete pc start _ hstarts hlimit _ := by
    have := hstarts.1
    omega

/-- The recorded origin of an instruction is a start from which it is reached. -/
theorem Holds.origin (h : program.Holds query best limit position states) {pc start : ℕ}
    (hopen : Open best start) (horigin : states.origins pc = some start) :
    Starts query start ∧ start < limit ∧ program.Reaches query start position pc ∧
      ∀ earlier < start, Starts query earlier → earlier < limit →
        ¬ program.Reaches query earlier position pc := by
  obtain ⟨hreached, hleast⟩ := StateSet.origins_eq_some_iff.mp horigin
  have hearlier earlier (hlt : earlier < start) (hstarts : Starts query earlier)
      (hlimit : earlier < limit) : ¬ program.Reaches query earlier position pc := by
    intro hreaches
    refine hleast earlier hlt (h.complete pc earlier (fun range hrange => ?_) hstarts hlimit hreaches)
    exact hlt.le.trans (hopen range hrange)
  obtain ⟨found, hfound, hstarts, hlimit, hreaches⟩ := h.sound pc start hreached
  obtain hlt | rfl := Nat.lt_or_eq_of_le hfound
  · exact absurd hreaches (hearlier found hlt hstarts hlimit)
  · exact ⟨hstarts, hlimit, hreaches, hearlier⟩

/-! ### Matches that end here -/

theorem mem_candidates (h : states.WellListed program) {start : ℕ} :
    start ∈ (states.states.filter fun pc => (program.instruction pc).op = .match).filterMap
        states.origins ↔
      ∃ pc, (program.instruction pc).op = .match ∧ states.origins pc = some start := by
  simp only [List.mem_filterMap, List.mem_filter, decide_eq_true_eq]
  constructor
  · rintro ⟨pc, ⟨-, hop⟩, horigin⟩
    exact ⟨pc, hop, horigin⟩
  · rintro ⟨pc, hop, horigin⟩
    exact ⟨pc, ⟨(h.mem_iff pc).mpr ⟨by simp [horigin], .inr hop⟩, hop⟩, horigin⟩

/-- What `accepted_start` finds is the start of a match that ends here, if the best range leaves it
open. -/
theorem Holds.matches_of_accepted (h : program.Holds query best limit position states)
    (hinside : position ≤ query.subject.length) {start : ℕ} (hopen : Open best start)
    (haccepted : program.acceptedStart query states position = some start) :
    program.Matches query start position := by
  unfold acceptedStart at haccepted
  split at haccepted
  next hends =>
    obtain ⟨hmem, -⟩ := List.min?_eq_some_iff.mp haccepted
    obtain ⟨pc, hop, horigin⟩ := (mem_candidates h.wellListed).mp hmem
    obtain ⟨hstarts, -, hreaches, -⟩ := h.origin hopen horigin
    exact ⟨hstarts, hinside, hends, pc, hreaches, hop⟩
  next => cases haccepted

/-- `accepted_start` finds the leftmost match that ends here, if the best range leaves it open. -/
theorem Holds.accepted_le (h : program.Holds query best (position + 1) position states) {start : ℕ}
    (hopen : Open best start) (hmatch : program.Matches query start position) :
    ∃ found ≤ start, program.acceptedStart query states position = some found := by
  obtain ⟨hstarts, -, hends, pc, hreaches, hop⟩ := hmatch
  obtain ⟨recorded, hrecorded, horigin⟩ :=
    h.complete pc start hopen hstarts (Nat.lt_succ_of_le hreaches.le) hreaches
  have hmem := (mem_candidates h.wellListed).mpr ⟨pc, hop, horigin⟩
  unfold acceptedStart
  rw [if_pos hends]
  cases hmin : ((states.states.filter fun pc => (program.instruction pc).op = .match).filterMap
      states.origins).min? with
  | none =>
    rw [List.min?_eq_none_iff] at hmin
    rw [hmin] at hmem
    exact absurd hmem List.not_mem_nil
  | some found => exact ⟨found, ((List.min?_eq_some_iff.mp hmin).2 _ hmem).trans hrecorded, rfl⟩

/-- No match is in the best range's way when `accepted_start` finds nothing better. -/
theorem Holds.not_matches (h : program.Holds query best (position + 1) position states) {start : ℕ}
    (hopen : Open best start)
    (haccepted : ∀ found ∈ program.acceptedStart query states position, start < found) :
    ¬ program.Matches query start position := by
  intro hmatch
  obtain ⟨found, hle, hfound⟩ := h.accepted_le hopen hmatch
  have := haccepted found hfound
  omega

/-- The best range after the matches that end at a position, when there was none. -/
theorem Holds.leads_none (h : program.Holds query none (position + 1) position states)
    (hinside : position ≤ query.subject.length) (hleads : program.Leads query none position) :
    program.Leads query ((program.acceptedStart query states position).elim none
      (improve none · position)) (position + 1) := by
  have hopen start : Open none start := fun _ hrange => nomatch hrange
  cases haccepted : program.acceptedStart query states position with
  | none =>
    intro start finish hmatch
    have hle := hleads start finish hmatch
    obtain rfl | hlt := Nat.eq_or_lt_of_le hle
    · exact absurd hmatch (h.not_matches (hopen start) (by simp [haccepted]))
    · exact hlt
  | some found =>
    refine ⟨h.matches_of_accepted hinside (hopen found) haccepted, Nat.lt_succ_self _, ?_⟩
    intro start finish hmatch hlt
    have hle := hleads start finish hmatch
    obtain rfl : finish = position := by omega
    obtain ⟨found', hle', hfound'⟩ := h.accepted_le (hopen start) hmatch
    rw [haccepted, Option.some_inj] at hfound'
    omega

/-- The best range after the matches that end at a position, when there was one. -/
theorem Holds.leads_some {start finish : ℕ}
    (h : program.Holds query (some (start, finish)) (position + 1) position states)
    (hinside : position ≤ query.subject.length)
    (hleads : program.Leads query (some (start, finish)) position) :
    program.Leads query ((program.acceptedStart query states position).elim (some (start, finish))
      (improve (some (start, finish)) · position)) (position + 1) := by
  have hopen {start'} (hle : start' ≤ start) : Open (some (start, finish)) start' := by
    rintro _ ⟨⟩
    exact hle
  obtain ⟨hmatch, hfinish, hbest⟩ := hleads
  -- a match that ends here and starts no later than the best one is found
  have hcases {start' finish'} (hmatch' : program.Matches query start' finish')
      (hlt : finish' < position + 1) : (start < start' ∨ start = start' ∧ finish' ≤ finish) ∨
      finish' = position ∧ ∃ found ≤ start',
        program.acceptedStart query states position = some found := by
    obtain hlt' | rfl := Nat.lt_or_eq_of_le (le_of_lt_succ hlt)
    · exact .inl (hbest start' finish' hmatch' hlt')
    · by_cases hle : start' ≤ start
      · exact .inr ⟨rfl, h.accepted_le (hopen hle) hmatch'⟩
      · exact .inl (.inl (not_le.mp hle))
  cases haccepted : program.acceptedStart query states position with
  | none =>
    refine ⟨hmatch, Nat.lt_succ_of_lt hfinish, fun start' finish' hmatch' hlt => ?_⟩
    simpa [haccepted] using hcases hmatch' hlt
  | some found =>
    simp only [haccepted, Option.some_inj, exists_eq_right'] at hcases
    simp only [Option.elim_some, improve]
    split_ifs with heq hless
    · subst heq
      refine ⟨h.matches_of_accepted hinside (hopen le_rfl) haccepted, Nat.lt_succ_self _, ?_⟩
      intro start' finish' hmatch' hlt
      have := hcases hmatch' hlt
      omega
    · refine ⟨h.matches_of_accepted hinside (hopen hless.le) haccepted, Nat.lt_succ_self _, ?_⟩
      intro start' finish' hmatch' hlt
      have := hcases hmatch' hlt
      omega
    · refine ⟨hmatch, Nat.lt_succ_of_lt hfinish, fun start' finish' hmatch' hlt => ?_⟩
      have := hcases hmatch' hlt
      omega

/-! ### One turn of the search -/

/-- A better best range rules out more starts. -/
theorem Holds.mono (h : program.Holds query best limit position states)
    (hbest : ∀ start, Open best' start → Open best start) :
    program.Holds query best' limit position states :=
  { h with complete := fun pc start hopen => h.complete pc start (hbest start hopen) }

theorem open_of_improve {start : ℕ} (accepted : Option ℕ)
    (h : Open (accepted.elim best (improve best · position)) start) : Open best start := by
  cases accepted with
  | none => exact h
  | some found =>
    rintro ⟨bestStart, bestFinish⟩ hbest
    obtain rfl : best = some (bestStart, bestFinish) := hbest
    simp only [Option.elim_some, improve] at h
    split_ifs at h with heq hless
    · exact h (_, position) rfl
    · exact (h _ rfl).trans hless.le
    · exact h _ rfl

/-- A thread starts at the position where no match has been found yet. -/
theorem Holds.start (h : program.Holds query none position position states)
    (hfrom : query.from ≤ position) (hstarts : query.startsAt position = true) {steps steps' : ℕ}
    {states' : StateSet}
    (hadd : program.addState states program.start position query.subject.length position steps
      = .ok (states', steps')) :
    program.Holds query none (position + 1) position states' := by
  obtain ⟨hwell, hclosed, hreached⟩ := addState_spec h.wellListed h.closed hadd
  refine ⟨hwell, hclosed, fun pc origin horigin => ?_, fun pc start hopen hstart hlt hreaches => ?_⟩
  · rcases (hreached pc origin).mp horigin with hbefore | ⟨hle, hlt, hmoves⟩
    · obtain ⟨start, hle, hstart, hlt, hreaches⟩ := h.sound pc origin hbefore
      exact ⟨start, hle, hstart, Nat.lt_succ_of_lt hlt, hreaches⟩
    · exact ⟨position, hle, ⟨hfrom, hstarts⟩, Nat.lt_succ_self _,
        reaches_origin_iff.mpr ⟨hlt, hmoves⟩⟩
  · rw [hreached]
    obtain hlt | rfl := Nat.lt_or_eq_of_le (le_of_lt_succ hlt)
    · exact .inl (h.complete pc start hopen hstart hlt hreaches)
    · exact .inr ⟨le_rfl, reaches_origin_iff.mp hreaches⟩

/-- No thread starts at a position that is not allowed, or behind the best match. -/
theorem Holds.no_start (h : program.Holds query best position position states)
    (hnone : Open best position → query.startsAt position = false) :
    program.Holds query best (position + 1) position states := by
  refine ⟨h.wellListed, h.closed, fun pc origin horigin => ?_,
    fun pc start hopen hstart hlt hreaches => ?_⟩
  · obtain ⟨start, hle, hstart, hlt, hreaches⟩ := h.sound pc origin horigin
    exact ⟨start, hle, hstart, Nat.lt_succ_of_lt hlt, hreaches⟩
  · obtain hlt | rfl := Nat.lt_or_eq_of_le (le_of_lt_succ hlt)
    · exact h.complete pc start hopen hstart hlt hreaches
    · have := hnone hopen
      rw [hstart.2] at this
      cases this

/-- The first half of a turn. -/
theorem enter_spec (h : program.Holds query search.best position position search.current)
    (hleads : program.Leads query search.best position) (hfrom : query.from ≤ position)
    (hinside : position ≤ query.subject.length)
    (henter : program.enter query position search = .ok search') :
    program.Holds query search'.best (position + 1) position search'.current ∧
      program.Leads query search'.best (position + 1) := by
  obtain ⟨current, best, steps⟩ := search
  simp only [enter, ok_rules] at henter
  obtain ⟨⟨current', steps'⟩, hstart, henter⟩ := henter
  cases henter
  have hholds : program.Holds query best (position + 1) position current' := by
    unfold startThread at hstart
    split at hstart
    next hmay =>
      rw [Bool.and_eq_true] at hmay
      cases best with
      | none => exact h.start hfrom hmay.2 hstart
      | some range =>
        -- the best match has ended before the position, so it starts before it
        have hle := hleads.1.le
        have hlt := hleads.2.1
        simp at hmay
        omega
    next hmay =>
      cases hstart
      refine h.no_start fun hopen => ?_
      rw [Bool.and_eq_true, not_and, Bool.not_eq_true] at hmay
      refine hmay ?_
      rw [Option.all_eq_true]
      exact fun range hrange => decide_eq_true (hopen range hrange)
  refine ⟨hholds.mono fun start hopen => open_of_improve _ hopen, ?_⟩
  cases best with
  | none => exact hholds.leads_none hinside hleads
  | some range => exact hholds.leads_some hinside hleads

/-- The thread at `pc` has moved to `pc'` by consuming the byte at the position. -/
def Moved (program : Program) (query : Query) (best : Option (ℕ × ℕ)) (position : ℕ)
    (current : StateSet) (pc pc' origin : ℕ) : Prop :=
  ∃ start ≤ origin, current.origins pc = some start ∧ Open best start ∧
    (program.instruction pc).op.accepts query.ignoreCase (query.byteAt position) = true ∧
    (program.instruction pc).x < program.length ∧
    program.Silently query.subject.length (position + 1) (program.instruction pc).x pc'

/-- One thread consumes the byte: the next set gains where it moves to. -/
theorem consume_spec {next next' : StateSet × ℕ} {pc : ℕ} (hwell : next.1.WellListed program)
    (hclosed : next.1.Closed program query.subject.length (position + 1))
    (h : program.consume query position search next pc = .ok next') :
    next'.1.WellListed program ∧ next'.1.Closed program query.subject.length (position + 1) ∧
      ∀ pc' origin, next'.1.Reached pc' origin ↔ next.1.Reached pc' origin ∨
        Moved program query search.best position search.current pc pc' origin := by
  unfold consume at h
  split at h
  next hnone =>
    cases h
    exact ⟨hwell, hclosed, fun pc' origin => by simp [Moved, hnone]⟩
  next start hsome =>
    have hopen : search.best.any (·.1 < start) = false ↔ Open search.best start := by
      simp [Open, Option.any_eq_false]
    split at h
    next hruled =>
      cases h
      refine ⟨hwell, hclosed, fun pc' origin => (or_iff_left ?_).symm⟩
      rintro ⟨start', -, heq, hopen', -⟩
      rw [hsome, Option.some_inj] at heq
      subst heq
      rw [← hopen, hruled] at hopen'
      cases hopen'
    next hruled =>
      obtain ⟨⟨states, steps⟩, hmove, h⟩ := bind_eq_ok.mp h
      obtain ⟨steps', -, h⟩ := bind_eq_ok.mp h
      cases h
      have hopen := hopen.mp (Bool.not_eq_true _ ▸ hruled)
      have hmoved pc' origin : Moved program query search.best position search.current pc pc' origin ↔
          start ≤ origin ∧
            (program.instruction pc).op.accepts query.ignoreCase (query.byteAt position) = true ∧
            (program.instruction pc).x < program.length ∧
            program.Silently query.subject.length (position + 1) (program.instruction pc).x pc' := by
        simp [Moved, hsome, hopen]
      simp only [moveThread] at hmove
      split at hmove
      next haccepts =>
        obtain ⟨hwell', hclosed', hreached⟩ := addState_spec hwell hclosed hmove
        refine ⟨hwell', hclosed', fun pc' origin => ?_⟩
        rw [hreached, hmoved]
        simp [haccepts]
      next haccepts =>
        cases hmove
        refine ⟨hwell, hclosed, fun pc' origin => ?_⟩
        rw [hmoved]
        simp [haccepts]

/-- The second half of a turn. -/
theorem advance_spec (h : program.Holds query search.best (position + 1) position search.current)
    (hinside : position < query.subject.length)
    (hadvance : program.advance query position search = .ok search') :
    search'.best = search.best ∧
      program.Holds query search.best (position + 1) (position + 1) search'.current := by
  obtain ⟨current, best, steps⟩ := search
  simp only [advance, ok_rules] at hadvance
  obtain ⟨⟨next, steps'⟩, hfold, hadvance⟩ := hadvance
  cases hadvance
  refine ⟨rfl, ?_⟩
  have hnext : next.WellListed program ∧
      next.Closed program query.subject.length (position + 1) ∧
      ∀ pc' origin, next.Reached pc' origin ↔
        ∃ pc ∈ current.states, Moved program query best position current pc pc' origin :=
    foldlM_ok_induction (P := fun done next => next.1.WellListed program ∧
        next.1.Closed program query.subject.length (position + 1) ∧
        ∀ pc' origin, next.1.Reached pc' origin ↔
          ∃ pc ∈ done, Moved program query best position current pc pc' origin) hfold
      ⟨StateSet.wellListed_new program, StateSet.closed_new program _ _,
        fun pc' origin => by simp [StateSet.not_reached_new]⟩
      fun done pc next next' hnext hconsume => by
        obtain ⟨hwell, hclosed, hreached⟩ := consume_spec hnext.1 hnext.2.1 hconsume
        refine ⟨hwell, hclosed, fun pc' origin => ?_⟩
        rw [hreached, hnext.2.2]
        simp [or_and_right, exists_or]
  obtain ⟨hwell, hclosed, hreached⟩ := hnext
  refine ⟨hwell, hclosed, fun pc' origin horigin => ?_, fun pc' start hopen hstart hlt hreaches => ?_⟩
  · obtain ⟨pc, -, start, hle, horigin, hopen, haccepts, hx, hmoves⟩ :=
      (hreached pc' origin).mp horigin
    obtain ⟨hstart, hlt, hreaches, -⟩ := h.origin hopen horigin
    exact ⟨start, hle, hstart, hlt,
      (reaches_succ_iff (le_of_lt_succ hlt)).mpr ⟨pc, hreaches, hinside, haccepts, hx, hmoves⟩⟩
  · obtain ⟨pc, hreaches, -, haccepts, hx, hmoves⟩ :=
      (reaches_succ_iff (le_of_lt_succ hlt)).mp hreaches
    obtain ⟨recorded, hle, horigin⟩ := h.complete pc start hopen hstart hlt hreaches
    refine (hreached pc' start).mpr ⟨pc, ?_, recorded, hle, horigin, ?_, haccepts, hx, hmoves⟩
    · have hreached : current.origins pc ≠ none := by
        rw [horigin]
        exact Option.some_ne_none _
      exact (h.wellListed.mem_iff pc).mpr ⟨hreached, .inl (consuming_of_accepts haccepts)⟩
    · exact fun range hrange => hle.trans (hopen range hrange)

/-! ### When the search stops -/

/-- `has_consuming_from` on the start of the best range tells whether it is live. -/
theorem Holds.hasConsumingFrom_iff {start finish : ℕ}
    (h : program.Holds query (some (start, finish)) (position + 1) position states)
    (hmatch : program.Matches query start finish) (hfinish : finish ≤ position) :
    program.hasConsumingFrom states start = true ↔ program.Live query start position := by
  have hopen {start'} (hle : start' ≤ start) : Open (some (start, finish)) start' := by
    rintro _ ⟨⟩
    exact hle
  have hlt : start < position + 1 := Nat.lt_succ_of_le (hmatch.le.trans hfinish)
  simp only [hasConsumingFrom, List.any_eq_true, Bool.and_eq_true, decide_eq_true_eq]
  constructor
  · rintro ⟨pc, -, horigin, hconsuming⟩
    obtain ⟨-, -, hreaches, hearlier⟩ := h.origin (hopen le_rfl) horigin
    exact ⟨pc, hconsuming, hreaches, fun earlier hless hstarts =>
      hearlier earlier hless hstarts (hless.trans hlt)⟩
  · rintro ⟨pc, hconsuming, hreaches, hearlier⟩
    have hreached := h.complete pc start (hopen le_rfl) hmatch.starts hlt hreaches
    have horigin : states.origins pc = some start := by
      refine StateSet.origins_eq_some_iff.mpr ⟨hreached, fun smaller hsmaller hreached' => ?_⟩
      obtain ⟨found, hle, hstarts, -, hreaches'⟩ := h.sound pc smaller hreached'
      exact hearlier found (hle.trans_lt hsmaller) hstarts hreaches'
    exact ⟨pc, (h.wellListed.mem_iff pc).mpr ⟨by simp [horigin], .inl hconsuming⟩, horigin,
      hconsuming⟩

/-- The best range is what has ended first. -/
theorem Leads.endedFirst_iff {start finish start' : ℕ}
    (h : program.Leads query (some (start, finish)) (position + 1)) :
    program.EndedFirst query start' position ↔ start' = start := by
  obtain ⟨hmatch, hfinish, hbest⟩ := h
  constructor
  · rintro ⟨⟨finish', hfinish', hmatch'⟩, hleast⟩
    have hle := hleast start finish hmatch (le_of_lt_succ hfinish)
    have := hbest start' finish' hmatch' (Nat.lt_succ_of_le hfinish')
    omega
  · rintro rfl
    refine ⟨⟨finish, le_of_lt_succ hfinish, hmatch⟩, fun start'' finish'' hmatch'' hlt => ?_⟩
    have := hbest start'' finish'' hmatch'' (Nat.lt_succ_of_le hlt)
    omega

/-- A turn that does not stop the search gives no match up. -/
theorem keepsGoing_of_continue (h : program.Holds query best (position + 1) position states)
    (hleads : program.Leads query best (position + 1))
    (hgoes : best.any (fun range => !program.hasConsumingFrom states range.1) = false) :
    program.KeepsGoing query position := by
  intro start hended hearlier
  cases best with
  | none =>
    obtain ⟨⟨finish, hfinish, hmatch⟩, -⟩ := hended
    have := hleads start finish hmatch
    omega
  | some range =>
    obtain rfl := hleads.endedFirst_iff.mp hended
    refine (h.hasConsumingFrom_iff hleads.1 (le_of_lt_succ hleads.2.1)).mp ?_
    simpa using hgoes

/-- Where the search stops early, its range is the leftmost and longest match exactly when no match
starts earlier. -/
theorem leftmostLongest_of_stop {start finish : ℕ}
    (h : program.Holds query (some (start, finish)) (position + 1) position states)
    (hleads : program.Leads query (some (start, finish)) (position + 1))
    (hstops : program.hasConsumingFrom states start = false) :
    program.LeftmostLongest query start finish ↔
      ¬ ∃ earlier < start, ∃ finish', program.Matches query earlier finish' := by
  obtain ⟨hmatch, hfinish, hbest⟩ := hleads
  constructor
  · rintro ⟨-, hleast⟩ ⟨earlier, hearlier, finish', hmatch'⟩
    have := hleast earlier finish' hmatch'
    omega
  · intro hnone
    refine ⟨hmatch, fun start' finish' hmatch' => ?_⟩
    by_cases hended : finish' < position + 1
    · exact hbest start' finish' hmatch' hended
    · have hle : start ≤ start' :=
        not_lt.mp fun hearlier => hnone ⟨start', hearlier, finish', hmatch'⟩
      refine .inl (lt_of_le_of_ne hle ?_)
      rintro rfl
      -- a longer match waits for a byte at the position, and no earlier thread is with it
      obtain ⟨pc, hreaches, hop⟩ := hmatch'.reaches
      obtain ⟨pc', hconsuming, hwaits, hon⟩ := hreaches.through
        (hmatch.le.trans (le_of_lt_succ hfinish)) (not_lt.mp hended)
      have hlive : program.Live query start position :=
        ⟨pc', hconsuming, hwaits, fun earlier hearlier hstarts hreaches' =>
          hnone ⟨earlier, hearlier, finish', hstarts, hmatch'.inside, hmatch'.ends, pc,
            hon earlier hreaches', hop⟩⟩
      rw [← h.hasConsumingFrom_iff hmatch (le_of_lt_succ hfinish), hstops] at hlive
      cases hlive

/-- Before the first position, and behind the leftmost match, nothing can be given up. -/
theorem keepsGoing_of_leftmost {start finish : ℕ}
    (hmatch : program.Matches query start finish) (hfinish : finish ≤ position)
    (hleast : ¬ ∃ earlier < start, ∃ finish', program.Matches query earlier finish') :
    program.KeepsGoing query position := by
  rintro start' ⟨-, hended⟩ ⟨earlier, hearlier, finish', hmatch'⟩
  have hle := hended start finish hmatch hfinish
  exact absurd ⟨earlier, by omega, finish', hmatch'⟩ hleast

theorem keepsGoing_of_lt_from (h : position < query.from) : program.KeepsGoing query position := by
  rintro start ⟨⟨finish, hfinish, hmatch⟩, -⟩ -
  have := hmatch.starts.1
  have := hmatch.le
  omega

/-- What the search returns, from a position on. -/
theorem searchLoop_spec {remaining : ℕ} {result : Option (ℕ × ℕ)}
    (hposition : position + remaining = query.subject.length) (hfrom : query.from ≤ position)
    (h : program.Holds query search.best position position search.current)
    (hleads : program.Leads query search.best position)
    (hkept : ∀ earlier < position, program.KeepsGoing query earlier)
    (hloop : program.searchLoop query remaining search = .ok result) :
    (result = none → ∀ start finish, ¬ program.Matches query start finish) ∧
      ∀ start finish, result = some (start, finish) → program.Matches query start finish ∧
        (program.LeftmostLongest query start finish ↔ program.NeverStranded query) := by
  induction remaining generalizing position search with
  | zero =>
    obtain rfl : position = query.subject.length := hposition
    rw [searchLoop, bind_eq_ok] at hloop
    obtain ⟨search', henter, hloop⟩ := hloop
    cases hloop
    obtain ⟨-, hleads'⟩ := enter_spec h hleads hfrom le_rfl henter
    refine ⟨fun hnone start finish hmatch => ?_, fun start finish hsome => ?_⟩
    · rw [hnone] at hleads'
      have := hleads' start finish hmatch
      have := hmatch.inside
      omega
    · rw [hsome] at hleads'
      obtain ⟨hmatch, hfinish, hbest⟩ := hleads'
      refine ⟨hmatch, iff_of_true ⟨hmatch, fun start' finish' hmatch' => ?_⟩ hkept⟩
      exact hbest start' finish' hmatch' (Nat.lt_succ_of_le hmatch'.inside)
  | succ remaining ih =>
    have hat : query.subject.length - (remaining + 1) = position := by omega
    rw [searchLoop] at hloop
    simp only [hat, bind_eq_ok] at hloop
    obtain ⟨search', henter, hloop⟩ := hloop
    obtain ⟨h', hleads'⟩ := enter_spec h hleads hfrom (by omega) henter
    split at hloop
    next hstops =>
      -- the search ends early: no thread of the best start waits for a byte
      cases hloop
      cases hbest : search'.best with
      | none =>
        rw [hbest] at hstops
        cases hstops
      | some range =>
        obtain ⟨start, finish⟩ := range
        rw [hbest] at hstops h' hleads'
        have hstop : program.hasConsumingFrom search'.current start = false := by
          simpa using hstops
        refine ⟨fun hnone => (nomatch hnone), ?_⟩
        rintro _ _ ⟨⟩
        refine ⟨hleads'.1, ?_⟩
        rw [leftmostLongest_of_stop h' hleads' hstop]
        constructor
        · intro hleast earlier hearlier
          by_cases hlt : earlier < position
          · exact hkept earlier hlt
          · exact keepsGoing_of_leftmost hleads'.1
              ((le_of_lt_succ hleads'.2.1).trans (not_lt.mp hlt)) hleast
        · intro hnever hearlier
          have hlive := hnever position (by omega) start (hleads'.endedFirst_iff.mpr rfl) hearlier
          rw [← h'.hasConsumingFrom_iff hleads'.1 (le_of_lt_succ hleads'.2.1), hstop] at hlive
          cases hlive
    next hgoes =>
      obtain ⟨search'', hadvance, hloop⟩ := bind_eq_ok.mp hloop
      obtain ⟨hbest, h''⟩ := advance_spec h' (by omega) hadvance
      rw [← hbest] at h'' hleads'
      have hnext : position + 1 + remaining = query.subject.length := by omega
      refine ih hnext (by omega) h'' hleads' ?_ hloop
      intro earlier hearlier
      obtain hlt | rfl := Nat.lt_or_eq_of_le (le_of_lt_succ hearlier)
      · exact hkept earlier hlt
      · rw [hbest] at hleads'
        exact keepsGoing_of_continue h' hleads' (Bool.not_eq_true _ ▸ hgoes)

/-- What `find` returns: nothing only where nothing matches, else a match, which is the leftmost and
longest one exactly when no match that starts earlier is given up on the line. -/
theorem find_spec {result : Option (ℕ × ℕ)} (h : program.find query = .ok result) :
    (result = none → ∀ start finish, ¬ program.Matches query start finish) ∧
      ∀ start finish, result = some (start, finish) → program.Matches query start finish ∧
        (program.LeftmostLongest query start finish ↔ program.NeverStranded query) := by
  simp only [find, ok_rules, not_or, not_lt] at h
  obtain ⟨_, ⟨-, hfrom⟩, hloop⟩ := h
  have hposition : query.from + (query.subject.length - query.from) = query.subject.length := by
    omega
  refine searchLoop_spec hposition le_rfl (holds_new _ le_rfl) ?_
    (fun earlier hearlier => keepsGoing_of_lt_from hearlier) hloop
  intro start finish hmatch
  exact hmatch.starts.1.trans hmatch.le

end

/-- On a line with a match, the range that `find` returns is the leftmost and longest one exactly
when, wherever the leftmost match that has ended is not the leftmost of all, some thread of its own
still waits for a byte. -/
theorem find_leftmostLongest_iff {program : Program} {query : Query} {result : Option (ℕ × ℕ)}
    (hfind : program.find query = .ok result)
    (hmatch : ∃ start finish, program.Matches query start finish) :
    (∃ start finish, result = some (start, finish) ∧ program.LeftmostLongest query start finish) ↔
      program.NeverStranded query := by
  obtain ⟨hnone, hsome⟩ := find_spec hfind
  cases result with
  | none =>
    obtain ⟨start, finish, hmatch⟩ := hmatch
    exact absurd hmatch (hnone rfl start finish)
  | some range =>
    obtain ⟨start, finish⟩ := range
    rw [← (hsome start finish rfl).2]
    constructor
    · rintro ⟨_, _, ⟨⟩, hleftmost⟩
      exact hleftmost
    · exact fun hleftmost => ⟨start, finish, rfl, hleftmost⟩

/-- The pattern `abcd|b` in extended syntax. -/
def strandingPattern : Pattern where
  bytes := [0x61, 0x62, 0x63, 0x64, 0x7c, 0x62]
  mode := .extended

/-- The line `abcd`, searched from its start. -/
def strandedLine : Query where
  subject := [0x61, 0x62, 0x63, 0x64]
  «from» := 0
  ignoreCase := false
  wholeLine := false
  wholeWord := false

/-- The program of the pattern. -/
def strandingProgram : Program where
  instructions :=
    [⟨.byte 0x61, 1, noTarget⟩, ⟨.byte 0x62, 2, noTarget⟩, ⟨.byte 0x63, 3, noTarget⟩,
      ⟨.byte 0x64, 6, noTarget⟩, ⟨.byte 0x62, 6, noTarget⟩, ⟨.split, 0, 4⟩,
      ⟨.match, noTarget, noTarget⟩]
  aggregate := some { start := 5, out := patchTag + 6 }
  start := 5
  finished := true

theorem strandingProgram_compiled : compileAll [strandingPattern] = .ok strandingProgram := by
  decide +kernel

theorem strandingProgram_find : strandingProgram.find strandedLine = .ok (some (1, 2)) := by
  decide +kernel

/-- The whole line matches. -/
theorem strandingProgram_matches : strandingProgram.Matches strandedLine 0 4 := by
  have h0 : strandingProgram.Reaches strandedLine 0 0 5 := .start (by decide)
  have h1 : strandingProgram.Reaches strandedLine 0 0 0 :=
    .silent h0 ⟨by decide, by decide, by decide⟩
  have h2 := h1.consume (by decide) (by decide) (by decide)
  have h3 := h2.consume (by decide) (by decide) (by decide)
  have h4 := h3.consume (by decide) (by decide) (by decide)
  have h5 := h4.consume (by decide) (by decide) (by decide)
  exact ⟨⟨Nat.zero_le _, by decide⟩, by decide, by decide, 6, h5, rfl⟩

/-- On `abcd` the pattern `abcd|b` is found at 1..2: the search stops when the `b` has matched,
although the thread that started at 0 still waits for the `c`. -/
theorem find_strands_earlier_start : compileAll [strandingPattern] = .ok strandingProgram ∧
    strandingProgram.find strandedLine = .ok (some (1, 2)) ∧
    strandingProgram.Matches strandedLine 0 4 ∧
    ¬ strandingProgram.LeftmostLongest strandedLine 1 2 := by
  refine ⟨strandingProgram_compiled, strandingProgram_find, strandingProgram_matches, ?_⟩
  rintro ⟨-, hleast⟩
  have := hleast 0 4 strandingProgram_matches
  omega

/-- The search strands a thread on the line `abcd`, and none on the line `b`. -/
theorem find_leftmostLongest_iff_stranded :
    ¬ strandingProgram.NeverStranded strandedLine ∧
      strandingProgram.NeverStranded { strandedLine with subject := [0x62] } := by
  refine ⟨fun hnever => ?_, ?_⟩
  · obtain ⟨start, finish, heq, -, hleast⟩ :=
      (find_leftmostLongest_iff strandingProgram_find ⟨0, 4, strandingProgram_matches⟩).mpr hnever
    have := hleast 0 4 strandingProgram_matches
    cases heq
    omega
  · let line := { strandedLine with subject := [0x62] }
    have h0 : strandingProgram.Reaches line 0 0 5 := .start (by decide)
    have h1 : strandingProgram.Reaches line 0 0 4 := .silent h0 ⟨by decide, by decide, by decide⟩
    have hmatches : strandingProgram.Matches line 0 1 :=
      ⟨⟨Nat.zero_le _, by decide⟩, by decide, by decide, 6, h1.consume (by decide) (by decide) (by decide), rfl⟩
    have hfind : strandingProgram.find line = .ok (some (0, 1)) := by decide +kernel
    refine (find_leftmostLongest_iff hfind ⟨0, 1, hmatches⟩).mp ⟨0, 1, rfl, hmatches, ?_⟩
    intro start finish hmatch
    have : finish ≤ 1 := hmatch.inside
    omega

end Program

end Troe.Grep
