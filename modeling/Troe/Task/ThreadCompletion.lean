import Troe.Task.ThreadInvariant

/-!
# Joins, exits and stopped processes

The calls that write to more than one record of the thread table. A claim is written to both
threads it is about, and taken from both.
-/

namespace Troe.Task

open Lib
open Option (map_eq_some_iff map_map map_some)

namespace ThreadTable

variable {self self' : ThreadTable} {id : ThreadId} {r : Record} {owner : ProcessId}
  {Q : Unit → ThreadTable → Prop} {R : ThreadError → ThreadTable → Prop} {claim : JoinClaim}
  {find : ThreadId → Option Record}

/-! ## Claims -/

/-- The lookup answers with the record that was asked for. -/
def Named (find : ThreadId → Option Record) : Prop :=
  ∀ t r, find t = some r → r.snapshot.id = t

theorem named_find (self : ThreadTable) : Named self.find := fun _ _ h => (find_eq_some h).2

/-- The links of the two threads a claim is about are set to the claim, or cleared. -/
def relinked (claim : JoinClaim) (mark : Option JoinClaim) (r : Record) : Record :=
  onlyAt claim.target (fun r => { r with incomingJoin := mark })
    (onlyAt claim.caller (fun r => { r with outgoingJoin := mark }) r)

/-- The result of a thread was consumed. -/
def consumed (r : Record) : Record := { r with joined := true }

/-- Two changes in a row. -/
theorem Faithful.comp {f g : Record → Record} (hf : Faithful f) (hg : Faithful g) :
    Faithful fun r => g (f r) :=
  ⟨fun r => (hg.id _).trans (hf.id r), fun r => (hg.resources _).trans (hf.resources r),
    fun r h => hg.released _ (hf.released r h), fun r h => hg.joined _ (hf.joined r h)⟩

theorem faithful_consumed : Faithful consumed :=
  ⟨fun _ => rfl, fun _ => rfl, fun _ h => h, fun _ _ => rfl⟩

section

variable (claim : JoinClaim) (mark : Option JoinClaim) (r : Record)

theorem faithful_relinked : Faithful (relinked claim mark) := by
  have houtgoing : Faithful fun r => { r with outgoingJoin := mark } :=
    ⟨fun _ => rfl, fun _ => rfl, fun _ h => h, fun _ h => h⟩
  have hincoming : Faithful fun r => { r with incomingJoin := mark } :=
    ⟨fun _ => rfl, fun _ => rfl, fun _ h => h, fun _ h => h⟩
  exact (houtgoing.onlyAt claim.caller).comp (hincoming.onlyAt claim.target)

theorem outgoing_relinked : (relinked claim mark r).outgoingJoin
    = if r.snapshot.id = claim.caller then mark else r.outgoingJoin := by
  unfold relinked onlyAt
  split <;> split <;> rfl

theorem incoming_relinked : (relinked claim mark r).incomingJoin
    = if r.snapshot.id = claim.target then mark else r.incomingJoin := by
  unfold relinked onlyAt
  split <;> split <;> simp_all

theorem joined_relinked : (relinked claim mark r).joined = r.joined := by
  unfold relinked onlyAt
  split <;> split <;> rfl

theorem snapshot_relinked : (relinked claim mark r).snapshot = r.snapshot := by
  unfold relinked onlyAt
  split <;> split <;> rfl

end

/-- Links do not change who runs. -/
theorem OneRuns.relinked (h : OneRuns find) (claim : JoinClaim) (mark : Option JoinClaim) :
    OneRuns fun t => (find t).map (ThreadTable.relinked claim mark) := by
  refine h.of_same fun _ r _ => ?_
  rw [snapshot_relinked]
  exact fun hrun => hrun

/-- A claim that both threads agree on is given up. -/
theorem Joins.unlink (h : Joins find) (hnamed : Named find) {rt : Record}
    (ht : find claim.target = some rt) (hincoming : rt.incomingJoin = some claim) :
    Joins fun t => (find t).map (relinked claim none) := by
  refine ⟨fun t r c hr hc => ?_, fun t r c hr hc => ?_, fun t r hr hjoined => ?_⟩
  · obtain ⟨r0, hr0, rfl⟩ := map_eq_some_iff.mp hr
    rw [outgoing_relinked] at hc
    split at hc
    · cases hc
    next hne =>
      obtain ⟨hcaller, hprocess, hself, r', hr', hin⟩ := h.outgoing t r0 c hr0 hc
      refine ⟨hcaller, hprocess, hself, relinked claim none r', by rw [hr', map_some], ?_⟩
      rw [incoming_relinked, if_neg, hin]
      -- the target of another claim is another thread
      intro heq
      rw [hnamed _ _ hr'] at heq
      rw [heq, ht, Option.some.injEq] at hr'
      rw [← hr', hincoming, Option.some.injEq] at hin
      rw [hnamed t r0 hr0, hin, hcaller] at hne
      exact hne rfl
  · obtain ⟨r0, hr0, rfl⟩ := map_eq_some_iff.mp hr
    rw [incoming_relinked] at hc
    split at hc
    · cases hc
    next hne =>
      obtain ⟨htarget, r', hr', hout⟩ := h.incoming t r0 c hr0 hc
      refine ⟨htarget, relinked claim none r', by rw [hr', map_some], ?_⟩
      rw [outgoing_relinked, if_neg, hout]
      intro heq
      rw [hnamed _ _ hr'] at heq
      -- the caller of the claim has no other claim
      obtain ⟨-, r'', hr'', hout'⟩ := h.incoming claim.target rt claim ht hincoming
      rw [← heq, hr', Option.some.injEq] at hr''
      rw [← hr'', hout, Option.some.injEq] at hout'
      rw [hnamed t r0 hr0, ← htarget, hout'] at hne
      exact hne rfl
  · obtain ⟨r0, hr0, rfl⟩ := map_eq_some_iff.mp hr
    rw [joined_relinked] at hjoined
    rw [incoming_relinked, h.joined t r0 hr0 hjoined, ite_self]

/-- A new claim between threads that have none. -/
theorem Joins.link (h : Joins find) (hnamed : Named find) {rc rt : Record}
    (hc : find claim.caller = some rc) (ht : find claim.target = some rt)
    (hprocess : claim.target.process = claim.caller.process) (hne : claim.target ≠ claim.caller)
    (hout : rc.outgoingJoin = none) (hin : rt.incomingJoin = none) (hfresh : rt.joined = false) :
    Joins fun t => (find t).map (relinked claim (some claim)) := by
  refine ⟨fun t r c hr hclaim => ?_, fun t r c hr hclaim => ?_, fun t r hr hjoined => ?_⟩
  · obtain ⟨r0, hr0, rfl⟩ := map_eq_some_iff.mp hr
    rw [outgoing_relinked] at hclaim
    split at hclaim
    next heq =>
      cases hclaim
      rw [hnamed t r0 hr0] at heq
      refine ⟨heq.symm, by rw [heq, hprocess], by rwa [heq], relinked claim (some claim) rt,
        by rw [ht, map_some], ?_⟩
      rw [incoming_relinked, if_pos (hnamed _ _ ht)]
    · obtain ⟨hcaller, hproc, hself, r', hr', hin'⟩ := h.outgoing t r0 c hr0 hclaim
      refine ⟨hcaller, hproc, hself, relinked claim (some claim) r', by rw [hr', map_some], ?_⟩
      rw [incoming_relinked, if_neg, hin']
      intro heq
      rw [hnamed _ _ hr'] at heq
      rw [heq, ht, Option.some.injEq] at hr'
      rw [← hr', hin] at hin'
      cases hin'
  · obtain ⟨r0, hr0, rfl⟩ := map_eq_some_iff.mp hr
    rw [incoming_relinked] at hclaim
    split at hclaim
    next heq =>
      cases hclaim
      rw [hnamed t r0 hr0] at heq
      refine ⟨heq.symm, relinked claim (some claim) rc, by rw [hc, map_some], ?_⟩
      rw [outgoing_relinked, if_pos (hnamed _ _ hc)]
    · obtain ⟨htarget, r', hr', hout'⟩ := h.incoming t r0 c hr0 hclaim
      refine ⟨htarget, relinked claim (some claim) r', by rw [hr', map_some], ?_⟩
      rw [outgoing_relinked, if_neg, hout']
      intro heq
      rw [hnamed _ _ hr'] at heq
      rw [heq, hc, Option.some.injEq] at hr'
      rw [← hr', hout] at hout'
      cases hout'
  · obtain ⟨r0, hr0, rfl⟩ := map_eq_some_iff.mp hr
    rw [joined_relinked] at hjoined
    rw [incoming_relinked, if_neg, h.joined t r0 hr0 hjoined]
    intro heq
    rw [hnamed t r0 hr0] at heq
    rw [heq, ht, Option.some.injEq] at hr0
    rw [← hr0, hfresh] at hjoined
    cases hjoined

/-- The result of a thread without a claim on it is consumed. -/
theorem Joins.consume (h : Joins find) (id : ThreadId) (hnamed : Named find) (hr : find id = some r)
    (hin : r.incomingJoin = none) : Joins fun t => (find t).map (ThreadTable.onlyAt id consumed) := by
  refine h.of_same fun t x hx => ?_
  unfold ThreadTable.onlyAt
  split
  next ht =>
    rw [hnamed t x hx] at ht
    rw [ht] at hx
    obtain rfl := Option.mem_unique hr hx
    exact ⟨rfl, rfl, fun _ => .inr hin⟩
  · exact ⟨rfl, rfl, .inl⟩

/-! ## Joining -/

/-- Both ends of a valid claim name it. -/
theorem validateClaim_eq_ok {u : Unit} (h : self.validateClaim owner claim = .ok u) :
    claim.caller.process = owner ∧ claim.target.process = owner ∧
      ∃ rc rt, self.find claim.caller = some rc ∧ rc.outgoingJoin = some claim ∧
        self.find claim.target = some rt ∧ rt.incomingJoin = some claim := by
  unfold validateClaim at h
  simp only [ok_rules, record_eq_ok, ne_eq, not_not] at h
  obtain ⟨rc, ⟨hcaller, hc⟩, _, hout, rt, ⟨htarget, ht⟩, hin⟩ := h
  exact ⟨hcaller, htarget, rc, rt, hc, hout, ht, hin⟩

/-- Cancelling a join removes both of its links. -/
theorem wp_cancelJoin (hself : SlotsMatch self) (hR : ∀ e, R e self)
    (hQ : ∀ rc rt self', claim.target.process = owner → self.find claim.caller = some rc →
      self.find claim.target = some rt → rt.incomingJoin = some claim →
      Mapped (relinked claim none) self self' → Q () self') :
    (cancelJoin owner claim).wp Q R self := by
  unfold cancelJoin
  simp only [wp_rules]
  refine ⟨fun _ hvalid => ?_, fun _ _ => hR _⟩
  obtain ⟨hcaller, htarget, rc, rt, hc, hout, ht, hin⟩ := validateClaim_eq_ok hvalid
  have hclear : Faithful fun r => { r with outgoingJoin := none } :=
    ⟨fun _ => rfl, fun _ => rfl, fun _ h => h, fun _ h => h⟩
  have hfaithful := hclear.onlyAt claim.caller
  rw [← hcaller]
  refine wp_mapRecord hself hc fun self1 hm1 _ => ?_
  rw [hcaller, ← htarget]
  refine wp_mapRecord (hm1.slotsMatch hfaithful hself) (hm1.find_some hfaithful.id ht)
    fun self2 hm2 _ => ?_
  exact hQ rc rt self2 htarget hc ht hin (hm1.trans hm2)

theorem cancelJoin_safe (h : Lifecycle self) : Safe (cancelJoin owner claim) self := by
  refine wp_cancelJoin h.slotsMatch (fun _ => rfl) fun rc rt self' _ _ ht hin hm => ?_
  exact h.mapped hm (faithful_relinked claim none) (h.running.relinked _ _)
    (h.joins.unlink (named_find self) ht hin)

/-- A join starts between two free ends. -/
theorem validateJoin_eq_ok {caller target : ThreadId} {u : Unit}
    (h : self.validateJoin owner caller target = .ok u) :
    caller.process = owner ∧ target.process = owner ∧ target ≠ caller ∧
      ∃ rc rt, self.find caller = some rc ∧ rc.outgoingJoin = none ∧
        self.find target = some rt ∧ rt.incomingJoin = none ∧ rt.joined = false := by
  unfold validateJoin at h
  simp only [ok_rules, record_eq_ok, requireRunning_eq_ok, not_or, Bool.not_eq_true,
    Option.isSome_eq_false_iff, Option.isNone_iff_eq_none] at h
  obtain ⟨_, _, _, hne, rc, ⟨hcaller, hc⟩, _, hout, rt, ⟨htarget, ht⟩, _, ⟨-, hjoined, hin⟩, -⟩ := h
  exact ⟨hcaller, htarget, Ne.symm hne, rc, rt, hc, hout, ht, hin, hjoined⟩

section

variable (h : Lifecycle self)
include h

/-- The two links of a join are set together. -/
theorem claimJoin_safe {caller target : ThreadId} : Safe (claimJoin owner caller target) self := by
  unfold Safe claimJoin
  simp only [wp_quiet]
  intro _ hvalid next _
  obtain ⟨hcaller, htarget, hne, rc, rt, hc, hout, ht, hin, hfresh⟩ := validateJoin_eq_ok hvalid
  have hset : Faithful fun r =>
      { r with outgoingJoin := some { caller, target, sequence := self.nextJoin } } :=
    ⟨fun _ => rfl, fun _ => rfl, fun _ h => h, fun _ h => h⟩
  have hfaithful := hset.onlyAt caller
  -- the new sequence number is not part of what the invariant reads
  have hself : SlotsMatch { self with nextJoin := next } := h.slotsMatch
  rw [← hcaller]
  refine wp_mapRecord hself hc fun self1 hm1 _ => ?_
  rw [hcaller, ← htarget]
  refine wp_mapRecord (hm1.slotsMatch hfaithful hself) (hm1.find_some hfaithful.id ht)
    fun self2 hm2 _ => ?_
  have hm := hm1.trans hm2
  refine h.mapped (g := relinked { caller, target, sequence := self.nextJoin } (some _))
    ⟨hm.value, hm.generation, hm.length, hm.processes, hm.pageLimit⟩ (faithful_relinked _ _)
    (h.running.relinked _ _)
    (h.joins.link (named_find self) hc ht (htarget.trans hcaller.symm) hne hout hin hfresh)

/-- The joins after a claim was given up and the result behind it consumed. -/
theorem Lifecycle.consumed {rt : Record} (ht : self.find claim.target = some rt)
    (hin : rt.incomingJoin = some claim)
    (hm : Mapped (fun r => onlyAt claim.target consumed (relinked claim none r)) self self') :
    Advances self self' := by
  refine h.mapped hm ((faithful_relinked claim none).comp (faithful_consumed.onlyAt _))
    (h.running.of_same fun _ r _ => ?_) ?_
  · unfold onlyAt
    split
    · exact fun hrun => by rwa [← snapshot_relinked claim none r]
    · rw [snapshot_relinked]
      exact fun hrun => hrun
  · have hunlinked := h.joins.unlink (named_find self) ht hin
    have hnamed : Named fun t => (self.find t).map (relinked claim none) := by
      intro t r hr
      obtain ⟨r0, hr0, rfl⟩ := map_eq_some_iff.mp hr
      rw [snapshot_relinked]
      exact (find_eq_some hr0).2
    have hconsumed := hunlinked.consume claim.target hnamed (by rw [ht, map_some])
      (by rw [incoming_relinked, if_pos (find_eq_some ht).2])
    simp only [map_map] at hconsumed
    exact hconsumed

/-- `join_result` leaves everything alone, or consumes the result of the target. -/
theorem wp_joinResult {Q : Option ℕ → ThreadTable → Prop} (hR : ∀ e, R e self) (hnone : Q none self)
    (hsome : ∀ result r' self', Advances self self' → self'.find claim.target = some r' →
      r'.joined = true → Q (some result) self') : (joinResult owner claim).wp Q R self := by
  unfold joinResult
  simp only [wp_rules, Act.wp_ite]
  refine ⟨fun _ _ => ⟨fun record _ => ⟨fun _ => hnone, fun _ => ?_⟩, fun _ _ => hR _⟩, fun _ _ => hR _⟩
  refine wp_cancelJoin h.slotsMatch hR fun rc rt self1 htarget _ ht hin hm1 => ?_
  rw [← htarget]
  have hfaithful := faithful_relinked claim none
  refine wp_mapRecord (f := consumed) (hm1.slotsMatch hfaithful h.slotsMatch)
    (hm1.find_some hfaithful.id ht) fun self2 hm2 _ => ?_
  have hm := hm1.trans hm2
  refine hsome _ _ self2 (h.consumed ht hin hm)
    (hm.find_some (hfaithful.comp (faithful_consumed.onlyAt _)).id ht) ?_
  rw [onlyAt_of_eq (by rw [snapshot_relinked, (find_eq_some ht).2])]
  rfl

theorem joinResult_safe : Safe (joinResult owner claim) self :=
  wp_joinResult h (fun _ => rfl) h.advances_refl fun _ _ _ hadv _ _ => hadv

end

/-! ## Exits -/

theorem wp_mapAll {f : Record → Record} (hQ : ∀ self', Mapped f self self' → Q () self') :
    (updateAll f).wp Q R self := by
  unfold updateAll
  refine hQ _ ⟨fun k => ?_, fun k => congrFun (generation_updateAll f) k, List.length_map _,
    fun _ => rfl, rfl⟩
  show ((self.slots.map _)[k]?).bind _ = _
  rw [List.getElem?_map, GenSlab.value]
  cases self.slots[k]? <;> rfl

/-- A transition that is known to be possible. -/
theorem wp_transition_of {target : ThreadState} (hself : SlotsMatch self)
    (hr : self.find id = some r)
    (hQ : ∀ self', Mapped (onlyAt id (inState target)) self self' →
      self'.processes = self.processes → Q () self') :
    (transition id.process id r.snapshot.state target).wp Q R self := by
  have hrecord : self.record id.process id = .ok r := record_eq_ok.mpr ⟨rfl, hr⟩
  unfold transition
  simp only [wp_quiet, hrecord, Except.ok.injEq, reduceCtorEq, false_imp_iff, forall_eq', ne_eq,
    not_true_eq_false]
  exact fun _ => wp_mapRecord hself hr hQ

/-- What `begin_exit` does to the records beside the claim it gives up. -/
def retiring (id : ThreadId) (r : Record) : Record :=
  if (onlyAt id (inState .exiting) r).creator = some id ∧
      (onlyAt id (inState .exiting) r).snapshot.state = .prepared then
    inState .revoked (onlyAt id (inState .exiting) r)
  else onlyAt id (inState .exiting) r

/-- A record is left as it is, or moved to a state in which it does not run. -/
theorem retiring_cases (id : ThreadId) (r : Record) :
    retiring id r = r ∨ ∃ state, state ≠ .running ∧ retiring id r = inState state r := by
  unfold retiring onlyAt
  by_cases hid : r.snapshot.id = id
  · simp only [hid, if_true]
    rw [if_neg (by simp [inState])]
    exact .inr ⟨.exiting, by simp, rfl⟩
  · simp only [hid, if_false]
    split
    · exact .inr ⟨.revoked, by simp, rfl⟩
    · exact .inl rfl

theorem faithful_retiring (id : ThreadId) : Faithful (retiring id) :=
  ((faithful_inState .exiting).onlyAt id).comp ((faithful_inState .revoked).ite
    (c := fun r => r.creator = some id ∧ r.snapshot.state = .prepared))

theorem Joins.retiring (h : Joins find) (id : ThreadId) :
    Joins fun t => (find t).map (ThreadTable.retiring id) := by
  refine h.of_same fun t r _ => ?_
  rcases retiring_cases id r with heq | ⟨state, -, heq⟩ <;> rw [heq]
  · exact ⟨rfl, rfl, .inl⟩
  · exact ⟨rfl, rfl, .inl⟩

theorem OneRuns.retiring (h : OneRuns find) (id : ThreadId) :
    OneRuns fun t => (find t).map (ThreadTable.retiring id) := by
  refine h.of_same fun t r _ => ?_
  rcases retiring_cases id r with heq | ⟨state, hstate, heq⟩ <;> rw [heq]
  · exact fun h => h
  · exact fun hrun => absurd hrun hstate

/-- The part of `begin_exit` after its claim was given up. -/
theorem wp_retire (hself : SlotsMatch self) (hr : self.find id = some r)
    (hrunning : r.snapshot.state = .running)
    (hQ : ∀ self', Mapped (retiring id) self self' → Q () self') :
    (do
      transition id.process id .running .exiting
      updateAll fun r =>
        if r.creator = some id ∧ r.snapshot.state = .prepared then
          { r with snapshot := { r.snapshot with state := .revoked } }
        else r : ThreadAct Unit).wp Q R self := by
  rw [Act.wp_bind, ← hrunning]
  refine wp_transition_of hself hr fun self1 hm1 _ => wp_mapAll fun self2 hm2 => ?_
  exact hQ self2 (hm1.trans hm2)

theorem beginExit_safe (h : Lifecycle self) : Safe (beginExit owner id) self := by
  unfold Safe beginExit
  rw [Act.wp_bind, Act.wp_get]
  simp only [Act.wp_bind (f := fun _ => Act.ofExcept _ >>= _), Act.wp_bind (x := Act.ofExcept _),
    Act.wp_bind (x := Act.reject _ _), Act.wp_ofExcept, Act.wp_reject, requireRunning_eq_ok,
    record_eq_ok, implies_true, and_true, true_and]
  rintro - ⟨hprocess, r, hr, -, -, hrunning⟩ r' ⟨-, hr'⟩ hfree
  obtain rfl := Option.mem_unique hr hr'
  rw [← hprocess, Act.wp_bind, cancelOutgoing]
  cases hclaim : r.outgoingJoin with
  | none =>
    exact wp_retire h.slotsMatch hr hrunning fun self' hm =>
      h.mapped hm (faithful_retiring id) (h.running.retiring id) (h.joins.retiring id)
  | some claim =>
    refine wp_cancelJoin h.slotsMatch (fun _ => rfl) fun rc rt self1 _ _ ht hin hm1 => ?_
    have hfaithful := faithful_relinked claim none
    refine wp_retire (hm1.slotsMatch hfaithful h.slotsMatch) (hm1.find_some hfaithful.id hr)
      (by rw [snapshot_relinked, hrunning]) fun self' hm2 => ?_
    have hrun := (h.running.relinked claim none).retiring id
    have hjoins := (h.joins.unlink (named_find self) ht hin).retiring id
    simp only [map_map] at hrun hjoins
    exact h.mapped (hm1.trans hm2) (hfaithful.comp (faithful_retiring id)) hrun hjoins

/-- Two rewritings of the same record. -/
theorem Mapped.onlyAt_trans {self1 : ThreadTable} {f g : Record → Record} (hf : Faithful f)
    (h : Mapped (onlyAt id f) self self1) (h' : Mapped (onlyAt id g) self1 self') :
    Mapped (onlyAt id fun r => g (f r)) self self' := by
  have hcomp : (fun r => onlyAt id g (onlyAt id f r)) = onlyAt id fun r => g (f r) := by
    funext r
    by_cases hid : r.snapshot.id = id
    · rw [onlyAt_of_eq hid, onlyAt_of_eq hid, onlyAt_of_eq ((hf.id r).trans hid)]
    · rw [onlyAt_of_ne hid, onlyAt_of_ne hid, onlyAt_of_ne hid]
  rw [← hcomp]
  exact h.trans h'

section

variable (h : Lifecycle self)
include h

theorem complete_safe {result : ℕ} : Safe (complete owner id result) self := by
  unfold Safe complete
  rw [Act.wp_bind]
  refine wp_transition h.slotsMatch (fun _ => rfl) fun r self1 hprocess hr _ hm1 _ => ?_
  have hfaithful := (faithful_inState .completed).onlyAt id
  have hresult : Faithful fun r => { r with result } :=
    ⟨fun _ => rfl, fun _ => rfl, fun _ h => h, fun _ h => h⟩
  rw [← hprocess]
  refine wp_mapRecord (hm1.slotsMatch hfaithful h.slotsMatch) (hm1.find_some hfaithful.id hr)
    fun self2 hm2 _ => ?_
  exact h.single hr ((faithful_inState .completed).comp hresult) (fun _ => ⟨rfl, rfl, rfl⟩)
    (fun hrun => by cases hrun) (Mapped.onlyAt_trans (faithful_inState .completed) hm1 hm2)

/-- An abort changes a record, and the process it belongs to. -/
theorem abortPrepared_safe : Safe (abortPrepared owner id) self := by
  unfold Safe abortPrepared
  simp only [wp_quiet, record_eq_ok]
  rintro r ⟨hprocess, hr⟩
  refine wp_transition h.slotsMatch (fun _ => rfl) fun r' self1 _ hr' _ hm1 hp1 => ?_
  have hadvance := h.single hr' (faithful_inState .revoked) (fun _ => ⟨rfl, rfl, rfl⟩)
    (fun hrun => by cases hrun) hm1
  rw [Act.wp_ite]
  refine ⟨fun _ => ?_, fun _ => hadvance⟩
  -- a record's process is registered, so the second write cannot fail
  obtain ⟨i, p, hp, hid⟩ := h.registered id r hr
  rw [← hp1] at hp
  obtain ⟨q, hq⟩ := exists_process hp (hid.trans hprocess)
  refine wp_mapProcess (fun _ => ⟨rfl, rfl⟩) hq fun self2 hm2 => ?_
  exact h.single hr' (faithful_inState .revoked) (fun _ => ⟨rfl, rfl, rfl⟩)
    (fun hrun => by cases hrun) (hm1.trans hm2)

variable {creator target : ThreadId}

theorem startWorker_safe : Safe (startWorker owner creator target) self := by
  unfold Safe startWorker
  simp only [wp_quiet]
  exact fun _ _ => start_safe h

theorem abortWorker_safe : Safe (abortWorker owner creator target) self := by
  unfold Safe abortWorker
  simp only [wp_quiet]
  exact fun _ _ => abortPrepared_safe h

end

/-! ## Stopping a process -/

/-- The records after a process was stopped. -/
def stopped (owner : ProcessId) (r : Record) : Record :=
  if r.snapshot.id.process = owner then stoppedRecord r else r

theorem faithful_stopped (owner : ProcessId) : Faithful (stopped owner) :=
  Faithful.ite (f := stoppedRecord) (c := (·.snapshot.id.process = owner))
    ⟨fun _ => rfl, fun _ => rfl, fun _ h => h, fun _ h => h⟩

/-- Claims do not cross processes, so both sides of a claim stop together. -/
theorem Joins.stopped (h : Joins find) (hnamed : Named find) (owner : ProcessId) :
    Joins fun t => (find t).map (ThreadTable.stopped owner) := by
  refine ⟨fun t r c hr hc => ?_, fun t r c hr hc => ?_, fun t r hr hjoined => ?_⟩
  · obtain ⟨r0, hr0, rfl⟩ := map_eq_some_iff.mp hr
    unfold ThreadTable.stopped at hc
    split at hc
    · cases hc
    next hother =>
      obtain ⟨hcaller, hprocess, hself, r', hr', hin⟩ := h.outgoing t r0 c hr0 hc
      refine ⟨hcaller, hprocess, hself, _, by rw [hr', map_some], ?_⟩
      rw [ThreadTable.stopped, if_neg, hin]
      rwa [hnamed _ _ hr', hprocess, ← hnamed _ _ hr0]
  · obtain ⟨r0, hr0, rfl⟩ := map_eq_some_iff.mp hr
    unfold ThreadTable.stopped at hc
    split at hc
    · cases hc
    next hother =>
      obtain ⟨htarget, r', hr', hout⟩ := h.incoming t r0 c hr0 hc
      obtain ⟨-, hprocess, -⟩ := h.outgoing _ r' c hr' hout
      refine ⟨htarget, _, by rw [hr', map_some], ?_⟩
      rw [ThreadTable.stopped, if_neg, hout]
      rwa [hnamed _ _ hr', ← hprocess, htarget, ← hnamed _ _ hr0]
  · obtain ⟨r0, hr0, rfl⟩ := map_eq_some_iff.mp hr
    unfold ThreadTable.stopped at hjoined ⊢
    split
    · rfl
    next hother =>
      rw [if_neg hother] at hjoined
      exact h.joined t r0 hr0 hjoined

/-- Stopping a process is one change of it and one of all records. -/
theorem stopProcess_safe (h : Lifecycle self) : Safe (stopProcess owner) self := by
  unfold Safe stopProcess
  rw [Act.wp_bind]
  cases hprocess : self.process owner with
  | error e => simp [updateProcess, hprocess]
  | ok p =>
    refine wp_mapProcess (fun _ => ⟨rfl, rfl⟩) hprocess fun self1 hm1 => ?_
    rw [Act.wp_bind, Act.wp_modify]
    refine wp_mapAll fun self2 hm2 => ?_
    have hm := hm1.trans ⟨hm2.value, hm2.generation, hm2.length, hm2.processes, hm2.pageLimit⟩
    refine h.mapped (g := stopped owner) hm (faithful_stopped owner)
      (h.running.of_same fun t r _ => ?_) (h.joins.stopped (named_find self) owner)
    unfold stopped
    split
    · exact fun hrun => by cases hrun
    · exact fun hrun => hrun

end ThreadTable

end Troe.Task
