import Troe.Dispatch.DispatchHistory

/-!
# Authority at the dispatcher

The tables of the dispatcher agree with the history: a handle has a binding exactly when it is `Held`,
and a port has a service exactly when the port `Serves` it. Every operation keeps that, so every event
of every run is `Justified`, and what was closed stays closed.
-/

namespace Troe.Dispatch

open Lib Abi KeySlab
open Act (always_mono of_wp wp_bind wp_mono)
open DispatchCall (invocation ownedInvocation)
open DispatchEvent (evolve)
open Dispatcher (account admitCall allocateHandle call callInto close closeOwner closePort new
  openOwned openSchedulerOwned ownedHandle putService register validatePort)

variable {σ : Type} {self d : Dispatcher σ} {handle : Handle} {binding : HandleBinding} {port : PortId}
  {α : Type} {handles : KeySlab HandleBinding Unit} {granted : Bool} {rights : Rights}
  {owner : HandleOwner} {presenter : Option HandleOwner} {opcode value : ℕ} {payload : Bytes}
  {destination : Option Bytes}

/-! ## Lookups -/

/-- A handle is good for the binding that its slot holds. -/
theorem handleBinding_eq_ok : self.handleBinding handle = .ok binding ↔
    Holds self.handles handle.slot handle.generation binding := by
  simp only [Dispatcher.handleBinding, ok_rules, not_not, Holds]
  constructor
  · rintro ⟨slot, hslot, _, hgeneration, hbinding⟩
    exact ⟨slot, hslot, hgeneration, hbinding⟩
  · rintro ⟨slot, hslot, hgeneration, hbinding⟩
    exact ⟨slot, hslot, (), hgeneration, hbinding⟩

/-- A port is valid while its slot holds a service. -/
theorem validatePort_eq_ok {u : Unit} : self.validatePort port = .ok u ↔
    ∃ service, Holds self.ports port.slot port.generation service := by
  simp only [validatePort, ok_rules, not_or, not_not, Holds, Bool.not_eq_true,
    Option.isNone_eq_false_iff, Option.isSome_iff_exists]
  constructor
  · rintro ⟨slot, hslot, hgeneration, service, hservice⟩
    exact ⟨service, slot, hslot, hgeneration, hservice⟩
  · rintro ⟨service, slot, hslot, hgeneration, hservice⟩
    exact ⟨slot, hslot, hgeneration, service, hservice⟩

/-- What an allocation does to a table that is within its bounds. -/
theorem allocate_cases {slab : KeySlab α Unit} {capacity : ℕ} (exhausted : DispatchError)
    (granted : Bool) (value : α) (hlength : slab.length ≤ capacity) (hcapacity : capacity ≤ 2 ^ 32) :
    (∃ e, allocate slab capacity exhausted granted value = (.error e, slab)) ∨
      ∃ i g slab', allocate slab capacity exhausted granted value = (.ok (i, g), slab') ∧
        Issues slab slab' i g value ∧ slab'.length ≤ capacity := by
  unfold allocate
  split
  next index hvacancy =>
    obtain ⟨slot, hslot, -⟩ := vacancy_eq_some hvacancy
    have hindex : index < slab.length := (List.getElem?_eq_some_iff.mp hslot).1
    refine .inr ⟨index, slab.generation index, _, ?_, issues_store hvacancy, ?_⟩
    · rw [rejectIf, if_neg (by omega)]
      rfl
    · rwa [List.length_modify]
  · split_ifs with hfull hgranted
    · exact .inl ⟨_, rfl⟩
    · exact .inl ⟨_, rfl⟩
    · have hissues : Issues slab (slab ++ [⟨1, false, some value, ()⟩]) slab.length 1 value :=
        issues_append slab rfl
      refine .inr ⟨slab.length, 1, _, ?_, hissues, ?_⟩
      · rw [rejectIf, if_neg (by omega)]
        rfl
      · rw [List.length_append, List.length_singleton]
        omega

/-! ## The invariant -/

/-- The two dispatchers have the same tables; their counters may differ. -/
structure SameTables (before after : Dispatcher σ) : Prop where
  ports : after.ports = before.ports
  handles : after.handles = before.handles
  portCapacity : after.portCapacity = before.portCapacity
  handleCapacity : after.handleCapacity = before.handleCapacity

theorem SameTables.refl (self : Dispatcher σ) : SameTables self self := ⟨rfl, rfl, rfl, rfl⟩

variable [Service σ] {h : History σ} {e : DispatchEvent σ}

/-- The tables agree with the history. -/
structure Inv (dispatcher : Dispatcher σ) (h : History σ) : Prop where
  portCapacity : dispatcher.portCapacity ≤ maxPorts
  handleCapacity : dispatcher.handleCapacity ≤ maxHandles
  portLength : dispatcher.ports.length ≤ dispatcher.portCapacity
  handleLength : dispatcher.handles.length ≤ dispatcher.handleCapacity
  handles : ∀ handle binding,
    Holds dispatcher.handles handle.slot handle.generation binding ↔ Held h handle binding
  ports : ∀ port service,
    Holds dispatcher.ports port.slot port.generation service ↔ Serves h port service
  issued : ∀ handle binding, .issued handle binding ∈ h →
    Used dispatcher.handles handle.slot handle.generation
  registered : ∀ port service, .registered port service ∈ h →
    Used dispatcher.ports port.slot port.generation
  sound : Sound h

/-- The tables have room for no more than they had. -/
structure Sized (before after : Dispatcher σ) : Prop where
  portCapacity : after.portCapacity = before.portCapacity
  handleCapacity : after.handleCapacity = before.handleCapacity
  portLength : after.ports.length ≤ after.portCapacity
  handleLength : after.handles.length ≤ after.handleCapacity

theorem Inv.portLimit (hinv : Inv self h) : self.portCapacity ≤ 2 ^ 32 :=
  Nat.le_trans hinv.portCapacity (by decide)

theorem Inv.handleLimit (hinv : Inv self h) : self.handleCapacity ≤ 2 ^ 32 :=
  Nat.le_trans hinv.handleCapacity (by decide)

/-- The invariant after an event that changes the tables as it should. -/
theorem Inv.concat (hinv : Inv self h) (hsized : Sized self d)
    (hhandles : ∀ handle binding, Holds d.handles handle.slot handle.generation binding ↔
      e = .issued handle binding ∨
        Holds self.handles handle.slot handle.generation binding ∧ ¬ e.Revokes handle binding)
    (hports : ∀ port service, Holds d.ports port.slot port.generation service ↔
      e = .registered port service ∨ e ≠ .closedPort port ∧
        ∃ before, Holds self.ports port.slot port.generation before ∧ service = e.evolve port before)
    (husedHandles : ∀ i g, Used self.handles i g → Used d.handles i g)
    (husedPorts : ∀ i g, Used self.ports i g → Used d.ports i g) (hjust : Justified h e) :
    Inv d (h ++ [e]) where
  portCapacity := hsized.portCapacity ▸ hinv.portCapacity
  handleCapacity := hsized.handleCapacity ▸ hinv.handleCapacity
  portLength := hsized.portLength
  handleLength := hsized.handleLength
  handles handle binding := by rw [hhandles, hinv.handles, held_concat]
  ports port service := by simp only [hports, hinv.ports, serves_concat]
  issued handle binding hissued := by
    rcases List.mem_append.mp hissued with hissued | hissued
    · exact husedHandles _ _ (hinv.issued handle binding hissued)
    · exact ((hhandles handle binding).mpr (.inl (List.mem_singleton.mp hissued).symm)).used
  registered port service hregistered := by
    rcases List.mem_append.mp hregistered with hregistered | hregistered
    · exact husedPorts _ _ (hinv.registered port service hregistered)
    · exact ((hports port service).mpr (.inl (List.mem_singleton.mp hregistered).symm)).used
  sound := hinv.sound.concat hjust

/-- The invariant after a change that shows in no key. -/
theorem Inv.congr (hinv : Inv self h) (hsized : Sized self d)
    (hhandles : ∀ i g binding, Holds d.handles i g binding ↔ Holds self.handles i g binding)
    (hports : ∀ i g service, Holds d.ports i g service ↔ Holds self.ports i g service)
    (husedHandles : ∀ i g, Used self.handles i g → Used d.handles i g)
    (husedPorts : ∀ i g, Used self.ports i g → Used d.ports i g) : Inv d h where
  portCapacity := hsized.portCapacity ▸ hinv.portCapacity
  handleCapacity := hsized.handleCapacity ▸ hinv.handleCapacity
  portLength := hsized.portLength
  handleLength := hsized.handleLength
  handles handle binding := by rw [hhandles, hinv.handles]
  ports port service := by rw [hports, hinv.ports]
  issued handle binding hissued := husedHandles _ _ (hinv.issued handle binding hissued)
  registered port service hregistered := husedPorts _ _ (hinv.registered port service hregistered)
  sound := hinv.sound

theorem Inv.sameTables (hinv : Inv self h) (hsame : SameTables self d) : Inv d h := by
  obtain ⟨hports, hhandles, hportCapacity, hhandleCapacity⟩ := hsame
  refine hinv.congr ⟨hportCapacity, hhandleCapacity, ?_, ?_⟩ ?_ ?_ ?_ ?_
  · rw [hports, hportCapacity]
    exact hinv.portLength
  · rw [hhandles, hhandleCapacity]
    exact hinv.handleLength
  all_goals simp [hports, hhandles]

/-! ## Opening and closing -/

/-- A handle is issued. -/
theorem Inv.issue (hinv : Inv self h)
    (hissues : Issues self.handles handles handle.slot handle.generation binding)
    (hlength : handles.length ≤ self.handleCapacity)
    (htarget : ∀ port, binding.target = .service port → ∃ service, Serves h port service) :
    Inv { self with handles } (h ++ [.issued handle binding]) := by
  refine hinv.concat ⟨rfl, rfl, hinv.portLength, hlength⟩ ?_ ?_ hissues.used (fun _ _ h => h) ?_
  · intro handle' binding'
    rw [hissues.holds, ← and_assoc, ← Handle.ext_iff]
    simp [DispatchEvent.Revokes, eq_comm]
  · intro port service
    simp [evolve]
  · exact ⟨fun binding' hissued => hissues.fresh (hinv.issued handle binding' hissued), htarget⟩

variable {service : σ} {ports : KeySlab σ Unit} {run : DispatchRun σ}

/-- A service is registered. -/
theorem Inv.register (hinv : Inv self h)
    (hissues : Issues self.ports ports port.slot port.generation service)
    (hlength : ports.length ≤ self.portCapacity) :
    Inv { self with ports } (h ++ [.registered port service]) := by
  refine hinv.concat ⟨rfl, rfl, hlength, hinv.handleLength⟩ ?_ ?_ (fun _ _ h => h) hissues.used ?_
  · intro handle binding
    simp [DispatchEvent.Revokes]
  · intro port' service'
    rw [hissues.holds, ← and_assoc, ← PortId.ext_iff]
    simp [evolve, eq_comm]
  · exact fun service' hregistered => hissues.fresh (hinv.registered port service' hregistered)

/-- Handles are closed, and no port is. -/
theorem Inv.revoke (hinv : Inv self h) (hrevokes : KeySlab.Revokes self.handles handles
      fun slot generation binding => e.Revokes ⟨slot, generation⟩ binding)
    (hlength : handles.length ≤ self.handleCapacity) (hissued : ∀ handle binding,
      e ≠ .issued handle binding) (hports : ∀ port service, e ≠ .registered port service ∧
      e ≠ .closedPort port ∧ e.evolve port service = service) (hjust : Justified h e) :
    Inv { self with handles } (h ++ [e]) := by
  refine hinv.concat ⟨rfl, rfl, hinv.portLength, hlength⟩ ?_ ?_ hrevokes.used (fun _ _ h => h) hjust
  · intro handle binding
    rw [hrevokes.holds, or_iff_right (hissued handle binding)]
  · intro port service
    rw [or_iff_right (hports port service).1, and_iff_right (hports port service).2.1]
    constructor
    · exact fun hholds => ⟨service, hholds, ((hports port service).2.2).symm⟩
    · rintro ⟨before, hholds, rfl⟩
      rwa [(hports port before).2.2]

/-- How an operation leaves the dispatcher that adds `events` to the history if it returns, and
nothing if it does not. -/
abbrev Upholds {α : Type} (operation : DispatchAct σ α) (self : Dispatcher σ) (h : History σ)
    (events : α → History σ) : Prop :=
  operation.wp (fun a d => Inv d (h ++ events a)) (fun _ d => d = self) self

section

variable (hinv : Inv self h)
include hinv

/-- A handle to a port is issued while a service is served there. -/
theorem upholds_allocateHandle
    (htarget : ∀ port, binding.target = .service port → ∃ service, Serves h port service) :
    Upholds (allocateHandle binding granted) self h (fun handle => [.issued handle binding]) := by
  simp only [Upholds, allocateHandle, wp_quiet]
  intro _
  rcases allocate_cases .handleCapacityExhausted granted binding hinv.handleLength hinv.handleLimit
    with ⟨e, heq⟩ | ⟨i, g, handles, heq, hissues, hlength⟩
  · rw [heq]
    exact ⟨fun _ hok => (by cases hok), fun _ _ => rfl⟩
  · rw [heq]
    refine ⟨?_, fun _ herror => (by cases herror)⟩
    rintro _ hok
    cases hok
    exact hinv.issue hissues hlength htarget

/-- A new handle for a port stands for the service that is registered there. -/
theorem upholds_openOwned :
    Upholds (openOwned port rights owner granted) self h
      (fun handle => [.issued handle ⟨.service port, rights, owner⟩]) := by
  simp only [Upholds, openOwned, wp_quiet]
  intro _ _ hvalid
  refine upholds_allocateHandle hinv fun port' htarget => ?_
  obtain rfl := HandleTarget.service.inj htarget
  obtain ⟨service, hholds⟩ := validatePort_eq_ok.mp hvalid
  exact ⟨service, (hinv.ports port service).mp hholds⟩

theorem upholds_openSchedulerOwned {interface : SchedulerInterface} :
    Upholds (openSchedulerOwned interface rights owner granted) self h
      (fun handle => [.issued handle ⟨.scheduler interface, rights, owner⟩]) := by
  simp only [Upholds, openSchedulerOwned, wp_quiet, Rights.forInterface]
  intro _ rights' hrights
  obtain ⟨_, -, hrights⟩ := bind_eq_ok.mp hrights
  cases hrights
  exact upholds_allocateHandle hinv fun port htarget => by cases htarget

theorem upholds_close : Upholds (close handle) self h (fun _ => [.closed handle]) := by
  simp only [Upholds, close, wp_quiet]
  intro binding hbinding
  have hholds := handleBinding_eq_ok.mp hbinding
  have hrevokes := revokes_vacate maxGeneration hholds
  refine hinv.revoke ⟨fun i g b => ?_, hrevokes.used⟩ ?_ (by simp) (by simp [evolve]) ?_
  · rw [hrevokes.holds, DispatchEvent.Revokes, Handle.ext_iff]
    simp [eq_comm]
  · rw [List.length_modify]
    exact hinv.handleLength
  · exact ⟨binding, (hinv.handles handle binding).mp hholds⟩

theorem upholds_closeOwner : Upholds (closeOwner owner) self h (fun _ => [.closedOwner owner]) := by
  simp only [Upholds, closeOwner, wp_quiet]
  intro howner _
  have hrevokes := revokes_vacateAll self.handles maxGeneration
    fun binding : HandleBinding => binding.owner = owner
  refine hinv.revoke ⟨fun i g b => ?_, hrevokes.used⟩ ?_ (by simp) (by simp [evolve]) ?_
  · rw [hrevokes.holds, DispatchEvent.Revokes, decide_eq_true_iff]
  · rw [KeySlab.vacateAll, List.length_map]
    exact hinv.handleLength
  · exact eq_true_of_ne_false howner

/-- A port that nothing was registered at since has no handles. -/
theorem Inv.not_target (hfresh : ¬ Used self.ports port.slot port.generation) {i g : ℕ}
    (hholds : Holds self.handles i g binding) : binding.target ≠ .service port := by
  intro htarget
  have hheld := (hinv.handles ⟨i, g⟩ binding).mp hholds
  obtain ⟨service, hserves⟩ := hinv.sound.serves_of_held hheld htarget
  exact hfresh ((hinv.ports port service).mpr hserves).used

end

/-- The dispatcher after a port is closed. -/
def portClosed (self : Dispatcher σ) (port : PortId) : Dispatcher σ :=
  { self with
    handles := self.handles.vacateAll maxGeneration fun binding => binding.target = .service port
    ports := self.ports.modify port.slot (KeySlot.vacate maxGeneration) }

theorem sized_portClosed (hinv : Inv self h) (port : PortId) : Sized self (portClosed self port) := by
  refine ⟨rfl, rfl, ?_, ?_⟩
  · show (self.ports.modify _ _).length ≤ self.portCapacity
    rw [List.length_modify]
    exact hinv.portLength
  · show (self.handles.vacateAll _ _).length ≤ self.handleCapacity
    rw [KeySlab.vacateAll, List.length_map]
    exact hinv.handleLength

theorem upholds_closePort (hinv : Inv self h) :
    Upholds (closePort port) self h (fun _ => [.closedPort port]) := by
  simp only [Upholds, closePort, wp_quiet]
  intro _ hvalid
  obtain ⟨service, hholds⟩ := validatePort_eq_ok.mp hvalid
  have hports := revokes_vacate maxGeneration hholds
  have hhandles := revokes_vacateAll self.handles maxGeneration
    fun binding : HandleBinding => binding.target = .service port
  refine hinv.concat (d := portClosed self port) (sized_portClosed hinv port) ?_ ?_ hhandles.used
    hports.used ⟨service, (hinv.ports port service).mp hholds⟩
  · intro handle binding
    simp [portClosed, hhandles.holds, DispatchEvent.Revokes]
  · intro port' service'
    simp only [portClosed, hports.holds, evolve, reduceCtorEq, false_or,
      ← PortId.ext_iff, exists_eq_right', ne_eq, DispatchEvent.closedPort.injEq]
    rw [and_comm, eq_comm]

/-- A port that is closed right after it was registered leaves no trace. -/
theorem Inv.portClosed_new (hinv : Inv self h)
    (hissues : Issues self.ports ports port.slot port.generation service)
    (hlength : ports.length ≤ self.portCapacity) : Inv (portClosed { self with ports } port) h := by
  have hholds : Holds ports port.slot port.generation service :=
    (hissues.holds _ _ service).mpr (.inl ⟨rfl, rfl, rfl⟩)
  have hports := revokes_vacate maxGeneration hholds
  have hhandles := revokes_vacateAll self.handles maxGeneration
    fun binding : HandleBinding => binding.target = .service port
  have hsized := sized_portClosed (hinv.register hissues hlength) port
  refine hinv.congr ⟨hsized.portCapacity, hsized.handleCapacity, hsized.portLength,
    hsized.handleLength⟩ ?_ ?_ hhandles.used fun i g hused => hports.used i g (hissues.used i g hused)
  · intro i g binding
    simp only [portClosed, hhandles.holds, decide_eq_true_iff]
    exact and_iff_left_of_imp fun hbinding => hinv.not_target hissues.fresh hbinding
  · intro i g service'
    simp only [portClosed, hports.holds, hissues.holds]
    constructor
    · rintro ⟨⟨hi, hg, -⟩ | hold, hnot⟩
      · exact absurd ⟨hi, hg⟩ hnot
      · exact hold
    · intro hold
      refine ⟨.inr hold, ?_⟩
      rintro ⟨rfl, rfl⟩
      exact hissues.fresh hold.used

theorem upholds_register {portGranted handleGranted : Bool} (hinv : Inv self h) :
    (register service rights portGranted handleGranted).wp
      (fun (port, handle) d => Inv d (h ++ [.registered port service,
        .issued handle ⟨.service port, rights, .kernel⟩]))
      (fun _ d => Inv d h) self := by
  simp only [register, Dispatcher.allocatePort, wp_rules]
  rcases allocate_cases .portCapacityExhausted portGranted service hinv.portLength hinv.portLimit
    with ⟨e, heq⟩ | ⟨i, g, ports, heq, hissues, hlength⟩
  · rw [heq]
    exact ⟨fun _ hok => (by cases hok), fun _ _ => hinv⟩
  · rw [heq]
    refine ⟨?_, fun _ herror => (by cases herror)⟩
    rintro _ hok
    cases hok
    have hregistered : Inv { self with ports } (h ++ [.registered ⟨i, g⟩ service]) :=
      hinv.register hissues hlength
    rw [Act.wp_attempt]
    refine wp_mono (upholds_openOwned hregistered) ?_ ?_
    · intro handle d hd
      rw [List.append_assoc] at hd
      exact hd
    · rintro e _ rfl
      have hholds : Holds ports i g service := (hissues.holds i g service).mpr (.inl ⟨rfl, rfl, rfl⟩)
      have hvalid : validatePort { self with ports } ⟨i, g⟩ = .ok () :=
        validatePort_eq_ok.mpr ⟨service, hholds⟩
      simp only [closePort, wp_rules, Act.wp_attempt, hvalid]
      have hclosed : Inv (portClosed { self with ports } ⟨i, g⟩) h :=
        hinv.portClosed_new hissues hlength
      exact ⟨fun _ _ => hclosed, fun _ herror => (by cases herror)⟩

/-! ## Calls -/

/-- The dispatcher after the service at a port has become another. -/
def withService (self : Dispatcher σ) (port : PortId) (service : σ) : Dispatcher σ :=
  { self with ports := self.ports.modify port.slot (KeySlot.store service) }

omit [Service σ] in
/-- A call is admitted through a handle with the call right, to the service of its port. -/
theorem admitCall_spec (self : Dispatcher σ) (handle : Handle) (opcode : ℕ) (payload : Bytes)
    (destination : Option Bytes) :
    (admitCall handle opcode payload destination).wp
      (fun (port, service, _) d => SameTables self d ∧
        Holds self.ports port.slot port.generation service ∧
        ∃ binding, Holds self.handles handle.slot handle.generation binding ∧
          binding.target = .service port ∧ binding.rights.contains Rights.call = true)
      (fun _ d => SameTables self d) self := by
  have hrefl := SameTables.refl self
  simp only [admitCall, wp_quiet, hrefl]
  intro _ binding hbinding hright
  split
  · exact hrefl
  next port htarget =>
    simp only [wp_quiet, hrefl]
    intro _ hvalid _ _ _ _ _ _
    refine ⟨fun service hservice => ⟨⟨rfl, rfl, rfl, rfl⟩, ?_, ?_⟩, fun _ => ⟨rfl, rfl, rfl, rfl⟩⟩
    · obtain ⟨other, slot, hslot, hgeneration, hother⟩ := validatePort_eq_ok.mp hvalid
      rw [record_of_slot hslot] at hservice
      exact ⟨slot, hslot, hgeneration, hservice⟩
    · exact ⟨binding, handleBinding_eq_ok.mp hbinding, htarget, eq_true_of_ne_false hright⟩

omit [Service σ] in
theorem SameTables.withService (hsame : SameTables self d) (port : PortId) (service : σ) :
    SameTables (withService self port service) (withService d port service) := by
  obtain ⟨hports, hhandles, hportCapacity, hhandleCapacity⟩ := hsame
  refine ⟨?_, hhandles, hportCapacity, hhandleCapacity⟩
  show d.ports.modify _ _ = self.ports.modify _ _
  rw [hports]

omit [Service σ] in
theorem account_sameTables {payloadBytes copies allocations : ℕ} (hsame : SameTables self d) :
    (account payloadBytes copies allocations).always (SameTables self) d := by
  simp only [account, wp_quiet, hsame]
  intro _ _ _ _ _ _ _ _
  obtain ⟨hports, hhandles, hportCapacity, hhandleCapacity⟩ := hsame
  exact ⟨hports, hhandles, hportCapacity, hhandleCapacity⟩

/-- A service handles a request that was admitted. -/
theorem Inv.invoke {delivery : Delivery} (hinv : Inv self h)
    (hholds : Holds self.ports port.slot port.generation service)
    (hbinding : Holds self.handles handle.slot handle.generation binding)
    (htarget : binding.target = .service port) (hright : binding.rights.contains Rights.call = true)
    (hpresenter : ∀ owner ∈ presenter, binding.owner = owner) :
    Inv (withService self port (delivery.after service))
      (h ++ [.invoked presenter handle port service delivery]) := by
  have hreplaces := replaces_store (v := delivery.after service) hholds
  refine hinv.concat ⟨rfl, rfl, ?_, hinv.handleLength⟩ ?_ ?_ (fun _ _ h => h) hreplaces.used ?_
  · show (self.ports.modify _ _).length ≤ self.portCapacity
    rw [List.length_modify]
    exact hinv.portLength
  · intro handle' binding'
    simp [DispatchEvent.Revokes, withService]
  · intro port' service'
    simp only [withService, hreplaces.holds, ← PortId.ext_iff, evolve, reduceCtorEq,
      false_or, ne_eq, not_false_eq_true, true_and]
    by_cases hport : port' = port
    · subst hport
      simp only [if_true]
      constructor
      · rintro rfl
        exact ⟨service, hholds, rfl⟩
      · rintro ⟨before, hbefore, rfl⟩
        rw [hbefore.unique hholds]
    · simp [hport, Ne.symm hport]
  · exact ⟨(hinv.ports port service).mp hholds, binding, (hinv.handles handle binding).mp hbinding,
      htarget, hright, hpresenter⟩

/-- An owner who presents the handle owns what it names. -/
abbrev Presents (self : Dispatcher σ) (presenter : Option HandleOwner) (handle : Handle) : Prop :=
  ∀ owner ∈ presenter, ∀ binding,
    Holds self.handles handle.slot handle.generation binding → binding.owner = owner

/-- What a call of either kind does: it stops before the service, or the service handles the request
and the rest changes no table. -/
theorem upholds_deliver {rest : PortId × σ × Request → DispatchAct σ α} (hinv : Inv self h)
    (hpresenter : Presents self presenter handle)
    (hrest : ∀ port service request d, (rest (port, service, request)).always
      (SameTables (withService d port (Delivery.after ⟨request, destination⟩ service))) d) :
    (admitCall handle opcode payload destination >>= rest).always
      (Inv · (h ++ invocation self presenter handle opcode payload destination)) self := by
  have hspec := admitCall_spec self handle opcode payload destination
  apply wp_bind.mpr
  unfold invocation
  unfold Act.wp at hspec ⊢
  split
  next admitted d heq =>
    obtain ⟨port, service, request⟩ := admitted
    rw [heq] at hspec ⊢
    obtain ⟨hsame, hholds, binding, hbinding, htarget, hright⟩ := hspec
    have hinvoked : Inv (withService self port (Delivery.after ⟨request, destination⟩ service))
        (h ++ [.invoked presenter handle port service ⟨request, destination⟩]) :=
      hinv.invoke hholds hbinding htarget hright
        fun owner howner => hpresenter owner howner binding hbinding
    have hserved := hinvoked.sameTables (hsame.withService port _)
    exact always_mono (hrest port service request d) fun _ => hserved.sameTables
  next e d heq =>
    rw [heq] at hspec ⊢
    rw [List.append_nil]
    exact hinv.sameTables hspec

theorem upholds_call (hinv : Inv self h) (hpresenter : Presents self presenter handle) :
    (call handle opcode payload).always
      (Inv · (h ++ invocation self presenter handle opcode payload none)) self := by
  refine upholds_deliver hinv hpresenter fun port service request d => ?_
  simp only [putService, wp_rules]
  exact ⟨fun _ _ => ⟨fun _ => .refl _, fun _ => account_sameTables (.refl _)⟩, fun _ _ => .refl _⟩

theorem upholds_callInto {destination : Bytes} (hinv : Inv self h)
    (hpresenter : Presents self presenter handle) :
    (callInto handle opcode payload destination).always
      (Inv · (h ++ invocation self presenter handle opcode payload (some destination))) self := by
  refine upholds_deliver hinv hpresenter fun port service request d => ?_
  simp only [putService, wp_rules]
  exact ⟨fun _ _ => ⟨fun _ => .refl _, fun _ => account_sameTables (.refl _)⟩, fun _ _ => .refl _⟩

omit [Service σ] in
/-- The value of a handle is good only for its owner. -/
theorem ownedHandle_spec (self : Dispatcher σ) (owner : HandleOwner) (value : ℕ) :
    (ownedHandle owner value).wp (fun handle d => d = self ∧ ∀ binding,
        Holds self.handles handle.slot handle.generation binding → binding.owner = owner)
      (fun _ d => d = self) self := by
  simp only [ownedHandle, wp_quiet, not_not]
  intro _ handle _ binding hbinding howner binding' hbinding'
  rwa [hbinding'.unique (handleBinding_eq_ok.mp hbinding)]

/-- A call with the value of a handle. -/
theorem upholds_owned {operation : Handle → DispatchAct σ α} (hinv : Inv self h)
    (hoperation : ∀ handle, Presents self (some owner) handle → (operation handle).always
      (Inv · (h ++ invocation self (some owner) handle opcode payload destination)) self) :
    (ownedHandle owner value >>= operation).always
      (Inv · (h ++ ownedInvocation self owner value opcode payload destination)) self := by
  have hspec := ownedHandle_spec self owner value
  apply wp_bind.mpr
  unfold ownedInvocation
  unfold Act.wp at hspec ⊢
  split
  next handle d heq =>
    rw [heq] at hspec ⊢
    obtain ⟨rfl, howner⟩ := hspec
    refine hoperation handle fun owner' howner' binding hbinding => ?_
    rw [← Option.some.inj howner']
    exact howner binding hbinding
  next e d heq =>
    rw [heq] at hspec ⊢
    rw [List.append_nil, hspec]
    exact hinv

/-- A call is authorized through an owned handle whose rights suffice. -/
theorem upholds_authorize {bytes : Bytes} (hinv : Inv self h) :
    (Dispatcher.authorizeSchedulerOwnedAbi owner value bytes).wp
      (fun call d => Inv d (h ++ DispatchCall.events self
        (.authorizeSchedulerOwnedAbi owner value bytes) (.ok (.authorized call))))
      (fun _ d => d = self) self := by
  simp only [Dispatcher.authorizeSchedulerOwnedAbi, wp_quiet, not_not]
  intro hisolated handle hhandle binding hbinding howner
  split
  · trivial
  next interface htarget =>
    simp only [wp_quiet, mapError_eq_ok]
    intro request hrequest required hrequired hcontains
    have hheld := (hinv.handles handle binding).mp (handleBinding_eq_ok.mp hbinding)
    obtain rfl : required = ⟨request.requiredRights⟩ := by
      simp only [Rights.fromBits, ok_rules] at hrequired
      obtain ⟨_, -, _, -, hrequired⟩ := hrequired
      rw [← Except.ok.inj hrequired, BitVec.ofNat_toNat, BitVec.setWidth_eq]
    simp only [DispatchCall.events, hhandle]
    refine hinv.concat ⟨rfl, rfl, hinv.portLength, hinv.handleLength⟩ ?_ ?_ (fun _ _ h => h)
      (fun _ _ h => h) ?_
    · simp [DispatchEvent.Revokes]
    · simp [evolve]
    · exact ⟨binding, interface, hheld, htarget, howner, eq_true_of_ne_false hisolated,
        ThreadRequest.interface_of_decode _ hrequest, eq_true_of_ne_false hcontains⟩

/-! ## Runs -/

/-- Every operation keeps the invariant. -/
theorem Inv.step (hinv : Inv run.dispatcher run.history) (call : DispatchCall σ) :
    Inv (run.step call).dispatcher (run.step call).history := by
  have hsame : ∀ d, d = run.dispatcher → Inv d (run.history ++ []) := by
    rintro d rfl
    rwa [List.append_nil]
  refine of_wp (P := fun result d =>
    Inv d (run.history ++ call.events run.dispatcher result)) ?_
  cases call with
  | register service rights portGranted handleGranted =>
    refine wp_bind.mpr (wp_mono (upholds_register hinv) (fun _ _ h => h) fun _ d hd => ?_)
    exact (List.append_nil run.history).symm ▸ hd
  | openOwned port rights owner granted =>
    exact wp_bind.mpr (wp_mono (upholds_openOwned hinv) (fun _ _ h => h) fun _ => hsame)
  | openSchedulerOwned interface rights owner granted =>
    exact wp_bind.mpr (wp_mono (upholds_openSchedulerOwned hinv) (fun _ _ h => h) fun _ => hsame)
  | close handle =>
    exact wp_bind.mpr (wp_mono (upholds_close hinv) (fun _ _ h => h) fun _ => hsame)
  | closeOwner owner =>
    exact wp_bind.mpr (wp_mono (upholds_closeOwner hinv) (fun _ _ h => h) fun _ => hsame)
  | closePort port =>
    exact wp_bind.mpr (wp_mono (upholds_closePort hinv) (fun _ _ h => h) fun _ => hsame)
  | call handle opcode payload =>
    exact wp_bind.mpr (upholds_call hinv (by simp [Presents]))
  | callInto handle opcode payload destination =>
    exact wp_bind.mpr (upholds_callInto hinv (by simp [Presents]))
  | callOwnedAbi owner value opcode payload =>
    exact wp_bind.mpr (upholds_owned hinv fun _ => upholds_call hinv)
  | callOwnedAbiInto owner value opcode payload destination =>
    exact wp_bind.mpr (upholds_owned hinv fun _ => upholds_callInto hinv)
  | authorizeSchedulerOwnedAbi owner value bytes =>
    exact wp_bind.mpr (wp_mono (upholds_authorize hinv) (fun _ _ h => h) fun _ => hsame)

theorem Inv.after (hinv : Inv run.dispatcher run.history) (calls : List (DispatchCall σ)) :
    Inv (run.after calls).dispatcher (run.after calls).history := by
  induction calls generalizing run with
  | nil => exact hinv
  | cons call calls ih => exact ih (hinv.step call)

/-- The invariant in every state of a run. -/
theorem inv_of_reached (hreached : run.Reached) : Inv run.dispatcher run.history := by
  obtain ⟨portCapacity, handleCapacity, granted, dispatcher, calls, hnew, rfl⟩ := hreached
  refine Inv.after ?_ calls
  simp only [new, ok_rules, not_or, Nat.not_lt] at hnew
  obtain ⟨_, ⟨-, hports, -, hhandles⟩, _, -, hnew⟩ := hnew
  cases hnew
  refine ⟨hports, hhandles, Nat.zero_le _, Nat.zero_le _, fun handle binding => ?_,
    fun port service => ?_, by simp, by simp, sound_nil⟩
  · simp [Held, holds_nil]
  · simp [Serves, holds_nil]

end Troe.Dispatch
