import Troe.Task.Wait

/-!
# Synchronous call chains (`troe-task::chain`)

A task that calls a server donates its execution to it. A chain records who donated to whom, the
initiator first and the running member last. The table holds a fixed number of chains; a task takes
part in at most one of them.
-/

namespace Troe.Task

open Lib

/-- `MAX_CALL_CHAIN_MEMBERS`. -/
def maxCallChainMembers : ℕ := 4

/-- `MAX_CALL_CHAINS`. -/
def maxCallChains : ℕ := 16

/-- `CallChainError`. -/
inductive CallChainError where
  | deadlock
  | exhausted
  | busy
  | notActive

/-- `Chain`, with the members in use. -/
structure Chain where
  members : List TaskId

/-- `CallChainStats`. -/
structure CallChainStats where
  live : ℕ := 0
  deepest : ℕ := 0
  entries : ℕ := 0
  deadlocks : ℕ := 0
  exhaustions : ℕ := 0

/-- `CallChainTable`. -/
structure CallChainTable where
  chains : List (Option Chain)
  stats : CallChainStats

/-- A counter of the given width that stops at its greatest value. -/
def saturatingSucc (width n : ℕ) : ℕ := min (n + 1) (2 ^ width - 1)

namespace CallChainTable

/-- `CallChainTable::new`. The reservation of the records may fail. -/
def new (capacity : ℕ) (reserves : Bool) : Except CallChainError CallChainTable :=
  if capacity = 0 ∨ maxCallChains < capacity then .error .exhausted
  else if reserves then .ok { chains := List.replicate capacity none, stats := {} }
  else .error .exhausted

/-- `CallChainTable::chain_of`. Without live chains nothing is searched. -/
def chainOf (table : CallChainTable) (task : TaskId) : Option ℕ :=
  if table.stats.live = 0 then none
  else table.chains.findIdx? fun slot => slot.any (·.members.contains task)

/-- The chain in a slot. -/
def chainAt (table : CallChainTable) (index : ℕ) : Option Chain := table.chains[index]?.join

/-- `CallChainTable::record_entry`. -/
def recordEntry (table : CallChainTable) (depth : ℕ) : CallChainTable :=
  { table with stats := { table.stats with
    entries := saturatingSucc 64 table.stats.entries
    deepest := max table.stats.deepest (min depth (2 ^ 32 - 1)) } }

/-- Count a call that would wait on itself. -/
def countDeadlock (table : CallChainTable) : CallChainTable :=
  { table with stats := { table.stats with deadlocks := saturatingSucc 64 table.stats.deadlocks } }

/-- Count a call for which there was no room. -/
def countExhaustion (table : CallChainTable) : CallChainTable :=
  { table with stats :=
    { table.stats with exhaustions := saturatingSucc 64 table.stats.exhaustions } }

/-- Put a chain into a slot, or empty the slot. -/
def setChain (table : CallChainTable) (index : ℕ) (slot : Option Chain) : CallChainTable :=
  { table with chains := table.chains.set index slot }

/-- Empty a slot and count one live chain less. -/
def release (table : CallChainTable) (index : ℕ) : CallChainTable :=
  { table.setChain index none with stats := { table.stats with live := table.stats.live - 1 } }

/-- `CallChainTable::extend`. -/
def extend (table : CallChainTable) (index : ℕ) (caller target : TaskId) :
    Except CallChainError ℕ × CallChainTable :=
  match table.chainAt index with
  | none => (.error .notActive, table)
  | some chain =>
    -- Only the running member may donate onward.
    if chain.members.getLast? ≠ some caller then (.error .busy, table)
    else if maxCallChainMembers ≤ chain.members.length then
      (.error .exhausted, table.countExhaustion)
    else
      let depth := chain.members.length + 1
      (.ok depth, (table.setChain index (some ⟨chain.members ++ [target]⟩)).recordEntry depth)

/-- `CallChainTable::begin`. -/
def begin (table : CallChainTable) (caller target : TaskId) :
    Except CallChainError ℕ × CallChainTable :=
  match table.chains.findIdx? (·.isNone) with
  | none => (.error .exhausted, table.countExhaustion)
  | some index =>
    let begun := table.setChain index (some ⟨[caller, target]⟩)
    let counted :=
      { begun with stats := { begun.stats with live := saturatingSucc 32 begun.stats.live } }
    (.ok 2, counted.recordEntry 2)

/-- `CallChainTable::enter`. -/
def enter (table : CallChainTable) (caller target : TaskId) :
    Except CallChainError ℕ × CallChainTable :=
  if caller = target then (.error .deadlock, table.countDeadlock)
  else
    match table.chainOf target with
    | some targetChain =>
      if table.chainOf caller = some targetChain then (.error .deadlock, table.countDeadlock)
      else (.error .busy, table)
    | none =>
      match table.chainOf caller with
      | some index => table.extend index caller target
      | none => table.begin caller target

/-- `CallChainTable::unwind`. -/
def unwind (table : CallChainTable) (member : TaskId) :
    Except CallChainError (Option TaskId) × CallChainTable :=
  match table.chainOf member with
  | none => (.error .notActive, table)
  | some index =>
    match table.chainAt index with
    | none => (.error .notActive, table)
    | some chain =>
      if chain.members.getLast? ≠ some member then (.error .notActive, table)
      else
        let rest := chain.members.dropLast
        -- A single initiator is no chain any more.
        if rest.length ≤ 1 then (.ok rest.getLast?, table.release index)
        else (.ok rest.getLast?, table.setChain index (some ⟨rest⟩))

/-- `CallChainTable::detach`. -/
def detach (table : CallChainTable) (member : TaskId) :
    Except CallChainError Unit × CallChainTable :=
  match table.chainOf member with
  | none => (.error .notActive, table)
  | some index => (.ok (), table.release index)

/-- `CallChainTable::abandon`. The reservation of the result may fail. -/
def abandon (table : CallChainTable) (member : TaskId) (reserves : Bool) :
    Except CallChainError (List TaskId) × CallChainTable :=
  match (table.chainOf member).bind table.chainAt with
  | none => (.error .notActive, table)
  | some chain =>
    if reserves then
      match table.detach member with
      | (.ok (), table') => (.ok chain.members, table')
      | (.error error, table') => (.error error, table')
    else (.error .exhausted, table)

end CallChainTable

/-! ## Runs -/

/-- The calls from outside; `extend` and `begin` are the two ways an `enter` continues. -/
inductive ChainCall where
  | enter (caller target : TaskId)
  | unwind (member : TaskId)
  | abandon (member : TaskId) (reserves : Bool)
  | detach (member : TaskId)

namespace ChainCall

/-- The table after a call. -/
def perform (table : CallChainTable) : ChainCall → CallChainTable
  | enter caller target => (table.enter caller target).2
  | unwind member => (table.unwind member).2
  | abandon member reserves => (table.abandon member reserves).2
  | detach member => (table.detach member).2

/-- The call returned an error. -/
def Rejected (table : CallChainTable) : ChainCall → Prop
  | enter caller target => ∃ error, (table.enter caller target).1 = .error error
  | unwind member => ∃ error, (table.unwind member).1 = .error error
  | abandon member reserves => ∃ error, (table.abandon member reserves).1 = .error error
  | detach member => ∃ error, (table.detach member).1 = .error error

end ChainCall

/-- The tables that calls lead to from a new one. -/
inductive CallChainTable.Reached : CallChainTable → Prop
  | start {capacity : ℕ} {table : CallChainTable} (h : new capacity true = .ok table) : Reached table
  | call {table : CallChainTable} (h : Reached table) (call : ChainCall) :
      Reached (call.perform table)

/-! ## The invariant -/

namespace CallChainTable

/-- What holds of the records: the sizes of chains, that a task is in one chain only, and the count
of live chains. -/
structure Inv (table : CallChainTable) : Prop where
  capacity_le : table.chains.length ≤ maxCallChains
  size : ∀ index chain, table.chainAt index = some chain →
    2 ≤ chain.members.length ∧ chain.members.length ≤ maxCallChainMembers
  nodup : ∀ index chain, table.chainAt index = some chain → chain.members.Nodup
  unique : ∀ index index' chain chain' task, table.chainAt index = some chain →
    table.chainAt index' = some chain' → task ∈ chain.members → task ∈ chain'.members →
    index = index'
  live : table.stats.live = table.chains.countP (·.isSome)

variable {table : CallChainTable} {index : ℕ} {chain : Chain} {task caller target member : TaskId}

theorem chainAt_eq_some : table.chainAt index = some chain ↔ table.chains[index]? = some (some chain) :=
  Option.join_eq_some_iff

theorem lt_of_chainAt (h : table.chainAt index = some chain) : index < table.chains.length :=
  (List.getElem?_eq_some_iff.mp (chainAt_eq_some.mp h)).1

theorem chainAt_setChain (slot : Option Chain) (hindex : index < table.chains.length) (other : ℕ) :
    (table.setChain index slot).chainAt other =
      if index = other then slot else table.chainAt other := by
  unfold chainAt setChain
  rw [List.getElem?_set]
  split
  case isTrue => simp
  case isFalse => rfl

/-- Every live chain is counted, so the shortcut of `chain_of` never hides one. -/
theorem Inv.live_pos (hinv : table.Inv) (h : table.chainAt index = some chain) :
    table.stats.live ≠ 0 := by
  have hmem : some chain ∈ table.chains := List.mem_of_getElem? (chainAt_eq_some.mp h)
  have hpos : 0 < table.chains.countP (·.isSome) := List.countP_pos_iff.mpr ⟨_, hmem, rfl⟩
  rw [hinv.live]
  omega

/-- `chain_of` finds a task exactly in the chain it is a member of. -/
theorem Inv.chainOf_eq_some (hinv : table.Inv) :
    table.chainOf task = some index ↔
      ∃ chain, table.chainAt index = some chain ∧ task ∈ chain.members := by
  constructor
  · intro h
    unfold chainOf at h
    split at h
    · cases h
    · obtain ⟨hlt, hslot, -⟩ := List.findIdx?_eq_some_iff_getElem.mp h
      rw [Option.any_eq_true] at hslot
      obtain ⟨chain, hchain, hmem⟩ := hslot
      refine ⟨chain, chainAt_eq_some.mpr ?_, by simpa using hmem⟩
      rw [List.getElem?_eq_getElem hlt, hchain]
  · rintro ⟨chain, hchain, hmem⟩
    unfold chainOf
    rw [if_neg (hinv.live_pos hchain)]
    have hslot := List.getElem?_eq_some_iff.mp (chainAt_eq_some.mp hchain)
    obtain ⟨hlt, hget⟩ := hslot
    refine List.findIdx?_eq_some_iff_getElem.mpr ⟨hlt, by simp [hget, hmem], ?_⟩
    -- An earlier slot with the task would be a second chain of it.
    intro earlier hearlier hfound
    rw [Option.any_eq_true] at hfound
    obtain ⟨chain', hchain', hmem'⟩ := hfound
    have hat : table.chainAt earlier = some chain' := by
      rw [chainAt_eq_some, List.getElem?_eq_getElem (by omega), hchain']
    have := hinv.unique earlier index chain' chain task hat hchain (by simpa using hmem') hmem
    omega

theorem Inv.chainOf_eq_none (hinv : table.Inv) :
    table.chainOf task = none ↔
      ∀ index chain, table.chainAt index = some chain → task ∉ chain.members := by
  rw [Option.eq_none_iff_forall_ne_some]
  constructor
  · intro h index chain hchain hmem
    exact h index (hinv.chainOf_eq_some.mpr ⟨chain, hchain, hmem⟩)
  · intro h index hindex
    obtain ⟨chain, hchain, hmem⟩ := hinv.chainOf_eq_some.mp hindex
    exact h index chain hchain hmem

theorem countP_set_slot {chains : List (Option Chain)} {old : Option Chain}
    (h : chains[index]? = some old) (slot : Option Chain) :
    (chains.set index slot).countP (·.isSome) + (if old.isSome then 1 else 0) =
      chains.countP (·.isSome) + if slot.isSome then 1 else 0 := by
  obtain ⟨hlt, rfl⟩ := List.getElem?_eq_some_iff.mp h
  have hle : (if chains[index].isSome then 1 else 0) ≤ chains.countP (·.isSome) := by
    split
    case isTrue hsome => exact List.countP_pos_iff.mpr ⟨_, List.getElem_mem hlt, hsome⟩
    case isFalse => exact Nat.zero_le _
  rw [List.countP_set hlt]
  omega

/-! ## What each call does -/

/-- The chain of a task before and after a slot is replaced. -/
theorem Inv.setChain (hinv : table.Inv) {slot : Option Chain} (hindex : index < table.chains.length)
    {stats : CallChainStats}
    (hsize : ∀ chain ∈ slot, 2 ≤ chain.members.length ∧ chain.members.length ≤ maxCallChainMembers)
    (hnodup : ∀ chain ∈ slot, chain.members.Nodup)
    (hfresh : ∀ chain ∈ slot, ∀ task ∈ chain.members, ∀ other other',
      table.chainAt other = some other' → task ∈ other'.members → other = index)
    (hlive : stats.live = (table.chains.set index slot).countP (·.isSome)) :
    ({ table.setChain index slot with stats } : CallChainTable).Inv := by
  have hat : ∀ other, ({ table.setChain index slot with stats } : CallChainTable).chainAt other =
      if index = other then slot else table.chainAt other := chainAt_setChain slot hindex
  constructor
  case capacity_le =>
    show (table.chains.set index slot).length ≤ _
    rw [List.length_set]
    exact hinv.capacity_le
  case size =>
    intro other chain hchain
    rw [hat] at hchain
    split at hchain
    · exact hsize chain hchain
    · exact hinv.size other chain hchain
  case nodup =>
    intro other chain hchain
    rw [hat] at hchain
    split at hchain
    · exact hnodup chain hchain
    · exact hinv.nodup other chain hchain
  case unique =>
    intro other other' chain chain' task hchain hchain' hmem hmem'
    rw [hat] at hchain hchain'
    split at hchain
    case isTrue heq =>
      split at hchain'
      case isTrue heq' => omega
      case isFalse => rw [hfresh chain hchain task hmem other' chain' hchain' hmem', heq]
    case isFalse =>
      split at hchain'
      case isTrue heq' => rw [hfresh chain' hchain' task hmem' other chain hchain hmem, heq']
      case isFalse => exact hinv.unique other other' chain chain' task hchain hchain' hmem hmem'
  case live => exact hlive

/-- The invariant speaks of the records and of the live count only. -/
theorem Inv.congr {table' : CallChainTable} (hinv : table.Inv) (hchains : table'.chains = table.chains)
    (hlive : table'.stats.live = table.stats.live) : table'.Inv := by
  have hat : ∀ index, table'.chainAt index = table.chainAt index := by
    intro index
    rw [chainAt, hchains, chainAt]
  constructor
  case capacity_le => exact hchains ▸ hinv.capacity_le
  case size => simpa only [hat] using hinv.size
  case nodup => simpa only [hat] using hinv.nodup
  case unique => simpa only [hat] using hinv.unique
  case live => rw [hlive, hchains, hinv.live]

/-- The call adds the target behind the caller, who was the running member. -/
def Extends (table table' : CallChainTable) (caller target : TaskId) (depth : ℕ) : Prop :=
  ∃ index chain, table.chainAt index = some chain ∧ chain.members.getLast? = some caller ∧
    table'.chains = table.chains.set index (some ⟨chain.members ++ [target]⟩) ∧
    depth = chain.members.length + 1

/-- The call starts a chain of two in an empty slot; the caller was in no chain. -/
def Begins (table table' : CallChainTable) (caller target : TaskId) (depth : ℕ) : Prop :=
  (∀ index chain, table.chainAt index = some chain → caller ∉ chain.members) ∧
    ∃ index, table.chains[index]? = some none ∧
      table'.chains = table.chains.set index (some ⟨[caller, target]⟩) ∧ depth = 2

theorem Inv.extend (hinv : table.Inv) (index : ℕ) (caller : TaskId)
    (htarget : ∀ index chain, table.chainAt index = some chain → target ∉ chain.members) :
    (∃ error, (table.extend index caller target).1 = .error error ∧
      (table.extend index caller target).2.chains = table.chains ∧
      (table.extend index caller target).2.stats.live = table.stats.live) ∨
    ∃ depth, (table.extend index caller target).1 = .ok depth ∧
      (table.extend index caller target).2.Inv ∧
      table.Extends (table.extend index caller target).2 caller target depth := by
  unfold CallChainTable.extend
  split
  case h_1 => exact .inl ⟨_, rfl, rfl, rfl⟩
  case h_2 chain hchain =>
    split
    case isTrue => exact .inl ⟨_, rfl, rfl, rfl⟩
    case isFalse hlast =>
      split
      case isTrue => exact .inl ⟨_, rfl, rfl, rfl⟩
      case isFalse hroom =>
        have hlast := not_not.mp hlast
        have hindex := lt_of_chainAt hchain
        refine .inr ⟨_, rfl, ?_, index, chain, hchain, hlast, rfl, rfl⟩
        refine Inv.setChain hinv hindex ?_ ?_ ?_ ?_
        · rintro _ ⟨⟩
          have := hinv.size index chain hchain
          simp only [List.length_append, List.length_singleton]
          omega
        · rintro _ ⟨⟩
          have hnodup := hinv.nodup index chain hchain
          have hfresh := htarget index chain hchain
          simpa [List.nodup_append] using ⟨hnodup, fun task hmem heq => hfresh (heq ▸ hmem)⟩
        · rintro _ ⟨⟩ task hmem other other' hother hmem'
          obtain hmem | hmem := List.mem_append.mp hmem
          · exact hinv.unique other index other' chain task hother hchain hmem' hmem
          · rw [List.mem_singleton.mp hmem] at hmem'
            exact absurd hmem' (htarget other other' hother)
        · show table.stats.live = _
          have hcount := countP_set_slot (chainAt_eq_some.mp hchain)
            (some ⟨chain.members ++ [target]⟩)
          rw [hinv.live]
          simpa using hcount.symm

theorem Inv.begin (hinv : table.Inv) (hne : caller ≠ target)
    (hcaller : ∀ index chain, table.chainAt index = some chain → caller ∉ chain.members)
    (htarget : ∀ index chain, table.chainAt index = some chain → target ∉ chain.members) :
    (∃ error, (table.begin caller target).1 = .error error ∧
      (table.begin caller target).2.chains = table.chains ∧
      (table.begin caller target).2.stats.live = table.stats.live) ∨
    ∃ depth, (table.begin caller target).1 = .ok depth ∧ (table.begin caller target).2.Inv ∧
      table.Begins (table.begin caller target).2 caller target depth := by
  unfold CallChainTable.begin
  split
  case h_1 => exact .inl ⟨_, rfl, rfl, rfl⟩
  case h_2 index hindex =>
    obtain ⟨hlt, hnone, -⟩ := List.findIdx?_eq_some_iff_getElem.mp hindex
    have hslot : table.chains[index]? = some none := by
      rw [List.getElem?_eq_getElem hlt, Option.isNone_iff_eq_none.mp hnone]
    refine .inr ⟨_, rfl, ?_, hcaller, index, hslot, rfl, rfl⟩
    refine Inv.setChain hinv hlt ?_ ?_ ?_ ?_
    · rintro _ ⟨⟩
      simp [maxCallChainMembers]
    · rintro _ ⟨⟩
      simpa using hne
    · rintro _ ⟨⟩ task hmem other other' hother hmem'
      obtain rfl | hmem := List.mem_cons.mp hmem
      · exact absurd hmem' (hcaller other other' hother)
      · rw [List.mem_singleton.mp hmem] at hmem'
        exact absurd hmem' (htarget other other' hother)
    · show saturatingSucc 32 table.stats.live = _
      have hcount := countP_set_slot hslot (some ⟨[caller, target]⟩)
      have hbound : table.chains.countP (·.isSome) ≤ maxCallChains :=
        Nat.le_trans List.countP_le_length hinv.capacity_le
      simp only [Option.isSome_none, Option.isSome_some, if_true, Bool.false_eq_true,
        if_false] at hcount
      rw [saturatingSucc, hinv.live]
      unfold maxCallChains at hbound
      omega

theorem Inv.enter (hinv : table.Inv) (caller target : TaskId) :
    (∃ error, (table.enter caller target).1 = .error error ∧
      (table.enter caller target).2.chains = table.chains ∧
      (table.enter caller target).2.stats.live = table.stats.live) ∨
    ∃ depth, (table.enter caller target).1 = .ok depth ∧ (table.enter caller target).2.Inv ∧
      (table.Extends (table.enter caller target).2 caller target depth ∨
        table.Begins (table.enter caller target).2 caller target depth) := by
  unfold CallChainTable.enter
  split
  case isTrue => exact .inl ⟨_, rfl, rfl, rfl⟩
  case isFalse hne =>
    split
    case h_1 =>
      split
      · exact .inl ⟨_, rfl, rfl, rfl⟩
      · exact .inl ⟨_, rfl, rfl, rfl⟩
    case h_2 htarget =>
      have htarget := hinv.chainOf_eq_none.mp htarget
      split
      case h_1 index hindex =>
        obtain hrejected | ⟨depth, hok, hnext, hextends⟩ := hinv.extend index caller htarget
        · exact .inl hrejected
        · exact .inr ⟨depth, hok, hnext, .inl hextends⟩
      case h_2 hcaller =>
        obtain hrejected | ⟨depth, hok, hnext, hbegins⟩ :=
          hinv.begin hne (hinv.chainOf_eq_none.mp hcaller) htarget
        · exact .inl hrejected
        · exact .inr ⟨depth, hok, hnext, .inr hbegins⟩

/-- A chain loses its running member, who was called by the member before. With one member left the
slot is empty. -/
def Unwinds (table table' : CallChainTable) (member : TaskId) (resumed : Option TaskId) : Prop :=
  ∃ index chain front previous, table.chainAt index = some chain ∧
    chain.members = front ++ [previous, member] ∧ resumed = some previous ∧
    table'.chains =
      table.chains.set index (if front = [] then none else some ⟨front ++ [previous]⟩)

/-- The whole chain of a task is released. -/
def Releases (table table' : CallChainTable) (member : TaskId) (members : List TaskId) : Prop :=
  ∃ index chain, table.chainAt index = some chain ∧ member ∈ chain.members ∧
    members = chain.members ∧ table'.chains = table.chains.set index none

theorem Inv.release (hinv : table.Inv) (hchain : table.chainAt index = some chain) :
    (table.release index).Inv := by
  refine Inv.setChain hinv (lt_of_chainAt hchain) ?_ ?_ ?_ ?_
  · rintro _ ⟨⟩
  · rintro _ ⟨⟩
  · rintro _ ⟨⟩
  · show table.stats.live - 1 = _
    have hcount := countP_set_slot (chainAt_eq_some.mp hchain) none
    simp only [Option.isSome_none, Option.isSome_some, if_true, Bool.false_eq_true, if_false] at hcount
    rw [hinv.live]
    omega

/-- The last two members of a chain of at least two. -/
theorem exists_eq_append_pair {members : List TaskId} (hlength : 2 ≤ members.length)
    (hlast : members.getLast? = some member) :
    ∃ front previous, members = front ++ [previous, member] := by
  obtain ⟨rest, rfl⟩ := List.getLast?_eq_some_iff.mp hlast
  have hrest : rest ≠ [] := by
    rintro rfl
    simp at hlength
  obtain ⟨front, previous, rfl⟩ := (List.eq_nil_or_concat rest).resolve_left hrest
  exact ⟨front, previous, by simp⟩

theorem Inv.unwind (hinv : table.Inv) (member : TaskId) :
    (∃ error, (table.unwind member).1 = .error error ∧ (table.unwind member).2 = table) ∨
    ∃ resumed, (table.unwind member).1 = .ok resumed ∧ (table.unwind member).2.Inv ∧
      table.Unwinds (table.unwind member).2 member resumed := by
  unfold CallChainTable.unwind
  split
  case h_1 => exact .inl ⟨_, rfl, rfl⟩
  case h_2 index hindex =>
    split
    case h_1 => exact .inl ⟨_, rfl, rfl⟩
    case h_2 chain hchain =>
      split
      case isTrue => exact .inl ⟨_, rfl, rfl⟩
      case isFalse hlast =>
        have hlast := not_not.mp hlast
        obtain ⟨hsize, hlarge⟩ := hinv.size index chain hchain
        obtain ⟨front, previous, hmembers⟩ := exists_eq_append_pair hsize hlast
        have hrest : chain.members.dropLast = front ++ [previous] := by
          rw [hmembers, List.append_cons, List.dropLast_concat]
        rw [hrest]
        extract_lets rest
        split
        case isTrue hshort =>
          have hfront : front = [] := by simpa [rest] using hshort
          subst hfront
          exact .inr ⟨_, rfl, hinv.release hchain, index, chain, [], previous, hchain, hmembers, rfl,
            rfl⟩
        case isFalse hlong =>
          have hfront : front ≠ [] := by simpa [rest] using hlong
          refine .inr ⟨_, rfl, ?_, index, chain, front, previous, hchain, hmembers, by simp [rest], ?_⟩
          · refine Inv.setChain hinv (lt_of_chainAt hchain) ?_ ?_ ?_ ?_
            · rintro _ ⟨⟩
              have hlength := congrArg List.length hmembers
              simp only [rest, List.length_append, List.length_cons, List.length_nil] at hlength hlong ⊢
              omega
            · rintro _ ⟨⟩
              have hnodup := hinv.nodup index chain hchain
              rw [hmembers, List.append_cons] at hnodup
              exact hnodup.sublist (List.sublist_append_left _ _)
            · rintro _ ⟨⟩ task hmem other other' hother hmem'
              refine hinv.unique other index other' chain task hother hchain hmem' ?_
              rw [hmembers, List.append_cons]
              exact List.mem_append_left _ hmem
            · have hcount := countP_set_slot (chainAt_eq_some.mp hchain) (some ⟨front ++ [previous]⟩)
              rw [hinv.live]
              simpa using hcount.symm
          · rw [if_neg hfront]
            rfl

theorem Inv.detach (hinv : table.Inv) (member : TaskId) :
    (∃ error, (table.detach member).1 = .error error ∧ (table.detach member).2 = table) ∨
    (table.detach member).1 = .ok () ∧ (table.detach member).2.Inv ∧
      ∃ members, table.Releases (table.detach member).2 member members := by
  unfold CallChainTable.detach
  split
  case h_1 => exact .inl ⟨_, rfl, rfl⟩
  case h_2 index hindex =>
    obtain ⟨chain, hchain, hmem⟩ := hinv.chainOf_eq_some.mp hindex
    exact .inr ⟨rfl, hinv.release hchain, _, index, chain, hchain, hmem, rfl, rfl⟩

theorem Inv.abandon (hinv : table.Inv) (member : TaskId) (reserves : Bool) :
    (∃ error, (table.abandon member reserves).1 = .error error ∧
      (table.abandon member reserves).2 = table) ∨
    ∃ members, (table.abandon member reserves).1 = .ok members ∧
      (table.abandon member reserves).2.Inv ∧
      table.Releases (table.abandon member reserves).2 member members := by
  unfold CallChainTable.abandon
  split
  case h_1 => exact .inl ⟨_, rfl, rfl⟩
  case h_2 chain hchain =>
    split
    case isFalse => exact .inl ⟨_, rfl, rfl⟩
    case isTrue =>
      obtain ⟨index, hindex, hchain⟩ := Option.bind_eq_some_iff.mp hchain
      have hmem : member ∈ chain.members := by
        obtain ⟨found, hfound, hmem⟩ := hinv.chainOf_eq_some.mp hindex
        rw [hchain] at hfound
        rwa [← Option.some.inj hfound] at hmem
      rw [CallChainTable.detach, hindex]
      exact .inr ⟨_, rfl, hinv.release hchain, index, chain, hchain, hmem, rfl, rfl⟩

theorem Inv.new {capacity : ℕ} (h : new capacity true = .ok table) : table.Inv := by
  unfold CallChainTable.new at h
  split at h
  case isTrue => cases h
  case isFalse hcapacity =>
    cases h
    have hnone : ∀ index chain,
        ¬ chainAt ⟨List.replicate capacity none, {}⟩ index = some chain := by
      intro index chain hchain
      have hmem := List.mem_of_getElem? (chainAt_eq_some.mp hchain)
      cases List.eq_of_mem_replicate hmem
    constructor
    case capacity_le =>
      simp only [List.length_replicate]
      omega
    case size => exact fun index chain hchain => absurd hchain (hnone index chain)
    case nodup => exact fun index chain hchain => absurd hchain (hnone index chain)
    case unique =>
      exact fun index _ chain _ _ hchain => absurd hchain (hnone index chain)
    case live => exact (List.countP_eq_zero.mpr fun slot hslot => by
      simp [List.eq_of_mem_replicate hslot]).symm

/-- A call keeps the invariant, and a rejected one keeps the records. -/
theorem Inv.perform (hinv : table.Inv) (call : ChainCall) :
    (call.perform table).Inv ∧
      (call.Rejected table → (call.perform table).chains = table.chains ∧
        (call.perform table).stats.live = table.stats.live) := by
  cases call with
  | enter caller target =>
    obtain ⟨error, -, hchains, hlive⟩ | ⟨depth, hok, hnext, -⟩ :=
      hinv.enter caller target
    · exact ⟨hinv.congr hchains hlive, fun _ => ⟨hchains, hlive⟩⟩
    · exact ⟨hnext, fun ⟨error, herror⟩ => by cases hok.symm.trans herror⟩
  | unwind member =>
    obtain ⟨error, -, hsame⟩ | ⟨resumed, hok, hnext, -⟩ := hinv.unwind member
    · simpa [ChainCall.perform, hsame] using hinv
    · exact ⟨hnext, fun ⟨error, herror⟩ => by cases hok.symm.trans herror⟩
  | abandon member reserves =>
    obtain ⟨error, -, hsame⟩ | ⟨members, hok, hnext, -⟩ := hinv.abandon member reserves
    · simpa [ChainCall.perform, hsame] using hinv
    · exact ⟨hnext, fun ⟨error, herror⟩ => by cases hok.symm.trans herror⟩
  | detach member =>
    obtain ⟨error, -, hsame⟩ | ⟨hok, hnext, -⟩ := hinv.detach member
    · simpa [ChainCall.perform, hsame] using hinv
    · exact ⟨hnext, fun ⟨error, herror⟩ => by cases hok.symm.trans herror⟩

theorem Reached.inv (h : table.Reached) : table.Inv := by
  induction h with
  | start h => exact Inv.new h
  | call _ call ih => exact (ih.perform call).1

end CallChainTable

end Troe.Task
