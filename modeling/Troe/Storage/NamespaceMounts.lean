import Troe.Lib.Sorted
import Troe.Storage.Namespace
import Mathlib.Data.List.DropRight

/-!
# Mounting providers and aliases

Mounts are kept sorted, the longest path first, and are sorted again when a provider is mounted. An
alias holds the index of its target, and nothing adjusts it. An alias is stable as long as no later
mount is sorted in front of a target of an alias, and none covers the path of an alias.
-/

namespace Troe.Fs

open Troe.Lib

/-- What mounting asks of a provider beyond path resolution. -/
class MountableProvider (π : Type) extends FileSystemProvider π where
  metadata : π → Path → Except FsError FileMetadata × π

/-- `parent_path`: the path up to its last separator. -/
def parentPath (path : Path) : Option Path :=
  if '/' ∈ path then
    let front := (path.rdropWhile (· ≠ '/')).dropLast
    some (if front = [] then ['/'] else front)
  else none

/-- `is_active_configuration_path`. -/
def IsActiveConfigurationPath (path : Path) : Prop :=
  path = "/sys/config".toList ∨ "/sys/config/".toList <+: path

instance (path : Path) : Decidable (IsActiveConfigurationPath path) :=
  inferInstanceAs (Decidable (_ ∨ _))

/-- The order of mounts: longer paths first, then by path. -/
def ProviderMount.Before {π : Type} (left right : ProviderMount π) : Prop :=
  byteLength right.path < byteLength left.path ∨
    byteLength right.path = byteLength left.path ∧ compare left.path right.path ≠ .gt

instance {π : Type} : DecidableRel (ProviderMount.Before (π := π)) := fun _ _ =>
  inferInstanceAs (Decidable (_ ∨ _ ∧ _))

namespace Namespace

variable {π : Type} {stem path : Path} {entry : MountAlias}

/-- Add a mount, and the directory it is mounted at when there is none. -/
def attach (ns : Namespace π) (targetExists : Bool) (mount : ProviderMount π) : Namespace π :=
  { ns with
    nodes := if targetExists then ns.nodes else (mount.path, .directory) :: ns.nodes
    mounts := (ns.mounts ++ [mount]).insertionSort ProviderMount.Before
    targets := fun entry hentry => by
      rw [List.length_insertionSort, List.length_append]
      exact Nat.lt_add_right _ (ns.targets entry hentry) }

/-- Whether a directory is mounted over. Only an empty directory may be. -/
def mountTarget (ns : Namespace π) (path : Path) : Except FsError Bool :=
  match ns.nodes.lookup path with
  | none => .ok false
  | some .directory =>
    if ∃ node ∈ ns.nodes, node.1 ≠ path ∧ parentPath node.1 = some path then
      .error .alreadyExists
    else .ok true
  | some (.file _) => .error .alreadyExists

/-- The node is a directory. -/
def isDirectory : Option Node → Bool
  | some .directory => true
  | _ => false

/-- `mount_provider`. The clock of the namespace, when one is installed, is set by `setWallClock`. -/
def mountProvider [MountableProvider π] (setWallClock : π → π) (path : Path) (provider : π)
    (writable : Bool) (ns : Namespace π) : Except FsError (Namespace π) := do
  let path ← canonicalize ['/'] path
  rejectIf (IsActiveConfigurationPath path ∨ "/config/".toList <+: path ∨
    path = "/config".toList ∧ writable = false) .readOnly
  rejectIf (path = ['/'] ∨ (ns.mountForPath path).isSome = true) .alreadyExists
  let targetExists ← ns.mountTarget path
  let parent ← okOr (parentPath path) .invalid
  rejectIf (isDirectory (ns.nodes.lookup parent) = false ∨
    (ns.mountForPath parent).isSome = true) .notFound
  let answer := MountableProvider.metadata provider ['/']
  let metadata ← answer.1
  rejectIf (metadata.kind ≠ .directory) .wrongType
  .ok (ns.attach targetExists ⟨path, setWallClock answer.2, writable⟩)

/-- Add an alias for the mount with the given index. -/
def attachAlias (ns : Namespace π) (path : Path) (index : Fin ns.mounts.length) (subtree : Path) :
    Namespace π :=
  { ns with
    aliases := ns.aliases ++ [⟨path, index, subtree⟩]
    targets := fun entry hentry => by
      rcases List.mem_append.mp hentry with hentry | hentry
      · exact ns.targets entry hentry
      · rw [List.mem_singleton.mp hentry]
        exact index.isLt }

/-- `mount_alias`. Whether the heap grants the reservation is the environment's choice. -/
def mountAlias (granted : Bool) (path target subtree : Path) (ns : Namespace π) :
    Except FsError (Namespace π) := do
  let path ← canonicalize ['/'] path
  let target ← canonicalize ['/'] target
  rejectIf (subtree.head? ≠ some '/' ∨ ['/', '/'] <:+: subtree ∨ ['/', '.', '.'] <:+: subtree)
    .invalid
  rejectIf (IsActiveConfigurationPath path) .readOnly
  rejectIf (path = ['/'] ∨ (ns.mountForPath path).isSome = true) .alreadyExists
  let index ← okOr (ns.mounts.findFinIdx? fun mount => mount.path = target) .notFound
  let subtree := subtree.rdropWhile (· = '/')
  rejectIf (subtree = []) .invalid
  rejectIf (granted = false) .noSpace
  .ok (ns.attachAlias path index subtree)

/-! ## Runs of mount calls -/

/-- A call that changes the mounts or the aliases. -/
inductive MountCall (π : Type) where
  | provider (setWallClock : π → π) (path : Path) (provider : π) (writable : Bool)
  | entry (granted : Bool) (path target subtree : Path)

def MountCall.apply [MountableProvider π] : MountCall π → Namespace π →
    Except FsError (Namespace π)
  | .provider setWallClock path mounted writable =>
    mountProvider setWallClock path mounted writable
  | .entry granted path target subtree => mountAlias granted path target subtree

/-- The mount a path resolves to. -/
def mountOf (ns : Namespace π) (path : Path) : Option (ProviderMount π) := do
  let (index, _) ← ns.mountForPath path
  ns.mounts[index]?

/-- The path is `stem` or lies below it. -/
def AtOrBelow (stem path : Path) : Prop := path = stem ∨ (strictlyBelow stem path).isSome = true

instance (stem path : Path) : Decidable (AtOrBelow stem path) :=
  inferInstanceAs (Decidable (_ ∨ _))

/-- A call after which the aliases still resolve as before. A mount must be sorted behind the targets
of all aliases and must not cover the path of one. An alias must not cover a mount or an alias. -/
def MountCall.Safe (ns : Namespace π) : MountCall π → Prop
  | .provider _ path _ _ => ∀ mountPath, canonicalize ['/'] path = .ok mountPath →
      ∀ entry ∈ ns.aliases, ¬ AtOrBelow mountPath entry.path ∧
        ∀ target, ns.mounts[entry.target]? = some target →
          byteLength mountPath < byteLength target.path ∨
            byteLength mountPath = byteLength target.path ∧ compare target.path mountPath ≠ .gt
  | .entry _ path _ _ => ∀ aliasPath, canonicalize ['/'] path = .ok aliasPath →
      (∀ mount ∈ ns.mounts, ¬ AtOrBelow aliasPath mount.path) ∧
        ∀ entry ∈ ns.aliases, ¬ AtOrBelow aliasPath entry.path

/-- Runs of safe mount calls. Between them the nodes of the namespace may be composed further. -/
inductive SafeRun [MountableProvider π] (ns₀ : Namespace π) : Namespace π → Prop where
  | refl : SafeRun ns₀ ns₀
  | call {ns ns' : Namespace π} (call : MountCall π) (hrun : SafeRun ns₀ ns)
      (hsafe : call.Safe ns) (h : call.apply ns = .ok ns') : SafeRun ns₀ ns'
  | compose {ns ns' : Namespace π} (hrun : SafeRun ns₀ ns) (hmounts : ns'.mounts = ns.mounts)
      (haliases : ns'.aliases = ns.aliases) : SafeRun ns₀ ns'

/-! ## Paths -/

theorem strictlyBelow_isSome :
    (strictlyBelow stem path).isSome = true ↔ ∃ rest, path = stem ++ '/' :: rest := by
  unfold strictlyBelow stripPrefix
  split
  next hstem =>
    obtain ⟨suffix, rfl⟩ := hstem
    cases suffix with
    | nil => simp
    | cons c rest => simp
  next hstem =>
    simp only [Option.filter_none, Option.isSome_none, Bool.false_eq_true, false_iff, not_exists]
    rintro rest rfl
    exact hstem (List.prefix_append _ _)

theorem mountRelative_isSome {mountPath : Path} :
    (mountRelative mountPath path).isSome = true ↔ AtOrBelow mountPath path := by
  unfold mountRelative AtOrBelow
  split
  next h => simp [h]
  next h => simp [h]

/-- Of two paths above one path, one is above the other. -/
theorem AtOrBelow.comparable {a b : Path} (ha : AtOrBelow a path) (hb : AtOrBelow b path) :
    AtOrBelow a b ∨ AtOrBelow b a := by
  -- A path is `a` followed by nothing or a separator.
  have hcut : ∀ {stem}, AtOrBelow stem path → ∃ rest, path = stem ++ rest ∧
      (rest = [] ∨ ∃ tail, rest = '/' :: tail) := by
    rintro stem (rfl | hbelow)
    · exact ⟨[], by simp, .inl rfl⟩
    · obtain ⟨tail, rfl⟩ := strictlyBelow_isSome.mp hbelow
      exact ⟨_, rfl, .inr ⟨tail, rfl⟩⟩
  -- The longer of the two continues the shorter one at the same separator.
  have hlonger : ∀ {short long rest rest' : Path}, short ++ rest = long ++ rest' → short <+: long →
      (rest = [] ∨ ∃ tail, rest = '/' :: tail) → AtOrBelow short long := by
    rintro short _ rest rest' heq ⟨middle, rfl⟩ hrest
    rw [List.append_assoc, List.append_cancel_left_eq] at heq
    cases middle with
    | nil => exact .inl (by simp)
    | cons c middle =>
      obtain rfl | ⟨tail, rfl⟩ := hrest
      · cases heq
      · cases heq
        exact .inr (strictlyBelow_isSome.mpr ⟨middle, rfl⟩)
  obtain ⟨rest, hpath, hrest⟩ := hcut ha
  obtain ⟨rest', hpath', hrest'⟩ := hcut hb
  have heq : a ++ rest = b ++ rest' := hpath.symm.trans hpath'
  rcases List.prefix_or_prefix_of_prefix ⟨rest, hpath.symm⟩ ⟨rest', hpath'.symm⟩ with h | h
  · exact .inl (hlonger heq h hrest)
  · exact .inr (hlonger heq.symm h hrest')

theorem byteLength_lt_of_strictlyBelow
    (h : (strictlyBelow stem path).isSome = true) : byteLength stem < byteLength path := by
  obtain ⟨rest, rfl⟩ := strictlyBelow_isSome.mp h
  have hslash : Char.utf8Size '/' = 1 := by decide
  simp only [byteLength, List.map_append, List.map_cons, List.sum_append, List.sum_cons, hslash]
  omega

/-! ## Resolution -/

theorem findSome?_zipIdx_eq_some {α β : Type} {xs : List α} {g : α → Option β} {i : ℕ} {x : α}
    {b : β} (hi : xs[i]? = some x) (hx : g x = some b)
    (hbefore : ∀ j < i, ∀ y, xs[j]? = some y → g y = none) (k : ℕ) :
    ((xs.zipIdx k).findSome? fun (y, index) => (g y).map fun b => (index, b)) = some (k + i, b) := by
  induction xs generalizing i k with
  | nil => cases hi
  | cons y xs ih =>
    cases i with
    | zero =>
      cases hi
      simp [List.zipIdx_cons, hx]
    | succ i =>
      have hy : g y = none := hbefore 0 (Nat.succ_pos i) y rfl
      have hrest := ih (i := i) (by simpa using hi)
        (fun j hj z hz => hbefore (j + 1) (by omega) z (by simpa using hz)) (k + 1)
      rw [List.zipIdx_cons, List.findSome?_cons]
      dsimp only
      rw [hy, Option.map_none]
      rw [hrest, Nat.add_assoc, Nat.add_comm 1]

theorem resolve_isSome : (entry.resolve path).isSome = true ↔ AtOrBelow entry.path path := by
  unfold MountAlias.resolve AtOrBelow
  split
  next h => simp [h]
  next h =>
    cases hbelow : strictlyBelow entry.path path with
    | none => simp [h]
    | some suffix => simp

theorem fst_of_resolve {resolved : ℕ × Path}
    (h : entry.resolve path = some resolved) : resolved.1 = entry.target := by
  unfold MountAlias.resolve at h
  split at h
  · cases h
    rfl
  · obtain ⟨relative, -, h⟩ := Option.bind_eq_some_iff.mp h
    cases h
    rfl

variable {ns : Namespace π}

/-- No mount covers the path. -/
theorem findSome?_mounts_eq_none (h : ∀ mount ∈ ns.mounts, ¬ AtOrBelow mount.path path) :
    ((ns.mounts.map (·.path)).zipIdx.findSome? fun (mountPath, index) =>
      (mountRelative mountPath path).map fun relative => (index, relative)) = none := by
  rw [List.findSome?_eq_none_iff]
  rintro ⟨mountPath, index⟩ hmem
  obtain ⟨mount, hmount, rfl⟩ := List.mem_map.mp (List.fst_mem_of_mem_zipIdx hmem)
  have hnone := mt mountRelative_isSome.mp (h mount hmount)
  rw [Bool.not_eq_true, Option.isSome_eq_false_iff, Option.isNone_iff_eq_none] at hnone
  dsimp only
  rw [hnone, Option.map_none]

/-- A path that resolves to nothing is covered by nothing. -/
theorem mountForPath_eq_none (h : ns.mountForPath path = none) :
    (∀ mount ∈ ns.mounts, ¬ AtOrBelow mount.path path) ∧
      ∀ entry ∈ ns.aliases, ¬ AtOrBelow entry.path path := by
  rw [mountForPath, Option.or_eq_none_iff, List.findSome?_eq_none_iff,
    List.findSome?_eq_none_iff] at h
  obtain ⟨hmounts, haliases⟩ := h
  constructor
  · intro mount hmount hcovers
    obtain ⟨index, hindex⟩ := List.mem_iff_getElem?.mp hmount
    have hnone := hmounts (mount.path, index) (by
      rw [List.mem_zipIdx_iff_getElem?, List.getElem?_map, hindex]
      rfl)
    have hsome := mountRelative_isSome.mpr hcovers
    rw [Option.map_eq_none_iff] at hnone
    rw [hnone] at hsome
    cases hsome
  · intro entry hentry hcovers
    have hsome := resolve_isSome.mpr hcovers
    rw [haliases entry hentry] at hsome
    cases hsome

/-- What all safe runs keep: mounts are sorted and have different paths, and no alias covers or is
covered by a mount or another alias. -/
structure Separated (ns : Namespace π) : Prop where
  sorted : ns.mounts.Pairwise ProviderMount.Before
  distinct : (ns.mounts.map (·.path)).Nodup
  apart : ∀ entry ∈ ns.aliases, ∀ mount ∈ ns.mounts,
    ¬ AtOrBelow entry.path mount.path ∧ ¬ AtOrBelow mount.path entry.path
  aliasesApart : ns.aliases.Pairwise fun a b =>
    ¬ AtOrBelow a.path b.path ∧ ¬ AtOrBelow b.path a.path

/-- A path at an alias or below it resolves to the mount the alias refers to. -/
theorem Separated.mountOf_entry (h : ns.Separated) (hentry : entry ∈ ns.aliases)
    (hpath : AtOrBelow entry.path path) :
    ns.mountOf path = ns.mounts[entry.target]? := by
  have howned : ∀ mount ∈ ns.mounts, ¬ AtOrBelow mount.path path := by
    intro mount hmount hcovers
    obtain ⟨hbelow, habove⟩ := h.apart entry hentry mount hmount
    rcases hpath.comparable hcovers with hrel | hrel
    · exact hbelow hrel
    · exact habove hrel
  obtain ⟨front, back, hsplit⟩ := List.append_of_mem hentry
  have hfront : ∀ other ∈ front, other.resolve path = none := by
    intro other hother
    have hapart := h.aliasesApart
    rw [hsplit] at hapart
    obtain ⟨hbelow, habove⟩ :=
      (List.pairwise_append.mp hapart).2.2 other hother entry List.mem_cons_self
    rw [← Option.isNone_iff_eq_none, ← Option.isSome_eq_false_iff, ← Bool.not_eq_true]
    intro hsome
    rcases (resolve_isSome.mp hsome).comparable hpath with hrel | hrel
    · exact hbelow hrel
    · exact habove hrel
  obtain ⟨resolved, hresolved⟩ := Option.isSome_iff_exists.mp (resolve_isSome.mpr hpath)
  have hfind : ns.aliases.findSome? (·.resolve path) = some resolved := by
    rw [hsplit, List.findSome?_eq_some_iff]
    exact ⟨front, entry, back, rfl, hresolved, hfront⟩
  rw [mountOf, mountForPath, findSome?_mounts_eq_none howned, hfind]
  show ns.mounts[resolved.1]? = _
  rw [fst_of_resolve hresolved]

/-- A path at which a provider is mounted resolves to it. -/
theorem Separated.mountOf_mount (h : ns.Separated) {index : ℕ} {mount : ProviderMount π}
    (hmount : ns.mounts[index]? = some mount) :
    ns.mountOf mount.path = some mount := by
  have hpath : (ns.mounts.map (·.path))[index]? = some mount.path := by
    rw [List.getElem?_map, hmount]
    rfl
  have hself : mountRelative mount.path mount.path = some ['/'] := if_pos rfl
  have hbefore : ∀ j < index, ∀ path, (ns.mounts.map (·.path))[j]? = some path →
      mountRelative path mount.path = none := by
    intro j hj path hj'
    rw [← Option.isNone_iff_eq_none, ← Option.isSome_eq_false_iff, ← Bool.not_eq_true,
      mountRelative_isSome]
    -- An earlier mount has another path that is not shorter.
    rw [List.getElem?_map, Option.map_eq_some_iff] at hj'
    obtain ⟨earlier, hearlier, rfl⟩ := hj'
    obtain ⟨hjlt, hjeq⟩ := List.getElem?_eq_some_iff.mp hearlier
    obtain ⟨hilt, hieq⟩ := List.getElem?_eq_some_iff.mp hmount
    rintro (heq | hbelow)
    · have hne := List.pairwise_iff_getElem.mp h.distinct j index (by simpa using hjlt)
        (by simpa using hilt) hj
      simp only [List.getElem_map, hjeq, hieq] at hne
      exact hne heq.symm
    · have hrel := List.pairwise_iff_getElem.mp h.sorted j index hjlt hilt hj
      rw [hjeq, hieq] at hrel
      have hlt := byteLength_lt_of_strictlyBelow hbelow
      rcases hrel with hrel | hrel
      · omega
      · omega
  have hfind := findSome?_zipIdx_eq_some (g := fun path => mountRelative path mount.path) hpath
    hself hbefore 0
  rw [mountOf, mountForPath, hfind]
  show ns.mounts[0 + index]? = _
  rw [Nat.zero_add, hmount]

/-! ## One call -/

section Order

theorem before_trans {a b c : ProviderMount π} (hab : a.Before b) (hbc : b.Before c) :
    a.Before c := by
  rcases hab with hab | ⟨hab, hcmp⟩
  · rcases hbc with hbc | ⟨hbc, -⟩
    · exact .inl (by omega)
    · exact .inl (by omega)
  · rcases hbc with hbc | ⟨hbc, hcmp'⟩
    · exact .inl (by omega)
    · have hle : (compare a.path c.path).isLE := Std.TransCmp.isLE_trans
        (Ordering.isLE_iff_ne_gt.mpr hcmp) (Ordering.isLE_iff_ne_gt.mpr hcmp')
      exact .inr ⟨by omega, Ordering.isLE_iff_ne_gt.mp hle⟩

theorem before_total (a b : ProviderMount π) : a.Before b ∨ b.Before a := by
  rcases Nat.lt_trichotomy (byteLength a.path) (byteLength b.path) with hlt | heq | hlt
  · exact .inr (.inl hlt)
  · by_cases hcmp : compare a.path b.path = .gt
    · right
      have hlt : compare b.path a.path = .lt := Std.OrientedCmp.lt_of_gt hcmp
      exact .inr ⟨heq, by simp [hlt]⟩
    · exact .inl (.inr ⟨heq.symm, hcmp⟩)
  · exact .inl (.inl hlt)

theorem path_eq_of_before {a b : ProviderMount π} (hab : a.Before b) (hba : b.Before a) :
    a.path = b.path := by
  rcases hab with hab | ⟨hab, hcmp⟩
  · rcases hba with hba | ⟨hba, -⟩
    · omega
    · omega
  · rcases hba with hba | ⟨-, hcmp'⟩
    · omega
    · have heq : compare a.path b.path = .eq := Std.OrientedCmp.isLE_antisymm
        (Ordering.isLE_iff_ne_gt.mpr hcmp) (Ordering.isLE_iff_ne_gt.mpr hcmp')
      exact Std.LawfulEqOrd.eq_of_compare heq

instance : IsTrans (ProviderMount π) ProviderMount.Before := ⟨fun _ _ _ => before_trans⟩

instance : Std.Total (ProviderMount.Before (π := π)) := ⟨before_total⟩

end Order

section Calls

variable {ns ns' : Namespace π}

/-- A mounted provider is added at a path that resolved to nothing. -/
theorem mountProvider_ok [MountableProvider π] {setWallClock : π → π} {path : Path} {mounted : π}
    {writable : Bool} (h : mountProvider setWallClock path mounted writable ns = .ok ns') :
    ∃ mount targetExists, canonicalize ['/'] path = .ok mount.path ∧
      ns.mountForPath mount.path = none ∧ ns' = ns.attach targetExists mount := by
  simp only [mountProvider, ok_rules, not_or, Bool.not_eq_true, Option.isSome_eq_false_iff,
    Option.isNone_iff_eq_none, Except.ok.injEq] at h
  obtain ⟨mountPath, hpath, ⟨⟩, -, ⟨⟩, ⟨-, hfree⟩, targetExists, -, parent, -, ⟨⟩, -, metadata, -,
    ⟨⟩, -, rfl⟩ := h
  exact ⟨_, targetExists, hpath, hfree, rfl⟩

/-- An alias is added at a path that resolved to nothing, for the mount at its target. -/
theorem mountAlias_ok {granted : Bool} {path target subtree : Path}
    (h : mountAlias granted path target subtree ns = .ok ns') :
    ∃ aliasPath targetPath subtree', ∃ index : Fin ns.mounts.length,
      canonicalize ['/'] path = .ok aliasPath ∧ canonicalize ['/'] target = .ok targetPath ∧
      ns.mountForPath aliasPath = none ∧ (ns.mounts.get index).path = targetPath ∧
      ns' = ns.attachAlias aliasPath index subtree' := by
  simp only [mountAlias, ok_rules, not_or, Bool.not_eq_true, Option.isSome_eq_false_iff,
    Option.isNone_iff_eq_none, Except.ok.injEq] at h
  obtain ⟨aliasPath, hpath, targetPath, htarget, ⟨⟩, -, ⟨⟩, -, ⟨⟩, ⟨-, hfree⟩, index, hindex, ⟨⟩, -,
    ⟨⟩, -, rfl⟩ := h
  refine ⟨aliasPath, targetPath, _, index, hpath, htarget, hfree, ?_, rfl⟩
  simpa using (List.findFinIdx?_eq_some_iff.mp hindex).1

theorem mem_attach {targetExists : Bool} {mount other : ProviderMount π} :
    other ∈ (ns.attach targetExists mount).mounts ↔ other ∈ ns.mounts ∨ other = mount := by
  show other ∈ (ns.mounts ++ [mount]).insertionSort _ ↔ _
  rw [List.mem_insertionSort, List.mem_append, List.mem_singleton]

variable {mount : ProviderMount π}

variable (h : ns.Separated)
include h

theorem Separated.nodup_append (hfree : ns.mountForPath mount.path = none) :
    ((ns.mounts ++ [mount]).map (·.path)).Nodup := by
  rw [List.map_append, List.nodup_append]
  refine ⟨h.distinct, List.nodup_singleton _, ?_⟩
  intro path hpath path' hpath'
  obtain ⟨other, hother, rfl⟩ := List.mem_map.mp hpath
  obtain rfl : path' = mount.path := by simpa using hpath'
  intro heq
  exact (mountForPath_eq_none hfree).1 other hother (.inl heq.symm)

/-- A mount that covers no alias keeps mounts and aliases apart. -/
theorem Separated.attach (targetExists : Bool) (hfree : ns.mountForPath mount.path = none)
    (hsafe : ∀ entry ∈ ns.aliases, ¬ AtOrBelow mount.path entry.path) :
    (ns.attach targetExists mount).Separated where
  sorted := List.pairwise_insertionSort _ _
  distinct := by
    refine ((List.perm_insertionSort _ _).map _).nodup_iff.mpr (h.nodup_append hfree)
  apart := by
    intro entry hentry other hother
    rcases mem_attach.mp hother with hother | rfl
    · exact h.apart entry hentry other hother
    · exact ⟨(mountForPath_eq_none hfree).2 entry hentry, hsafe entry hentry⟩
  aliasesApart := h.aliasesApart

/-- A mount that is sorted behind the target of an alias leaves it at its index. -/
theorem Separated.target_attach {mount target : ProviderMount π} (targetExists : Bool)
    (hfree : ns.mountForPath mount.path = none) {index : ℕ}
    (hindex : ns.mounts[index]? = some target) (hbefore : target.Before mount) :
    (ns.attach targetExists mount).mounts[index]? = some target := by
  refine getElem?_insertionSort_append_singleton h.sorted ?_ hindex hbefore
  intro a ha b hb hab hba
  exact List.inj_on_of_nodup_map (h.nodup_append hfree) ha hb (path_eq_of_before hab hba)

/-- An alias that covers no mount and no alias keeps them apart. -/
theorem Separated.attachAlias {path subtree : Path} {index : Fin ns.mounts.length}
    (hfree : ns.mountForPath path = none)
    (hmounts : ∀ mount ∈ ns.mounts, ¬ AtOrBelow path mount.path)
    (haliases : ∀ entry ∈ ns.aliases, ¬ AtOrBelow path entry.path) :
    (ns.attachAlias path index subtree).Separated where
  sorted := h.sorted
  distinct := h.distinct
  apart := by
    intro entry hentry mount hmount
    rcases List.mem_append.mp hentry with hentry | hentry
    · exact h.apart entry hentry mount hmount
    · rw [List.mem_singleton.mp hentry]
      exact ⟨hmounts mount hmount, (mountForPath_eq_none hfree).1 mount hmount⟩
  aliasesApart := by
    refine List.pairwise_append.mpr ⟨h.aliasesApart, List.pairwise_singleton _ _, ?_⟩
    intro entry hentry other hother
    rw [List.mem_singleton.mp hother]
    exact ⟨(mountForPath_eq_none hfree).2 entry hentry, haliases entry hentry⟩

end Calls

/-! ## Whole runs -/

section Runs

variable [MountableProvider π] {ns₀ ns ns' : Namespace π}

/-- A safe call keeps mounts and aliases apart, and every alias with the mount it refers to. -/
theorem MountCall.apply_safe {call : MountCall π} (h : ns.Separated) (hsafe : call.Safe ns)
    (hcall : call.apply ns = .ok ns') :
    ns'.Separated ∧ ∀ entry ∈ ns.aliases, entry ∈ ns'.aliases ∧
      ns'.mounts[entry.target]? = ns.mounts[entry.target]? := by
  cases call with
  | provider setWallClock path mounted writable =>
    obtain ⟨mount, targetExists, hpath, hfree, rfl⟩ := mountProvider_ok hcall
    have hsafe := hsafe mount.path hpath
    refine ⟨h.attach targetExists hfree fun entry hentry => (hsafe entry hentry).1, ?_⟩
    intro entry hentry
    refine ⟨hentry, ?_⟩
    have htarget := List.getElem?_eq_getElem (ns.targets entry hentry)
    rw [htarget]
    exact h.target_attach targetExists hfree htarget ((hsafe entry hentry).2 _ htarget)
  | entry granted path target subtree =>
    obtain ⟨aliasPath, targetPath, subtree', index, hpath, -, hfree, -, rfl⟩ := mountAlias_ok hcall
    obtain ⟨hmounts, haliases⟩ := hsafe aliasPath hpath
    refine ⟨h.attachAlias hfree hmounts haliases, fun entry hentry => ⟨?_, rfl⟩⟩
    exact List.mem_append_left _ hentry

theorem SafeRun.keeps (hrun : SafeRun ns₀ ns) (h : ns₀.Separated) :
    ns.Separated ∧ ∀ entry ∈ ns₀.aliases, entry ∈ ns.aliases ∧
      ns.mounts[entry.target]? = ns₀.mounts[entry.target]? := by
  induction hrun with
  | refl => exact ⟨h, fun entry hentry => ⟨hentry, rfl⟩⟩
  | call _ _ hsafe hcall ih =>
    obtain ⟨hseparated, hentries⟩ := ih
    obtain ⟨hseparated', hentries'⟩ := MountCall.apply_safe hseparated hsafe hcall
    refine ⟨hseparated', fun entry hentry => ?_⟩
    obtain ⟨hmem, htarget⟩ := hentries entry hentry
    obtain ⟨hmem', htarget'⟩ := hentries' entry hmem
    exact ⟨hmem', htarget'.trans htarget⟩
  | @compose ns ns' _ hmounts haliases ih =>
    obtain ⟨hseparated, hentries⟩ := ih
    refine ⟨?_, ?_⟩
    · obtain ⟨hsorted, hdistinct, hapart, haliasesApart⟩ := hseparated
      constructor
      · rwa [hmounts]
      · rwa [hmounts]
      · rwa [hmounts, haliases]
      · rwa [haliases]
    · rwa [hmounts, haliases]

/-- **Aliases are stable in every run of safe mount calls.** From a namespace without mounts, a path
at an alias or below it resolves to the mount that the target of the alias resolved to when the
alias was created. -/
theorem alias_stable {ns₁ ns₂ ns₃ : Namespace π} (hmounts : ns₀.mounts = [])
    (haliases : ns₀.aliases = []) (hbefore : SafeRun ns₀ ns₁) {granted : Bool}
    {path target subtree : Path}
    (hsafe : (MountCall.entry granted path target subtree).Safe ns₁)
    (hcreate : mountAlias granted path target subtree ns₁ = .ok ns₂) (hafter : SafeRun ns₂ ns₃) :
    ∃ aliasPath targetPath mount, canonicalize ['/'] path = .ok aliasPath ∧
      canonicalize ['/'] target = .ok targetPath ∧ ns₁.mountOf targetPath = some mount ∧
      ∀ p, AtOrBelow aliasPath p → ns₃.mountOf p = some mount := by
  have hfresh : ns₀.Separated := by
    constructor
    · simp [hmounts]
    · simp [hmounts]
    · simp [haliases]
    · simp [haliases]
  obtain ⟨hseparated, -⟩ := hbefore.keeps hfresh
  obtain ⟨hseparated', -⟩ := MountCall.apply_safe hseparated hsafe hcreate
  obtain ⟨hseparated'', hentries⟩ := hafter.keeps hseparated'
  obtain ⟨aliasPath, targetPath, subtree', index, hpath, htarget, -, htargetPath, rfl⟩ :=
    mountAlias_ok hcreate
  have hindex : ns₁.mounts[index.val]? = some (ns₁.mounts.get index) :=
    List.getElem?_eq_getElem index.isLt
  obtain ⟨hmem, hkept⟩ := hentries ⟨aliasPath, index, subtree'⟩ (by simp [Namespace.attachAlias])
  refine ⟨aliasPath, targetPath, ns₁.mounts.get index, hpath, htarget, ?_, fun p hp => ?_⟩
  · rw [← htargetPath]
    exact hseparated.mountOf_mount hindex
  · rw [hseparated''.mountOf_entry hmem hp, hkept]
    exact hindex

end Runs

/-! ## Two providers -/

/-- Providers that are told apart by their name only. -/
inductive SampleProvider where
  | first
  | second

instance : MountableProvider SampleProvider where
  metadataNoFollow provider _ := (.ok ⟨.directory, 0, none, none, none⟩, provider)
  metadata provider _ := (.ok ⟨.directory, 0, none, none, none⟩, provider)

/-- A namespace without mounts. -/
def sampleFresh : Namespace SampleProvider where
  nodes := [(['/'], .directory)]
  mounts := []
  aliases := []
  calls := []
  targets := fun _ h => absurd h List.not_mem_nil

/-- With the first provider at `/aa`. -/
def sampleMounted : Namespace SampleProvider :=
  sampleFresh.attach false ⟨"/aa".toList, .first, true⟩

/-- And with the alias `/x` of its subtree `/s`. -/
def sampleAliased : Namespace SampleProvider :=
  sampleMounted.attachAlias "/x".toList ⟨0, by decide⟩ "/s".toList

theorem mountProvider_sample :
    mountProvider id "/aa".toList .first true sampleFresh = .ok sampleMounted := rfl

theorem mountAlias_sample :
    mountAlias true "/x".toList "/aa".toList "/s".toList sampleMounted = .ok sampleAliased := rfl

/-- A provider mounted later at the longer path `/bbb` is sorted in front, and the alias `/x` of
`/aa` resolves to it. -/
theorem alias_redirected :
    mountAlias true "/x".toList "/aa".toList "/s".toList sampleMounted = .ok sampleAliased ∧
      sampleMounted.mountOf "/aa".toList = some ⟨"/aa".toList, .first, true⟩ ∧
      sampleAliased.mountOf "/x/f".toList = some ⟨"/aa".toList, .first, true⟩ ∧
      ∃ later, mountProvider id "/bbb".toList .second true sampleAliased = .ok later ∧
        later.mountOf "/x/f".toList = some ⟨"/bbb".toList, .second, true⟩ :=
  ⟨rfl, rfl, rfl, _, rfl, rfl⟩

/-- A provider mounted later at the shorter path `/b` leaves the alias alone. -/
theorem alias_stable_sample :
    ∃ later, mountProvider id "/b".toList .second true sampleAliased = .ok later ∧
      ∃ aliasPath targetPath mount, canonicalize ['/'] "/x".toList = .ok aliasPath ∧
        canonicalize ['/'] "/aa".toList = .ok targetPath ∧
        sampleMounted.mountOf targetPath = some mount ∧
        ∀ p, AtOrBelow aliasPath p → later.mountOf p = some mount := by
  have hfirst : SafeRun sampleFresh sampleMounted :=
    .call (.provider id "/aa".toList .first true) .refl
      (fun _ _ entry hentry => absurd hentry List.not_mem_nil) mountProvider_sample
  refine ⟨_, rfl, alias_stable rfl rfl hfirst ?_ mountAlias_sample
    (.call (.provider id "/b".toList .second true) .refl ?_ rfl)⟩
  · intro aliasPath haliasPath
    cases haliasPath
    decide
  · intro mountPath hmountPath
    cases hmountPath
    simp only [sampleAliased, attachAlias, sampleMounted, attach, sampleFresh, List.nil_append,
      List.forall_mem_singleton]
    refine ⟨by decide, fun target htarget => ?_⟩
    cases htarget
    decide

end Namespace

end Troe.Fs
