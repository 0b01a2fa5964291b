import Troe.Lib.Checked
import Troe.Lib.Components

/-!
# Filesystem vocabulary and canonical paths (`troe-fs-api`)

Paths are modelled as lists of characters; lengths are UTF-8 bytes, as in the source. A canonical
path is written from its components (`Canonical`). `canonicalize` returns canonical paths and is the
identity on them; `canonicalize_beneath` stays below its root, component by component.
-/

namespace Troe.Fs

open Lib
open List (append_assoc append_nil foldl_cons length_append mem_singleton)

/-- Largest path, in bytes. -/
def maxPathBytes : ℕ := 1024

/-- Largest component, in bytes. -/
def maxNameBytes : ℕ := 255

/-- Largest number of components. -/
def maxPathDepth : ℕ := 16

inductive NodeKind where
  | directory
  | file
  | symlink
deriving DecidableEq

inductive FsError where
  | invalid
  | notFound
  | wrongType
  | readOnly
  | noSpace
  | overflow
  | alreadyExists
  | corrupt
  | io
  | timeout
  | unsupported
  | notConfigured
  | notEmpty
  | crossDevice
deriving DecidableEq

/-- Metadata of a node. -/
structure FileMetadata where
  kind : NodeKind
  byteCount : ℕ
  modifiedUnixSeconds : Option ℕ
  changedUnixSeconds : Option ℕ
  createdUnixSeconds : Option ℕ

/-- A string, as its characters. -/
abbrev Path : Type := List Char

/-- A path component. -/
abbrev Component : Type := List Char

/-- `str::len`. -/
def byteLength (s : List Char) : ℕ := (s.map Char.utf8Size).sum

/-! ## Canonicalization -/

/-- One turn of the loops over the components of a path. `up` is what a parent component does. -/
def pushComponent (up : List Component → Except FsError (List Component))
    (components : List Component) (component : Component) : Except FsError (List Component) :=
  if component = [] ∨ component = ['.'] then .ok components
  else if component = ['.', '.'] then up components
  else if maxNameBytes < byteLength component ∨ maxPathDepth ≤ components.length then .error .noSpace
  else .ok (components ++ [component])

/-- The loops over the components of a path. -/
def pushComponents (up : List Component → Except FsError (List Component))
    (components parts : List Component) : Except FsError (List Component) :=
  match parts with
  | [] => .ok components
  | part :: parts => do
    let components ← pushComponent up components part
    pushComponents up components parts

/-- `apply_components`: a parent component of the root is the root. -/
def applyComponents (components : List Component) (path : Path) :
    Except FsError (List Component) :=
  pushComponents (fun components => .ok components.dropLast) components (path.splitOn '/')

/-- The bytes of the path with these components. -/
def pathLength (components : List Component) : Except FsError ℕ := do
  let length ← okOr (checkedAdd 64 1 (components.map byteLength).sum) .overflow
  okOr (checkedAdd 64 length (components.length - 1)) .overflow

/-- The components a path starts from: none, or those of the working directory. -/
def startComponents (cwd path : Path) : Except FsError (List Component) :=
  if path.head? = some '/' then .ok []
  else do
    rejectIf (cwd.head? ≠ some '/') .invalid
    applyComponents [] cwd

/-- `canonicalize`. -/
def canonicalize (cwd path : Path) : Except FsError Path := do
  rejectIf (path = [] ∨ '\x00' ∈ path) .invalid
  let components ← startComponents cwd path
  let components ← applyComponents components path
  let length ← pathLength components
  rejectIf (maxPathBytes < length) .noSpace
  return if components = [] then ['/'] else render '/' components

/-- A parent component in `canonicalize_beneath`: rejected at the root. -/
def parentAbove (floor : ℕ) (components : List Component) : Except FsError (List Component) :=
  if components.length = floor then .error .invalid else .ok components.dropLast

/-- `canonicalize_beneath`. -/
def canonicalizeBeneath (root path : Path) : Except FsError Path := do
  rejectIf (path = [] ∨ path.head? = some '/' ∨ '\x00' ∈ path) .invalid
  let normalizedRoot ← canonicalize ['/'] root
  rejectIf (normalizedRoot ≠ root ∨ root = ['/']) .invalid
  let components ← applyComponents [] root
  let components ← pushComponents (parentAbove components.length) components (path.splitOn '/')
  let length ← pathLength components
  rejectIf (maxPathBytes < length) .noSpace
  return render '/' components

/-! ## Names -/

/-- A component that names an entry. -/
structure IsName (c : Component) : Prop where
  nonempty : c ≠ []
  notCurrent : c ≠ ['.']
  notParent : c ≠ ['.', '.']
  separator : '/' ∉ c
  nul : '\x00' ∉ c
  bytes : byteLength c ≤ maxNameBytes

/-- Components within the bounds of a path. -/
structure Within (cs : List Component) : Prop where
  names : ∀ c ∈ cs, IsName c
  depth : cs.length ≤ maxPathDepth
  length : 1 + (cs.map byteLength).sum + (cs.length - 1) ≤ maxPathBytes

/-- The path with these components. -/
def absolute (cs : List Component) : Path := if cs = [] then ['/'] else render '/' cs

/-- A path that is written from its components. -/
def Canonical (path : Path) : Prop := ∃ cs, Within cs ∧ path = absolute cs

/-- `path` is `root` or lies below it, component by component. -/
def Beneath (root path : Path) : Prop :=
  ∃ cs ds, Within cs ∧ Within (cs ++ ds) ∧ root = absolute cs ∧ path = absolute (cs ++ ds)

/-- The component names an entry; it is not empty, the current directory or its parent. -/
def isEntry (c : Component) : Bool := c ≠ [] ∧ c ≠ ['.'] ∧ c ≠ ['.', '.']

/-- At some point of the path there were more parent components than names. -/
def Climbs (path : Path) : Prop :=
  ∃ visited rest, path.splitOn '/' = visited ++ rest ∧
    visited.countP isEntry < visited.count ['.', '.']

section

variable {up : List Component → Except FsError (List Component)} {cs ds parts : List Component}
  {c : Component} {path root p : Path}

theorem Within.left {ds : List Component} (h : Within (cs ++ ds)) : Within cs := by
  have hdepth := h.depth
  have hlength := h.length
  rw [length_append] at hdepth
  rw [List.map_append, List.sum_append, length_append] at hlength
  exact ⟨fun c hc => h.names c (List.mem_append_left ds hc), by omega, by omega⟩

theorem within_nil : Within [] := ⟨fun _ hc => (by cases hc), by decide, by decide⟩

theorem render_ne_nil (h : cs ≠ []) : render '/' cs ≠ [] := by
  cases cs with
  | nil => exact absurd rfl h
  | cons c cs => exact List.cons_ne_nil _ _

theorem absolute_of_ne_nil (h : cs ≠ []) : absolute cs = render '/' cs := if_neg h

/-- The components of a canonical path are determined. -/
theorem splitOn_absolute (h : ∀ c ∈ cs, IsName c) (hne : cs ≠ []) :
    (absolute cs).splitOn '/' = [] :: cs := by
  rw [absolute_of_ne_nil hne]
  exact splitOn_render fun c hc => (h c hc).separator

/-- A path with components is not the root. -/
theorem absolute_ne_root (h : ∀ c ∈ cs, IsName c) (hne : cs ≠ []) : absolute cs ≠ ['/'] := by
  intro hroot
  have hsplit := splitOn_absolute h hne
  rw [hroot] at hsplit
  have hcs : cs = [[]] := (List.cons.inj hsplit).2.symm
  exact (h [] (hcs ▸ mem_singleton.mpr rfl)).nonempty rfl

theorem absolute_append (hne : cs ≠ []) : absolute (cs ++ ds) = absolute cs ++ render '/' ds := by
  rw [absolute_of_ne_nil hne, absolute_of_ne_nil (List.append_ne_nil_of_left_ne_nil hne ds),
    render_append]

/-! ## The loops -/

theorem pushComponent_name (h : IsName c) (hdepth : cs.length < maxPathDepth) :
    pushComponent up cs c = .ok (cs ++ [c]) := by
  rw [pushComponent, if_neg (not_or.mpr ⟨h.nonempty, h.notCurrent⟩), if_neg h.notParent, if_neg]
  rw [not_or, Nat.not_lt, Nat.not_le]
  exact ⟨h.bytes, hdepth⟩

theorem pushComponents_append {ps qs : List Component} :
    pushComponents up cs (ps ++ qs) = pushComponents up cs ps >>= (pushComponents up · qs) := by
  induction ps generalizing cs with
  | nil => rfl
  | cons part ps ih =>
    rw [List.cons_append, pushComponents, pushComponents]
    cases pushComponent up cs part with
    | error e => rfl
    | ok ds => exact ih

/-- Names are pushed one after the other. -/
theorem pushComponents_names (h : ∀ c ∈ ds, IsName c)
    (hdepth : (cs ++ ds).length ≤ maxPathDepth) : pushComponents up cs ds = .ok (cs ++ ds) := by
  induction ds generalizing cs with
  | nil => rw [pushComponents, append_nil]
  | cons d ds ih =>
    have hlt : cs.length < maxPathDepth := by
      rw [length_append, List.length_cons] at hdepth
      omega
    rw [pushComponents, pushComponent_name (h d List.mem_cons_self) hlt]
    have happend : cs ++ d :: ds = (cs ++ [d]) ++ ds := by simp
    rw [happend] at hdepth ⊢
    exact ih (fun c hc => h c (List.mem_cons_of_mem d hc)) hdepth

/-- What a component does to the components before it. -/
theorem pushComponent_eq_ok (h : pushComponent up cs c = .ok ds) (hseparator : '/' ∉ c)
    (hnul : '\x00' ∉ c) :
    (c = [] ∨ c = ['.']) ∧ ds = cs ∨ c = ['.', '.'] ∧ up cs = .ok ds ∨
      IsName c ∧ cs.length < maxPathDepth ∧ ds = cs ++ [c] := by
  unfold pushComponent at h
  split at h
  next hskip => exact .inl ⟨hskip, (Except.ok.inj h).symm⟩
  next hskip =>
    split at h
    next hparent => exact .inr (.inl ⟨hparent, h⟩)
    next hparent =>
      split at h
      · cases h
      next hbounds =>
        rw [not_or] at hskip hbounds
        exact .inr (.inr ⟨⟨hskip.1, hskip.2, hparent, hseparator, hnul,
          Nat.not_lt.mp hbounds.1⟩, Nat.not_le.mp hbounds.2, (Except.ok.inj h).symm⟩)

/-- Only names are pushed, and not too many, whatever a parent component does. -/
theorem pushComponents_eq_ok (hup : ∀ cs ds, up cs = .ok ds → ds = cs.dropLast)
    (h : pushComponents up cs parts = .ok ds)
    (hparts : ∀ c ∈ parts, '/' ∉ c ∧ '\x00' ∉ c) (hnames : ∀ c ∈ cs, IsName c)
    (hdepth : cs.length ≤ maxPathDepth) : (∀ c ∈ ds, IsName c) ∧ ds.length ≤ maxPathDepth := by
  induction parts generalizing cs with
  | nil =>
    cases h
    exact ⟨hnames, hdepth⟩
  | cons part parts ih =>
    rw [pushComponents, bind_eq_ok] at h
    obtain ⟨mid, hmid, hrest⟩ := h
    have htail : ∀ c ∈ parts, '/' ∉ c ∧ '\x00' ∉ c :=
      fun c hc => hparts c (List.mem_cons_of_mem part hc)
    obtain ⟨hseparator, hnul⟩ := hparts part List.mem_cons_self
    rcases pushComponent_eq_ok hmid hseparator hnul with ⟨-, rfl⟩ | ⟨-, hparent⟩ | ⟨hname, hlt, rfl⟩
    · exact ih hrest htail hnames hdepth
    · rw [hup cs mid hparent] at hrest
      refine ih hrest htail (fun c hc => hnames c ((List.dropLast_sublist cs).subset hc)) ?_
      rw [List.length_dropLast]
      omega
    · refine ih hrest htail (fun c hc => ?_) ?_
      · rcases List.mem_append.mp hc with hc | hc
        · exact hnames c hc
        · rw [mem_singleton.mp hc]
          exact hname
      · rw [length_append]
        exact hlt

theorem parts_of_path (hnul : '\x00' ∉ path) : ∀ c ∈ path.splitOn '/', '/' ∉ c ∧ '\x00' ∉ c :=
  fun _ hc => (of_mem_splitOn hc).imp_right fun hsub hmem => hnul (hsub hmem)

theorem pathLength_eq_ok {n : ℕ} : pathLength cs = .ok n ↔
    1 + (cs.map byteLength).sum + (cs.length - 1) < 2 ^ 64 ∧
      1 + (cs.map byteLength).sum + (cs.length - 1) = n := by
  unfold pathLength
  simp only [ok_rules]
  constructor
  · rintro ⟨_, ⟨-, rfl⟩, hlt, rfl⟩
    exact ⟨hlt, rfl⟩
  · rintro ⟨hlt, rfl⟩
    exact ⟨_, ⟨by omega, rfl⟩, hlt, rfl⟩

/-! ## Canonical paths -/

theorem applyComponents_absolute (h : Within cs) : applyComponents [] (absolute cs) = .ok cs := by
  by_cases hne : cs = []
  · rw [hne]
    rfl
  · rw [applyComponents, splitOn_absolute h.names hne]
    exact pushComponents_names h.names h.depth

/-- The components a path is read onto. -/
def base (cs : List Component) (path : Path) : List Component :=
  if path.head? = some '/' then [] else cs

theorem head?_absolute (cs : List Component) : (absolute cs).head? = some '/' := by
  cases cs <;> rfl

theorem startComponents_absolute (h : Within cs) :
    startComponents (absolute cs) path = .ok (base cs path) := by
  unfold startComponents base
  split
  · rfl
  · simp only [ok_rules]
    exact ⟨(), not_not.mpr (head?_absolute cs), applyComponents_absolute h⟩

/-- `canonicalize` returns canonical paths. -/
theorem canonicalize_eq_ok (h : Within cs) (hok : canonicalize (absolute cs) path = .ok p) :
    ∃ ds, Within ds ∧ p = absolute ds ∧ applyComponents (base cs path) path = .ok ds := by
  unfold canonicalize at hok
  simp only [ok_rules, startComponents_absolute h] at hok
  obtain ⟨_, hvalid, start, hstart, ds, hds, n, hn, _, hlength, hp⟩ := hok
  rw [not_or] at hvalid
  rw [← Except.ok.inj hstart] at hds
  have hbase : (∀ c ∈ base cs path, IsName c) ∧ (base cs path).length ≤ maxPathDepth := by
    unfold base
    split
    · exact ⟨fun c hc => (by cases hc), Nat.zero_le _⟩
    · exact ⟨h.names, h.depth⟩
  obtain ⟨hnames, hdepth⟩ := pushComponents_eq_ok (fun _ _ h => (Except.ok.inj h).symm) hds
    (parts_of_path hvalid.2) hbase.1 hbase.2
  obtain ⟨-, rfl⟩ := pathLength_eq_ok.mp hn
  exact ⟨ds, ⟨hnames, hdepth, Nat.not_lt.mp hlength⟩, (Except.ok.inj hp).symm, hds⟩

theorem canonical_of_ok (h : canonicalize ['/'] path = .ok p) : Canonical p := by
  obtain ⟨ds, hds, hp, -⟩ := canonicalize_eq_ok within_nil h
  exact ⟨ds, hds, hp⟩

/-- `canonicalize` leaves canonical paths alone. -/
theorem canonicalize_absolute (h : Within cs) (cwd : Path) :
    canonicalize cwd (absolute cs) = .ok (absolute cs) := by
  have hvalid : ¬ (absolute cs = [] ∨ '\x00' ∈ absolute cs) := by
    rintro (hnil | hnul)
    · unfold absolute at hnil
      split at hnil
      · cases hnil
      next hne => exact render_ne_nil hne hnil
    · unfold absolute at hnul
      split at hnul
      · cases mem_singleton.mp hnul
      · obtain ⟨c, hc, hmem⟩ := List.mem_flatMap.mp hnul
        rcases List.mem_cons.mp hmem with heq | hmem
        · cases heq
        · exact (h.names c hc).nul hmem
  have hlength : pathLength cs = .ok (1 + (cs.map byteLength).sum + (cs.length - 1)) := by
    refine pathLength_eq_ok.mpr ⟨?_, rfl⟩
    have := h.length
    have hmax : maxPathBytes < 2 ^ 64 := by decide
    omega
  unfold canonicalize
  simp only [ok_rules]
  exact ⟨(), hvalid, [], if_pos (head?_absolute cs), cs, applyComponents_absolute h, _, hlength, (),
    Nat.not_lt.mpr h.length, rfl⟩

theorem Canonical.canonicalize_eq (h : Canonical p) : canonicalize ['/'] p = .ok p := by
  obtain ⟨cs, hcs, rfl⟩ := h
  exact canonicalize_absolute hcs _

/-! ## Paths beneath a root -/

theorem Beneath.canonical (h : Beneath root p) : Canonical p := by
  obtain ⟨cs, ds, -, hwithin, -, rfl⟩ := h
  exact ⟨cs ++ ds, hwithin, rfl⟩

theorem parentAbove_eq_ok {floor : ℕ} (cs ds : List Component)
    (h : parentAbove floor cs = .ok ds) : ds = cs.dropLast := by
  unfold parentAbove at h
  split at h
  · cases h
  · exact (Except.ok.inj h).symm

/-! ## Reading a path -/

/-- A component is read onto a stack: a name is pushed, a parent component pops. -/
def read (stack : List Component) (c : Component) : List Component :=
  if c = [] ∨ c = ['.'] then stack else if c = ['.', '.'] then stack.dropLast else stack ++ [c]

/-- Some part of the path, read onto the base, leads out of it. -/
def Leaves (cs : List Component) (path : Path) : Prop :=
  path.head? = some '/' ∨
    ∃ visited rest, path.splitOn '/' = visited ++ rest ∧ ¬ cs <+: visited.foldl read cs

theorem pushComponent_read (h : pushComponent (fun cs => .ok cs.dropLast) cs c = .ok ds) :
    ds = read cs c := by
  unfold pushComponent at h
  unfold read
  split_ifs at h ⊢ <;> simp_all

theorem pushComponents_read (h : pushComponents (fun cs => .ok cs.dropLast) cs parts = .ok ds) :
    ds = parts.foldl read cs := by
  induction parts generalizing cs with
  | nil => exact (Except.ok.inj h).symm
  | cons part parts ih =>
    rw [pushComponents, bind_eq_ok] at h
    obtain ⟨mid, hmid, hrest⟩ := h
    rw [foldl_cons, ← pushComponent_read hmid]
    exact ih hrest

/-- A component in `canonicalize_beneath` is read as in `canonicalize`, or leads out of the base and
is rejected. -/
theorem pushComponent_parentAbove (cs extra : List Component) (c : Component) :
    (∃ extra', read (cs ++ extra) c = cs ++ extra' ∧
      extra'.length + [c].count ['.', '.'] = extra.length + [c].countP isEntry ∧
      pushComponent (parentAbove cs.length) (cs ++ extra) c
        = pushComponent (fun cs => .ok cs.dropLast) (cs ++ extra) c) ∨
    extra = [] ∧ c = ['.', '.'] ∧
      pushComponent (parentAbove cs.length) (cs ++ extra) c = .error .invalid := by
  unfold pushComponent read
  have hname (hskip : ¬ (c = [] ∨ c = ['.'])) (hparent : c ≠ ['.', '.']) :
      (extra ++ [c]).length + [c].count ['.', '.'] = extra.length + [c].countP isEntry := by
    simp [isEntry, not_or.mp hskip, hparent]
  split_ifs with hskip hparent hbounds
  · exact .inl ⟨extra, rfl, by rcases hskip with rfl | rfl <;> rfl, rfl⟩
  · rcases List.eq_nil_or_concat' extra with rfl | ⟨init, last, rfl⟩
    · exact .inr ⟨rfl, hparent, by simp [parentAbove]⟩
    · exact .inl ⟨init, by simp [← append_assoc], by simp [hparent, isEntry], by simp [parentAbove]⟩
  · exact .inl ⟨extra ++ [c], append_assoc .., hname hskip hparent, rfl⟩
  · exact .inl ⟨extra ++ [c], append_assoc .., hname hskip hparent, rfl⟩

/-- Above a floor, the loop keeps what is under the floor, and what it has on top is what names have
added and parents have removed. -/
theorem pushComponents_beneath {extra : List Component}
    (h : pushComponents (parentAbove cs.length) (cs ++ extra) parts = .ok ds) :
    ∃ extra', ds = cs ++ extra' ∧ extra'.length + parts.count ['.', '.']
      = extra.length + parts.countP isEntry := by
  induction parts generalizing extra with
  | nil => exact ⟨extra, (Except.ok.inj h).symm, rfl⟩
  | cons part parts ih =>
    rw [pushComponents, bind_eq_ok] at h
    obtain ⟨mid, hmid, hrest⟩ := h
    rcases pushComponent_parentAbove cs extra part with
      ⟨above, hread, hcount, heq⟩ | ⟨-, -, hinvalid⟩
    · rw [heq] at hmid
      rw [pushComponent_read hmid, hread] at hrest
      obtain ⟨extra', hds, hcount'⟩ := ih hrest
      rw [List.count_cons, List.countP_cons]
      refine ⟨extra', hds, ?_⟩
      rw [List.count_singleton, List.countP_singleton] at hcount
      omega
    · rw [hinvalid] at hmid
      cases hmid

/-- A path that climbs is rejected. -/
theorem not_climbs_of_ok (h : pushComponents (parentAbove cs.length) cs (path.splitOn '/') = .ok ds) :
    ¬ Climbs path := by
  rintro ⟨visited, rest, hsplit, hclimb⟩
  rw [hsplit, pushComponents_append, bind_eq_ok] at h
  obtain ⟨mid, hmid, -⟩ := h
  have hstart : pushComponents (parentAbove cs.length) (cs ++ []) visited = .ok mid := by
    rwa [append_nil]
  obtain ⟨extra, -, hcount⟩ := pushComponents_beneath hstart
  rw [List.length_nil] at hcount
  omega

/-- `canonicalize_beneath` stays beneath its root, and rejects what climbs. -/
theorem canonicalizeBeneath_eq_ok (h : canonicalizeBeneath root path = .ok p) :
    root ≠ ['/'] ∧ Beneath root p ∧ ¬ Climbs path := by
  unfold canonicalizeBeneath at h
  simp only [ok_rules, not_or, ne_eq, not_not] at h
  obtain ⟨_, ⟨-, -, hnul⟩, _, hnormal, _, ⟨rfl, hroot⟩, cs, hcs, ds, hds, n, hn, _, hlength, hp⟩ := h
  obtain ⟨root, hwithin, rfl⟩ := canonical_of_ok hnormal
  have hne : root ≠ [] := by
    rintro rfl
    exact hroot rfl
  obtain rfl := Except.ok.inj ((applyComponents_absolute hwithin).symm.trans hcs)
  have hstart : pushComponents (parentAbove root.length) (root ++ []) (path.splitOn '/') = .ok ds := by
    rwa [append_nil]
  obtain ⟨extra, rfl, -⟩ := pushComponents_beneath hstart
  obtain ⟨hnames, hdepth⟩ := pushComponents_eq_ok parentAbove_eq_ok hds (parts_of_path hnul)
    hwithin.names hwithin.depth
  obtain ⟨-, rfl⟩ := pathLength_eq_ok.mp hn
  refine ⟨hroot, ⟨root, extra, hwithin, ⟨hnames, hdepth, Nat.not_lt.mp hlength⟩, rfl, ?_⟩,
    not_climbs_of_ok hds⟩
  rw [absolute_of_ne_nil (List.append_ne_nil_of_left_ne_nil hne extra)]
  exact (Except.ok.inj hp).symm

/-- The two loops agree while the base is not left; once it is, `canonicalize_beneath` rejects. -/
theorem pushComponents_parentAbove (hne : cs ≠ []) (parts extra : List Component) :
    ((∀ visited rest, parts = visited ++ rest → cs <+: visited.foldl read (cs ++ extra)) →
      pushComponents (parentAbove cs.length) (cs ++ extra) parts
        = pushComponents (fun cs => .ok cs.dropLast) (cs ++ extra) parts) ∧
    ((∃ visited rest, parts = visited ++ rest ∧ ¬ cs <+: visited.foldl read (cs ++ extra)) →
      ∃ e, pushComponents (parentAbove cs.length) (cs ++ extra) parts = .error e) := by
  induction parts generalizing extra with
  | nil =>
    refine ⟨fun _ => rfl, ?_⟩
    rintro ⟨visited, rest, hparts, hleaves⟩
    rw [(List.nil_eq_append_iff.mp hparts).1] at hleaves
    exact absurd (List.prefix_append cs extra) hleaves
  | cons part parts ih =>
    simp only [pushComponents]
    rcases pushComponent_parentAbove cs extra part with
      ⟨extra', hread, -, heq⟩ | ⟨rfl, rfl, hinvalid⟩
    · rw [heq]
      cases hmid : pushComponent (fun cs => .ok cs.dropLast) (cs ++ extra) part with
      | error e => exact ⟨fun _ => rfl, fun _ => ⟨e, rfl⟩⟩
      | ok mid =>
        obtain rfl := (pushComponent_read hmid).trans hread
        refine ⟨fun hstays => (ih extra').1 fun visited rest hparts => ?_, ?_⟩
        · have := hstays (part :: visited) rest (by rw [hparts, List.cons_append])
          rwa [foldl_cons, hread] at this
        · rintro ⟨visited, rest, hparts, hleaves⟩
          cases visited with
          | nil => exact absurd (List.prefix_append cs extra) hleaves
          | cons c visited =>
            rw [← (List.cons.inj hparts).1, foldl_cons, hread] at hleaves
            exact (ih extra').2 ⟨visited, rest, (List.cons.inj hparts).2, hleaves⟩
    · refine ⟨fun hstays => ?_, fun _ => ⟨.invalid, by rw [hinvalid]; rfl⟩⟩
      -- the parent of the base is not beneath it
      have hlength := (hstays [['.', '.']] parts rfl).length_le
      have hpositive := List.length_pos_iff.mpr hne
      simp [read] at hlength
      omega

theorem canonicalizeBeneath_absolute (h : Within cs) (hne : cs ≠ []) :
    canonicalizeBeneath (absolute cs) path = (do
      rejectIf (path = [] ∨ path.head? = some '/' ∨ '\x00' ∈ path) .invalid
      let ds ← pushComponents (parentAbove cs.length) cs (path.splitOn '/')
      let length ← pathLength ds
      rejectIf (maxPathBytes < length) .noSpace
      return render '/' ds) := by
  have hroot : absolute cs ≠ ['/'] := by
    intro heq
    have hcs := applyComponents_absolute h
    rw [heq] at hcs
    exact hne (Except.ok.inj hcs).symm
  have haccepted : ¬ (absolute cs ≠ absolute cs ∨ absolute cs = ['/']) := by
    rw [not_or]
    exact ⟨not_not.mpr rfl, hroot⟩
  rw [canonicalizeBeneath, canonicalize_absolute h, applyComponents_absolute h]
  refine bind_congr fun _ => ?_
  change rejectIf _ _ >>= _ = _
  rw [rejectIf, if_neg haccepted]
  rfl

/-- The root is no base. -/
theorem canonicalizeBeneath_invalid (path : Path) :
    canonicalizeBeneath ['/'] path = .error .invalid := by
  rw [canonicalizeBeneath, rejectIf]
  split
  · rfl
  · rfl

/-- `canonicalize` reads the path onto the working directory, its results are canonical and stay as
they are, and beneath a directory other than the root `canonicalize_beneath` is `canonicalize` on
the paths that do not leave it and rejects the others. Beneath the root it rejects every path. -/
theorem canonicalize_reads (h : Within cs) (path : Path) :
    (∀ p, canonicalize (absolute cs) path = .ok p →
      p = absolute ((path.splitOn '/').foldl read (base cs path)) ∧ Canonical p ∧
        ∀ cwd, canonicalize cwd p = .ok p) ∧
    (cs ≠ [] →
      (¬ Leaves cs path → canonicalizeBeneath (absolute cs) path = canonicalize (absolute cs) path) ∧
      (Leaves cs path → ∃ e, canonicalizeBeneath (absolute cs) path = .error e)) ∧
    canonicalizeBeneath ['/'] path = .error .invalid := by
  refine ⟨fun p hp => ?_, fun hne => ?_, canonicalizeBeneath_invalid path⟩
  · obtain ⟨ds, hds, rfl, happly⟩ := canonicalize_eq_ok h hp
    exact ⟨congrArg absolute (pushComponents_read happly), ⟨ds, hds, rfl⟩, canonicalize_absolute hds⟩
  · obtain ⟨hstay, hleave⟩ := pushComponents_parentAbove hne (path.splitOn '/') []
    rw [append_nil] at hstay hleave
    rw [canonicalizeBeneath_absolute h hne]
    refine ⟨fun hstays => ?_, ?_⟩
    · obtain ⟨hrelative, hbelow⟩ := not_or.mp hstays
      have hbelow : ∀ visited rest, path.splitOn '/' = visited ++ rest →
          cs <+: visited.foldl read cs := by
        intro visited rest hparts
        by_contra hout
        exact hbelow ⟨visited, rest, hparts, hout⟩
      rw [hstay hbelow, canonicalize, startComponents_absolute h, base]
      simp only [hrelative, false_or]
      refine bind_congr fun _ => ?_
      change _ = pushComponents _ cs _ >>= _
      cases hds : pushComponents (fun cs => .ok cs.dropLast) cs (path.splitOn '/') with
      | error e => rfl
      | ok ds =>
        have hbase := hbelow _ [] (append_nil _).symm
        rw [← pushComponents_read hds] at hbase
        change _ = pathLength ds >>= _
        rw [if_neg (hbase.ne_nil hne)]
        rfl
    · rintro (habsolute | hout)
      · exact ⟨.invalid, by rw [rejectIf, if_pos (.inr (.inl habsolute))]; rfl⟩
      · obtain ⟨e, he⟩ := hleave hout
        rw [he]
        by_cases hbad : path = [] ∨ path.head? = some '/' ∨ '\x00' ∈ path
        · exact ⟨.invalid, by rw [rejectIf, if_pos hbad]; rfl⟩
        · exact ⟨e, by rw [rejectIf, if_neg hbad]; rfl⟩

/-- The parent of `/a` is the root, and leaves the base `/a`. -/
theorem canonicalize_reads_parent :
    canonicalize ['/', 'a'] ['.', '.'] = .ok ['/'] ∧ Canonical ['/'] ∧
      Leaves [['a']] ['.', '.'] ∧ ∃ e, canonicalizeBeneath ['/', 'a'] ['.', '.'] = .error e := by
  have hname : Within [['a']] :=
    ⟨List.forall_mem_singleton.mpr (by constructor <;> decide), by decide, by decide⟩
  have hleaves : Leaves [['a']] ['.', '.'] := .inr ⟨[['.', '.']], [], rfl, by decide⟩
  obtain ⟨hreads, hbeneath, -⟩ := canonicalize_reads hname ['.', '.']
  exact ⟨rfl, (hreads ['/'] rfl).2.1, hleaves, (hbeneath (List.cons_ne_nil _ _)).2 hleaves⟩

/-- No path is read beneath the root, though one like `a` does not leave it. -/
theorem canonicalizeBeneath_root :
    canonicalize ['/'] ['a'] = .ok ['/', 'a'] ∧ ¬ Leaves [] ['a'] ∧
      ∀ path, canonicalizeBeneath ['/'] path = .error .invalid := by
  refine ⟨rfl, ?_, canonicalizeBeneath_invalid⟩
  rintro (h | ⟨visited, rest, -, h⟩)
  · cases h
  · exact h (List.nil_prefix)

end

end Troe.Fs
