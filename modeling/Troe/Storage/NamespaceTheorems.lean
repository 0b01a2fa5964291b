import Troe.Storage.Namespace

/-!
# Directory capabilities contain their requests

Every provider operation that a request makes through a directory capability is for a path at the
directory of the capability or below it, component by component, and goes to the mount of that path.
A request without the right it needs, or with a path that climbs above the directory, makes none.
-/

namespace Troe.Fs.Namespace

open Troe.Lib

section

variable {π : Type}

/-- The call is for a canonical path at `root` or below it, and goes to the mount that `ns` selects
for that path. -/
structure Contained (ns : Namespace π) (root : Path) (call : ProviderCall) : Prop where
  canonical : Canonical call.path
  beneath : Beneath root call.path
  selected : ns.mountForPath call.path = some (call.mount, call.relative)
  mounted : call.mount < ns.mounts.length

/-- From `ns` to `ns'` only contained calls are made, and mounts and aliases stay where they are. -/
structure Stays (root : Path) (ns ns' : Namespace π) : Prop where
  nodes : ns'.nodes = ns.nodes
  mounts : ns'.mounts.map (·.path) = ns.mounts.map (·.path)
  aliases : ns'.aliases = ns.aliases
  calls : ∃ issued, ns'.calls = ns.calls ++ issued ∧ ∀ call ∈ issued, ns.Contained root call

variable {ns ns' ns'' : Namespace π} {root path : Path}

/-- Which mount a path selects depends on where the mounts and aliases are. -/
theorem Stays.mountForPath_eq (h : Stays root ns ns') :
    ns'.mountForPath path = ns.mountForPath path := by
  unfold mountForPath
  rw [h.mounts, h.aliases]

theorem Stays.length_mounts (h : Stays root ns ns') : ns'.mounts.length = ns.mounts.length := by
  have hlength := congrArg List.length h.mounts
  rwa [List.length_map, List.length_map] at hlength

theorem Stays.refl : Stays root ns ns :=
  ⟨rfl, rfl, rfl, [], (List.append_nil _).symm, fun _ hcall => absurd hcall List.not_mem_nil⟩

theorem Stays.trans (h : Stays root ns ns') (h' : Stays root ns' ns'') : Stays root ns ns'' := by
  obtain ⟨issued, hissued, hcontained⟩ := h.calls
  obtain ⟨issued', hissued', hcontained'⟩ := h'.calls
  refine ⟨h'.nodes.trans h.nodes, h'.mounts.trans h.mounts, h'.aliases.trans h.aliases,
    issued ++ issued', ?_, fun call hcall => ?_⟩
  · rw [hissued', hissued, List.append_assoc]
  · rcases List.mem_append.mp hcall with hcall | hcall
    · exact hcontained call hcall
    · obtain ⟨hcanonical, hbeneath, hselected, hmounted⟩ := hcontained' call hcall
      exact ⟨hcanonical, hbeneath, h.mountForPath_eq ▸ hselected, h.length_mounts ▸ hmounted⟩

/-- A recorded call that is contained. -/
theorem stays_record {call : ProviderCall} (h : ns.Contained root call) (provider : π) :
    Stays root ns (ns.record call provider) := by
  refine ⟨rfl, ?_, rfl, [call], rfl, fun c hc => ?_⟩
  · apply List.ext_getElem?
    intro i
    rw [record, List.getElem?_map, List.getElem?_map, List.getElem?_modify]
    cases ns.mounts[i]? with
    | none => rfl
    | some mount =>
      split
      · rfl
      · rfl
  · rw [List.mem_singleton.mp hc]
    exact h

end

section

variable {π : Type} [FileSystemProvider π] {ns : Namespace π} {root path target : Path}
  {cs ds : List Component} {capability : DirectoryCapability}
  {allowMissingFinal allowFinalSymlink : Bool} {activeGeneration : ℕ}

/-! ## Validation -/

theorem metadataOfMount_stays {call : ProviderCall} (hbeneath : Beneath root call.path)
    (hselected : ns.mountForPath call.path = some (call.mount, call.relative)) :
    (metadataOfMount call).always (Stays root ns) ns := by
  unfold metadataOfMount Act.always Act.wp
  cases hmount : ns.mounts[call.mount]? with
  | none =>
    dsimp only
    rw [hmount]
    exact Stays.refl
  | some mount =>
    have hcontained : ns.Contained root call :=
      ⟨hbeneath.canonical, hbeneath, hselected, (List.getElem?_eq_some_iff.mp hmount).1⟩
    dsimp only
    rw [hmount]
    dsimp only
    cases hcall : FileSystemProvider.metadataNoFollow mount.provider call.relative with
    | mk outcome provider =>
      cases outcome with
      | ok metadata | error error => exact stays_record hcontained provider

/-- Metadata of a path at the root or below it. -/
theorem metadata_stays (hbeneath : Beneath root path) :
    (metadataNoFollowAbsolute path).always (Stays root ns) ns := by
  unfold metadataNoFollowAbsolute
  rw [hbeneath.canonical.canonicalize_eq]
  simp only [wp_quiet, Except.ok.injEq, reduceCtorEq, false_implies]
  rintro _ rfl
  split
  next hselected => exact metadataOfMount_stays hbeneath hselected
  · rw [Act.wp_ofExcept]
    exact ⟨fun _ _ => Stays.refl, fun _ _ => Stays.refl⟩

/-- The loop goes down from a directory at the root or below it, one component at a time. -/
theorem validateComponents_stays {es : List Component}
    (hroot : cs ≠ []) (hwithin : Within (cs ++ ds ++ es)) :
    (validateComponents allowMissingFinal (absolute (cs ++ ds)) es).always
      (Stays (absolute cs) ns) ns := by
  induction es generalizing ds ns with
  | nil => exact Stays.refl
  | cons e es ih =>
    have hne : cs ++ ds ≠ [] := List.append_ne_nil_of_left_ne_nil hroot ds
    have hcurrent : (if absolute (cs ++ ds) = ['/'] then absolute (cs ++ ds)
        else absolute (cs ++ ds) ++ ['/']) ++ e = absolute (cs ++ (ds ++ [e])) := by
      rw [if_neg (absolute_ne_root hwithin.left.names hne), ← List.append_assoc cs,
        absolute_append hne]
      simp
    have hnext : cs ++ ds ++ e :: es = cs ++ (ds ++ [e]) ++ es := by simp
    rw [hnext] at hwithin
    have hbeneath : Beneath (absolute cs) (absolute (cs ++ (ds ++ [e]))) :=
      ⟨cs, ds ++ [e], hwithin.left.left, hwithin.left, rfl, rfl⟩
    rw [validateComponents, hcurrent]
    simp only [wp_rules, Act.wp_attempt]
    refine Act.wp_mono (metadata_stays hbeneath) (fun metadata ns' hstays => ?_)
      fun error ns' hstays => ?_
    · split
      · split
        · exact hstays
        · exact hstays
      · split
        · exact hstays
        · exact Act.always_mono (ih hwithin) fun _ h => hstays.trans h
    · split
      · exact hstays
      · exact hstays

/-- Below a directory, what is left of a path splits into the components below it. -/
theorem components_below (hroot : cs ≠ []) (hwithin : Within (cs ++ ds)) {suffix : Path}
    (h : below (absolute cs) (absolute (cs ++ ds)) = some suffix) :
    ((suffix.dropWhile (· = '/')).splitOn '/').filter (· ≠ []) = ds := by
  have hsuffix : suffix = render '/' ds := by
    unfold below stripPrefix at h
    rw [absolute_append hroot, if_pos (List.prefix_append _ _), List.drop_left] at h
    exact (Option.filter_eq_some_iff.mp h).1 |> Option.some.inj |>.symm
  rw [hsuffix]
  have hnames : ∀ d ∈ ds, IsName d := fun d hd => hwithin.names d (List.mem_append_right cs hd)
  have hall : ds.filter (· ≠ []) = ds := by
    rw [List.filter_eq_self]
    exact fun d hd => decide_eq_true (hnames d hd).nonempty
  cases ds with
  | nil => rfl
  | cons d ds =>
    have hfirst : ((render '/' (d :: ds)).dropWhile (· = '/')) = d ++ render '/' ds := by
      have hd := hnames d List.mem_cons_self
      cases d with
      | nil => exact absurd rfl hd.nonempty
      | cons x d =>
        have hx : x ≠ '/' := fun h => hd.separator (h ▸ List.mem_cons_self)
        simp [hx]
    have hsplit := splitOn_render fun d hd => (hnames d hd).separator
    rw [render_cons, List.splitOn_cons_eq_if_modifyHead] at hsplit
    rw [hfirst, (List.cons.inj hsplit).2, hall]

/-- `validate_no_symlink_path` of a path at the root or below it. -/
theorem validateNoSymlinkPath_stays (hroot : root ≠ ['/']) (hbeneath : Beneath root target) :
    (validateNoSymlinkPath root target allowMissingFinal).always (Stays root ns) ns := by
  obtain ⟨cs, ds, hcs, hwithin, rfl, rfl⟩ := hbeneath
  have hne : cs ≠ [] := by
    rintro rfl
    exact hroot rfl
  have hself : Beneath (absolute cs) (absolute cs) :=
    ⟨cs, [], hcs, (List.append_nil cs).symm ▸ hcs, rfl, by rw [List.append_nil]⟩
  unfold validateNoSymlinkPath
  simp only [wp_rules]
  refine ⟨fun suffix hsuffix => ?_, fun _ => Stays.refl⟩
  refine Act.wp_ok_mono (metadata_stays hself) fun metadata ns' hstays => ?_
  refine ⟨fun _ => hstays, fun _ => ?_⟩
  rw [components_below hne hwithin hsuffix]
  have hstart : (validateComponents allowMissingFinal (absolute (cs ++ [])) ds).always
      (Stays (absolute cs) ns') ns' := validateComponents_stays hne (by rwa [List.append_nil])
  rw [List.append_nil] at hstart
  exact Act.always_mono hstart fun _ h => hstays.trans h

theorem rejectFinalSymlink_stays (hbeneath : Beneath root path) :
    (rejectFinalSymlink path allowFinalSymlink).always (Stays root ns) ns := by
  unfold rejectFinalSymlink
  split
  · exact Stays.refl
  · simp only [wp_rules, Act.wp_attempt]
    exact Act.wp_mono (metadata_stays hbeneath) (fun _ _ h => ⟨fun _ => h, fun _ => h⟩)
      fun _ _ h => ⟨fun _ => h, fun _ => h⟩

/-! ## Requests -/

/-- What a request comes to: it is turned down at once, or it has the right, its path does not climb
and its calls are contained. -/
structure Admitted (capability : DirectoryCapability) (required : DirectoryRights) (path : Path)
    (ns ns' : Namespace π) : Prop where
  rights : capability.rights.allows required = true
  inside : ¬ Climbs path
  stays : Stays capability.root ns ns'

/-- The path a request resolves to. -/
structure Resolved (capability : DirectoryCapability) (ns : Namespace π) (p : Path) : Prop where
  beneath : Beneath capability.root p
  provider : ns.providerRoot p = capability.providerRoot

theorem resolveDirectoryPath_admitted {required : DirectoryRights} :
    (resolveDirectoryPath capability activeGeneration path required allowMissingFinal
      allowFinalSymlink).wp
      (fun p ns' => Admitted capability required path ns ns' ∧ Resolved capability ns p)
      (fun _ ns' => ns' = ns ∨ Admitted capability required path ns ns') ns := by
  unfold resolveDirectoryPath
  simp only [wp_rules]
  refine ⟨fun _ => .inl trivial, fun hvalid => ⟨fun p hp => ?_, fun _ _ => .inl trivial⟩⟩
  refine ⟨fun _ => .inl trivial, fun hprovider => ?_⟩
  simp only [not_or, not_not] at hvalid hprovider
  obtain ⟨hroot, hbeneath, hinside⟩ := canonicalizeBeneath_eq_ok hp
  have hadmitted : ∀ {ns'}, Stays capability.root ns ns' → Admitted capability required path ns ns' :=
    fun h => ⟨hvalid.2.2, hinside, h⟩
  refine Act.wp_mono (validateNoSymlinkPath_stays hroot hbeneath) (fun _ ns' hstays => ?_)
    fun _ _ h => .inr (hadmitted h)
  refine Act.wp_mono (rejectFinalSymlink_stays hbeneath) (fun _ _ h => ?_)
    fun _ _ h => .inr (hadmitted (hstays.trans h))
  exact ⟨hadmitted (hstays.trans h), hbeneath, hprovider⟩

theorem resolve_admitted (ns : Namespace π) {request : Request} :
    (resolve capability activeGeneration path request).wp
      (fun p ns' => Admitted capability request.required path ns ns' ∧ Resolved capability ns p)
      (fun _ ns' => ns' = ns ∨ Admitted capability request.required path ns ns') ns := by
  cases request with
  | read | mutation allowMissingFinal => exact resolveDirectoryPath_admitted
  | link mutating =>
    unfold resolve resolveDirectoryLink
    simp only [wp_rules]
    refine Act.wp_ok_mono resolveDirectoryPath_admitted fun p ns' h => ?_
    obtain ⟨hadmitted, hresolved⟩ := h
    have hlater : ∀ {ns''}, Stays capability.root ns' ns'' →
        Admitted capability (Request.link mutating).required path ns ns'' :=
      fun h => ⟨hadmitted.rights, hadmitted.inside, hadmitted.stays.trans h⟩
    refine Act.wp_mono (metadata_stays hresolved.beneath) (fun _ _ h => ?_)
      fun _ _ h => .inr (hlater h)
    exact ⟨fun _ => .inr (hlater h), fun _ => ⟨hlater h, hresolved⟩⟩

/-- A capability has the directory and the rights it was granted with. -/
theorem grantDirectory_eq {generation : ℕ} {rights : DirectoryRights} :
    (grantDirectory root generation rights).wp
      (fun capability _ => capability.root = root ∧ capability.rights = rights)
      (fun _ _ => True) ns := by
  unfold grantDirectory
  simp only [wp_quiet]
  intro _ normalized _ hroot
  rw [not_or, not_not] at hroot
  refine Act.wp_mono Act.wp_trivial (fun _ _ _ _ => ?_) fun _ _ _ => trivial
  exact Act.wp_mono Act.wp_trivial (fun _ _ _ => hroot.2) fun _ _ _ => trivial

/-! ## Containment -/

/-- A request through a granted capability calls providers only for canonical paths at the granted
directory or below it, at the mount of the path, and only when the grant has the right the request
needs. The path it returns is of that kind too, and on the provider of the grant. A path that climbs
above the directory is turned down before any call. -/
theorem directory_requests_contained {ns₀ ns₁ : Namespace π} {generation : ℕ}
    {rights : DirectoryRights}
    (hgrant : grantDirectory root generation rights ns₀ = (.ok capability, ns₁))
    (ns : Namespace π) (activeGeneration : ℕ) (path : Path) (request : Request)
    {outcome : Except FsError Path} {ns' : Namespace π}
    (hrequest : resolve capability activeGeneration path request ns = (outcome, ns')) :
    (∃ issued, ns'.calls = ns.calls ++ issued ∧ ∀ call ∈ issued,
      ns.Contained root call ∧ rights.allows request.required = true) ∧
    (∀ p, outcome = .ok p → Canonical p ∧ Beneath root p ∧
      rights.allows request.required = true ∧ ns.providerRoot p = capability.providerRoot) ∧
    (Climbs path → (∃ error, outcome = .error error) ∧ ns' = ns) := by
  obtain ⟨rfl, rfl⟩ := (Act.wp_iff.mp grantDirectory_eq).1 _ _ hgrant
  have hcalls : ∀ {ns'}, Admitted capability request.required path ns ns' →
      ∃ issued, ns'.calls = ns.calls ++ issued ∧ ∀ call ∈ issued,
        ns.Contained capability.root call ∧ capability.rights.allows request.required = true := by
    intro ns' h
    obtain ⟨issued, hissued, hcontained⟩ := h.stays.calls
    exact ⟨issued, hissued, fun call hcall => ⟨hcontained call hcall, h.rights⟩⟩
  have hnone : ∃ issued, ns.calls = ns.calls ++ issued ∧ ∀ call ∈ issued,
      ns.Contained capability.root call ∧ capability.rights.allows request.required = true :=
    ⟨[], (List.append_nil _).symm, fun _ hcall => absurd hcall List.not_mem_nil⟩
  obtain ⟨hok, herror⟩ := Act.wp_iff.mp (resolve_admitted ns)
  cases outcome with
  | ok p =>
    obtain ⟨hadmitted, hresolved⟩ := hok _ _ hrequest
    refine ⟨hcalls hadmitted, ?_, fun hclimbs => absurd hclimbs hadmitted.inside⟩
    rintro _ hp
    cases hp
    exact ⟨hresolved.beneath.canonical, hresolved.beneath, hadmitted.rights, hresolved.provider⟩
  | error error =>
    rcases herror _ _ hrequest with rfl | hadmitted
    · exact ⟨hnone, fun p hp => (by cases hp), fun _ => ⟨⟨error, rfl⟩, rfl⟩⟩
    · exact ⟨hcalls hadmitted, fun p hp => (by cases hp),
        fun hclimbs => absurd hclimbs hadmitted.inside⟩

end

/-! ## A namespace with one mount -/

/-- A provider that knows the kinds of some paths. -/
abbrev Listing : Type := List (Path × NodeKind)

instance : FileSystemProvider Listing where
  metadataNoFollow listing path :=
    (((listing.lookup path).elim (.error .notFound) fun kind => .ok ⟨kind, 0, none, none, none⟩),
      listing)

/-- A provider at `/m` with a directory `/d` and a file in it. -/
def sample : Namespace Listing where
  nodes := [(['/'], .directory)]
  mounts := [⟨"/m".toList, [("/d".toList, .directory), ("/d/f".toList, .file)], true⟩]
  aliases := []
  calls := []
  targets := fun _ h => absurd h List.not_mem_nil

/-- The grant of `/m/d` for reading. -/
def sampleCapability : DirectoryCapability := ⟨"/m/d".toList, some "/m".toList, 1, .read⟩

/-- Reading `x/..//f` beneath `/m/d` asks the provider for the directory and the file in it, and
`x/../../e` is turned down. -/
theorem directory_requests_contained_sample :
    (∃ issued, (resolve sampleCapability 1 "x/..//f".toList .read sample).2.calls = [] ++ issued ∧
      ∀ call ∈ issued, sample.Contained "/m/d".toList call ∧
        DirectoryRights.read.allows Request.read.required = true) ∧
    (resolve sampleCapability 1 "x/..//f".toList .read sample).2.calls.length = 3 ∧
    Climbs "x/../../e".toList ∧
    (resolve sampleCapability 1 "x/../../e".toList .read sample).2 = sample := by
  have hgrant : grantDirectory "/m/d".toList 1 .read sample
      = (.ok sampleCapability, (grantDirectory "/m/d".toList 1 .read sample).2) := rfl
  have hclimbs : Climbs "x/../../e".toList :=
    ⟨["x".toList, "..".toList, "..".toList], ["e".toList], rfl, by decide⟩
  have hread := directory_requests_contained hgrant sample 1 "x/..//f".toList .read
    (Prod.eta _).symm
  have hescape := directory_requests_contained hgrant sample 1 "x/../../e".toList .read
    (Prod.eta _).symm
  exact ⟨hread.1, by decide +kernel, hclimbs, (hescape.2.2 hclimbs).2⟩

/-! ## Symbolic links in granted directories

`grant_directory` asks the provider about the directory itself, without following a link in the last
component, and validates the path from the directory to itself, which has no components left. A link
in front of the last component is followed by the provider and noticed by nobody. -/

section

variable {π : Type}

/-- The path at which the mount or the alias that serves `path` is attached. -/
def mountPoint (ns : Namespace π) (path : Path) : Option Path :=
  ((ns.mounts.map (·.path)).find? fun mountPath => (mountRelative mountPath path).isSome).or
    ((ns.aliases.find? fun entry => (entry.resolve path).isSome).map (·.path))

/-- A proper ancestor of `path` below the root of the mount that serves it. -/
structure AncestorBelowMount (ns : Namespace π) (path ancestor : Path) : Prop where
  beneath : Beneath ancestor path
  proper : ancestor ≠ path
  below : ∀ mount, ns.mountPoint path = some mount → (strictlyBelow mount ancestor).isSome

variable [FileSystemProvider π]

/-- The entry at `path` is a symbolic link. -/
def IsLink (ns : Namespace π) (path : Path) : Prop :=
  ∃ metadata ns', metadataNoFollowAbsolute path ns = (.ok metadata, ns') ∧ metadata.kind = .symlink

/-- Neither the directory itself nor an ancestor below the mount root is a symbolic link. -/
def NoLinks (ns : Namespace π) (path : Path) : Prop :=
  ¬ ns.IsLink path ∧ ∀ ancestor, ns.AncestorBelowMount path ancestor → ¬ ns.IsLink ancestor

/-- The checks of `grant_directory`: of the generation, of the path, and of the entry's kind, which is
looked up twice. -/
def Grantable (ns : Namespace π) (root : Path) (generation : ℕ) : Prop :=
  generation ≠ 0 ∧ canonicalize ['/'] root = .ok root ∧ root ≠ ['/'] ∧
    ∃ metadata ns', metadataNoFollowAbsolute root ns = (.ok metadata, ns') ∧
      metadata.kind = .directory ∧ ∃ metadata' ns'',
        metadataNoFollowAbsolute root ns' = (.ok metadata', ns'') ∧ metadata'.kind = .directory

/-- The path from a directory to itself has no components left: only the directory is looked up. -/
theorem validateNoSymlinkPath_self (root : Path) :
    validateNoSymlinkPath root root false = (do
      let metadata ← metadataNoFollowAbsolute root
      Act.reject (metadata.kind ≠ .directory) .wrongType
      pure () : Act (Namespace π) FsError Unit) := by
  have hbelow : below root root = some [] := by simp [below, stripPrefix]
  rw [validateNoSymlinkPath, hbelow]
  rfl

variable (ns : Namespace π) (root : Path) (generation : ℕ) (rights : DirectoryRights)

/-- A directory is granted exactly when the checks hold. -/
theorem grantDirectory_returns_iff :
    (∃ capability ns', grantDirectory root generation rights ns = (.ok capability, ns')) ↔
      ns.Grantable root generation := by
  trans (grantDirectory root generation rights).wp (fun _ _ => True) (fun _ _ => False) ns
  · simp [Act.wp_returns]
  unfold grantDirectory Grantable
  simp only [validateNoSymlinkPath_self, Act.wp_bind, Act.wp_reject_returns, Act.wp_ofExcept,
    Act.wp_get, Act.wp_pure]
  simp only [Act.wp_returns, not_or, not_not, and_true]
  cases hroot : canonicalize ['/'] root with
  | error e => simp
  | ok normalized => by_cases heq : normalized = root <;> simp [heq]

/-- **A grant stands for a path without symbolic links exactly when its own checks refuse it or no
ancestor below the mount root is a link.** It does not look at the ancestors. -/
theorem grantDirectory_noLinks_iff :
    ((∃ capability ns', grantDirectory root generation rights ns = (.ok capability, ns')) →
        ns.NoLinks root) ↔
      ¬ ns.Grantable root generation ∨
        ∀ ancestor, ns.AncestorBelowMount root ancestor → ¬ ns.IsLink ancestor := by
  rw [grantDirectory_returns_iff]
  constructor
  · intro h
    by_cases hgrantable : ns.Grantable root generation
    · exact .inr (h hgrantable).2
    · exact .inl hgrantable
  · rintro (hrefused | hancestors) hgrantable
    · exact absurd hgrantable hrefused
    · refine ⟨?_, hancestors⟩
      -- the first lookup has found a directory
      obtain ⟨-, -, -, metadata, ns', hmetadata, hkind, -⟩ := hgrantable
      rintro ⟨metadata', _, hmetadata', hlink⟩
      rw [hmetadata] at hmetadata'
      cases hmetadata'
      cases hkind.symm.trans hlink

end

/-- A provider at `/m` with a directory `/d` and a link `/l` to the root. Its answer for `/l/d` is
that of `/d`, as a provider gives it that follows links in front of the last component. -/
def linked : Namespace Listing where
  nodes := [(['/'], .directory)]
  mounts := [⟨"/m".toList,
    [("/d".toList, .directory), ("/l".toList, .symlink), ("/l/d".toList, .directory)], true⟩]
  aliases := []
  calls := []
  targets := fun _ h => absurd h List.not_mem_nil

/-- The directory `/m/l/d` is granted although `/m/l` is a symbolic link. -/
theorem grantDirectory_through_link :
    (grantDirectory "/m/l/d".toList 1 .readMutate linked).1 =
        .ok ⟨"/m/l/d".toList, some "/m".toList, 1, .readMutate⟩ ∧
      linked.AncestorBelowMount "/m/l/d".toList "/m/l".toList ∧ linked.IsLink "/m/l".toList ∧
      ¬ linked.NoLinks "/m/l/d".toList := by
  have hnames : ∀ c ∈ ["m".toList, "l".toList, "d".toList], IsName c := by
    simp only [List.forall_mem_cons, List.not_mem_nil, false_implies, implies_true, and_true]
    refine ⟨?_, ?_, ?_⟩ <;> constructor <;> decide
  have hwithin : Within (["m".toList, "l".toList] ++ ["d".toList]) :=
    ⟨hnames, by decide, by decide⟩
  have hancestor : linked.AncestorBelowMount "/m/l/d".toList "/m/l".toList := by
    refine ⟨⟨_, _, hwithin.left, hwithin, rfl, rfl⟩, by decide, ?_⟩
    rintro mount hmount
    cases hmount
    rfl
  have hlink : linked.IsLink "/m/l".toList := ⟨_, _, rfl, rfl⟩
  exact ⟨rfl, hancestor, hlink, fun h => h.2 _ hancestor hlink⟩

end Troe.Fs.Namespace
