import Reindent.Proofs.FileTree.Walk

/-!
# Looking a path up

A path is looked up by walking along its names.  Where the walk ends can also be told without the
tree, by taking the two dots out: if the walk succeeds, the resolved path is the path of the
location it ends at.  A path without two dots leads to the location of its own names.

A path and its names that are not too long can always be looked up; it names a file, a directory or
nothing.  What stands below the directory that a path names is looked up by longer paths, so the
files there are found when none of these gets too long.
-/

namespace Reindent

namespace Path

theorem dots_not_mem_withoutDots (names : List String) :
    ".." ∉ withoutDots names := by
  rw [withoutDots, List.mem_reverse]
  have hkept : ∀ (names kept : List String), ".." ∉ kept →
      ".." ∉ names.foldl (fun kept name => if name = ".." then kept.drop 1 else name :: kept)
        kept := by
    intro names
    induction names with
    | nil => exact fun _ h => h
    | cons name rest ih =>
        intro kept h
        refine ih _ ?_
        dsimp only
        split
        · exact fun hmem => h (List.mem_of_mem_drop hmem)
        · next hname => exact List.not_mem_cons_of_ne_of_not_mem (Ne.symm hname) h
  exact hkept names [] List.not_mem_nil

/-- A path as resolving gives it: absolute and without two dots. -/
structure IsResolved (path : Path) : Prop where
  root_eq : path.root = .slash
  dots_not_mem : ".." ∉ path.names

theorem IsResolved.eq_of_names_eq
    {path other : Path} (h : path.IsResolved) (hother : other.IsResolved)
    (hnames : path.names = other.names) :
    path = other := by
  obtain ⟨root, names⟩ := path
  obtain ⟨root', names'⟩ := other
  obtain rfl : root = .slash := h.root_eq
  obtain rfl : root' = .slash := hother.root_eq
  obtain rfl : names = names' := hnames
  rfl

theorem isResolved_of_resolved
    {cwd : Location} {path full : Path} (h : path.resolved cwd = .ok full) :
    full.IsResolved := by
  rw [resolved] at h
  split at h
  · cases h
  · rw [← Except.ok.inj h]
    exact ⟨rfl, dots_not_mem_withoutDots _⟩

/-- The path and each of its names are short enough to be looked up. -/
structure WithinLimits (path : Path) : Prop where
  text_le : path.text.utf8ByteSize ≤ FileTree.pathLimit
  name_le : ∀ name ∈ path.names, name.utf8ByteSize ≤ FileTree.nameLimit

end Path

namespace FileTree

variable {tree : FileTree} {cwd location : Location} {path : Path}

/-! ## Walks and two dots -/

/-- Walking keeps the names that resolving keeps. -/
theorem foldl_eq_reverse_of_walk
    {start found : Location} {names : List String} (h : tree.walk start names = .ok found) :
    names.foldl (fun kept name => if name = ".." then kept.drop 1 else name :: kept)
      start.reverse = found.reverse := by
  induction names generalizing start with
  | nil => rw [List.foldl_nil, Except.ok.inj h]
  | cons name rest ih =>
      obtain ⟨next, henter, hrest⟩ := walk_cons_of_ok h
      rw [List.foldl_cons, ← ih hrest]
      rcases enter_cases henter with ⟨hdots, rfl⟩ | ⟨hname, rfl, -⟩
      · rw [if_pos hdots, List.drop_one, List.tail_reverse]
      · rw [if_neg hname, List.reverse_append, List.reverse_singleton, List.singleton_append]

theorem withoutDots_append_of_walk
    {start found : Location} {names : List String} (hstart : tree.Reaches start)
    (h : tree.walk start names = .ok found) :
    Path.withoutDots (start ++ names) = found := by
  have hfrom := foldl_eq_reverse_of_walk hstart
  rw [Path.withoutDots, List.foldl_append]
  rw [List.reverse_nil] at hfrom
  rw [hfrom, foldl_eq_reverse_of_walk h, List.reverse_reverse]

/-- A walk that never goes up ends at the names that it went along. -/
theorem eq_append_of_walk
    {start found : Location} {names : List String} (hdots : ".." ∉ names)
    (h : tree.walk start names = .ok found) :
    found = start ++ names := by
  induction names generalizing start with
  | nil => rw [List.append_nil, Except.ok.inj h]
  | cons name rest ih =>
      obtain ⟨hname, hrest⟩ := List.ne_and_not_mem_of_not_mem_cons hdots
      obtain ⟨next, henter, hwalk⟩ := walk_cons_of_ok h
      rcases enter_cases henter with ⟨hup, -⟩ | ⟨-, rfl, -⟩
      · exact absurd hup.symm hname
      · rw [ih hrest hwalk, List.append_assoc, List.singleton_append]

theorem Reaches.dots_not_mem
    (h : tree.Reaches location) :
    ".." ∉ location := by
  have hresolved := withoutDots_append_of_walk tree.reaches_nil h
  rw [← hresolved]
  exact Path.dots_not_mem_withoutDots _

theorem hasDirectory_of_enter
    {next : Location} {name : String} (h : tree.enter location name = .ok next) :
    tree.hasDirectory location = true := by
  unfold enter at h
  split at h
  · cases h
  · next hdirectory => simpa using hdirectory

/-- On the way to a reached location there are only directories. -/
theorem Reaches.hasDirectory
    {name : String} {rest : List String} (h : tree.Reaches (location ++ name :: rest)) :
    tree.hasDirectory location = true := by
  have hdots : ".." ∉ location := fun hmem => h.dots_not_mem (List.mem_append_left _ hmem)
  obtain ⟨found, hwalk, hrest⟩ := walk_append_of_ok h
  obtain ⟨next, henter, -⟩ := walk_cons_of_ok hrest
  rw [eq_append_of_walk hdots hwalk] at henter
  exact hasDirectory_of_enter henter

theorem names_join (cwd : Location) (path : Path) :
    (Path.join { root := .slash, names := cwd } path).names = start cwd path ++ path.names := by
  obtain ⟨root, names⟩ := path
  cases root <;> rfl

/-- A path that leads somewhere resolves to the path of the location it leads to. -/
theorem resolved_of_locate
    (hstart : tree.Reaches (start cwd path)) (hnull : path.hasNull = false)
    (h : tree.locate cwd path = .ok location) :
    path.resolved cwd = .ok { root := .slash, names := location } := by
  rw [locate] at h
  split at h
  · cases h
  · rw [Path.resolved, if_neg (by simp [hnull]), Path.resolve, names_join,
      withoutDots_append_of_walk hstart h]

theorem start_of_isAbsolute
    (h : path.isAbsolute = true) (cwd : Location) :
    start cwd path = [] := by
  rw [start, if_pos h]

/-- An absolute path without two dots leads to the location of its own names. -/
theorem eq_names_of_locate
    (habsolute : path.isAbsolute = true) (hdots : ".." ∉ path.names)
    (h : tree.locate cwd path = .ok location) :
    location = path.names := by
  rw [locate, start_of_isAbsolute habsolute] at h
  split at h
  · cases h
  · exact eq_append_of_walk hdots h

/-! ## What a path names -/

theorem probe_eq_some_iff
    {node : Node} :
    tree.probe cwd path = .ok (some (location, node)) ↔
      path.hasNull = false ∧ tree.locate cwd path = .ok location ∧
        tree.node? location = some node := by
  constructor
  · intro h
    refine ⟨?_, locate_of_probe h⟩
    by_contra hnull
    rw [probe, if_pos (by simpa using hnull)] at h
    cases h
  · rintro ⟨hnull, hlocate, hnode⟩
    rw [probe, if_neg (by simp [hnull]), hlocate]
    simp [hnode]

/-- Whether a path names a file or a directory, if it names anything. -/
def kind? (tree : FileTree) (cwd : Location) (path : Path) : Except Crash (Option Bool) :=
  (tree.probe cwd path).map (Option.map fun found => found.2.isFile)

theorem isFile_eq (tree : FileTree) (cwd : Location) (path : Path) :
    tree.isFile cwd path = (tree.kind? cwd path).map (· == some true) := by
  rw [isFile, kind?]
  rcases tree.probe cwd path with cause | _ | ⟨location, ⟨bytes⟩ | _⟩ <;> rfl

theorem isDirectory_eq (tree : FileTree) (cwd : Location) (path : Path) :
    tree.isDirectory cwd path = (tree.kind? cwd path).map (· == some false) := by
  rw [isDirectory, kind?]
  rcases tree.probe cwd path with cause | _ | ⟨location, ⟨bytes⟩ | _⟩ <;> rfl

theorem isPresent_eq (tree : FileTree) (cwd : Location) (path : Path) :
    tree.isPresent cwd path = (tree.kind? cwd path).map Option.isSome := by
  rw [isPresent, kind?]
  rcases tree.probe cwd path with cause | _ | ⟨location, ⟨bytes⟩ | _⟩ <;> rfl

theorem isFile_eq_true_iff :
    tree.isFile cwd path = .ok true ↔
      ∃ location bytes, tree.probe cwd path = .ok (some (location, .file bytes)) := by
  rw [isFile_eq, kind?]
  rcases tree.probe cwd path with cause | _ | ⟨location, ⟨bytes⟩ | _⟩ <;>
    simp [Except.map, Node.isFile]

theorem isDirectory_eq_true_iff :
    tree.isDirectory cwd path = .ok true ↔
      ∃ location, tree.probe cwd path = .ok (some (location, .directory)) := by
  rw [isDirectory_eq, kind?]
  rcases tree.probe cwd path with cause | _ | ⟨location, ⟨bytes⟩ | _⟩ <;>
    simp [Except.map, Node.isFile]

theorem isPresent_eq_true_iff :
    tree.isPresent cwd path = .ok true ↔
      tree.isFile cwd path = .ok true ∨ tree.isDirectory cwd path = .ok true := by
  rw [isPresent_eq, isFile_eq, isDirectory_eq]
  rcases tree.kind? cwd path with cause | _ | _ | _ <;> simp [Except.map]

/-- A path that names neither a file nor a directory names nothing. -/
theorem probe_eq_none_iff :
    tree.probe cwd path = .ok none ↔
      tree.isFile cwd path = .ok false ∧ tree.isDirectory cwd path = .ok false := by
  rw [isFile_eq, isDirectory_eq, kind?]
  rcases tree.probe cwd path with cause | _ | ⟨location, ⟨bytes⟩ | _⟩ <;>
    simp [Except.map, Node.isFile]

/-- Questions for a file or a directory see no more of a tree than its shape. -/
theorem SameShape.kind?_eq
    {later : FileTree} (h : SameShape tree later) (cwd : Location) (path : Path) :
    later.kind? cwd path = tree.kind? cwd path := by
  have hat : ∀ (t : FileTree) (location : Location),
      ((t.node? location).map fun node => (location, node)).map (fun found => found.2.isFile) =
        (t.node? location).map Node.isFile := by
    intro t location
    rw [Option.map_map]
    rfl
  rw [kind?, kind?, probe, probe, h.locate_eq]
  split
  · rfl
  · rcases tree.locate cwd path with e | location
    · cases e <;> rfl
    · simp only [Except.map, hat, h location]

theorem SameShape.isFile_eq
    {later : FileTree} (h : SameShape tree later) (cwd : Location) (path : Path) :
    later.isFile cwd path = tree.isFile cwd path := by
  rw [FileTree.isFile_eq, FileTree.isFile_eq, h.kind?_eq]

theorem SameShape.isDirectory_eq
    {later : FileTree} (h : SameShape tree later) (cwd : Location) (path : Path) :
    later.isDirectory cwd path = tree.isDirectory cwd path := by
  rw [FileTree.isDirectory_eq, FileTree.isDirectory_eq, h.kind?_eq]

theorem SameShape.isPresent_eq
    {later : FileTree} (h : SameShape tree later) (cwd : Location) (path : Path) :
    later.isPresent cwd path = tree.isPresent cwd path := by
  rw [FileTree.isPresent_eq, FileTree.isPresent_eq, h.kind?_eq]

/-- The location of the file that a path names. -/
def target? (tree : FileTree) (cwd : Location) (path : Path) : Option Location :=
  match tree.probe cwd path with
  | .ok (some (location, .file _)) => some location
  | _ => none

theorem target?_eq_some_iff :
    tree.target? cwd path = some location ↔
      ∃ bytes, tree.probe cwd path = .ok (some (location, .file bytes)) := by
  rw [target?]
  rcases tree.probe cwd path with cause | _ | ⟨found, ⟨bytes⟩ | _⟩ <;> simp

theorem isFile_eq_true_iff_target? :
    tree.isFile cwd path = .ok true ↔ ∃ location, tree.target? cwd path = some location := by
  rw [isFile_eq_true_iff]
  simp only [target?_eq_some_iff]

theorem SameShape.target?_eq
    {later : FileTree} (h : SameShape tree later) (cwd : Location) (path : Path) :
    later.target? cwd path = tree.target? cwd path := by
  ext location
  simp only [target?_eq_some_iff, probe_eq_some_iff, exists_and_left, h.locate_eq,
    h.exists_file_iff]

theorem bytes?_eq_some_iff
    {bytes : ByteArray} :
    tree.bytes? location = some bytes ↔ tree.node? location = some (.file bytes) := by
  rw [bytes?]
  rcases tree.node? location with _ | ⟨found⟩ | _ <;> simp

/-- A path names the file at its location, whatever bytes the file has. -/
theorem probe_of_target?
    (h : tree.target? cwd path = some location) :
    ∃ bytes, tree.bytes? location = some bytes ∧
      tree.probe cwd path = .ok (some (location, .file bytes)) := by
  obtain ⟨bytes, hprobe⟩ := target?_eq_some_iff.mp h
  exact ⟨bytes, bytes?_eq_some_iff.mpr (locate_of_probe hprobe).2, hprobe⟩

theorem eq_names_of_target?
    (hpath : path.IsResolved) (h : tree.target? cwd path = some location) :
    location = path.names := by
  have habsolute : path.isAbsolute = true := by simp [Path.isAbsolute, hpath.root_eq]
  obtain ⟨bytes, hprobe⟩ := target?_eq_some_iff.mp h
  exact eq_names_of_locate habsolute hpath.dots_not_mem (locate_of_probe hprobe).1

/-- The shape of a tree and the bytes of its files are all there is at a location. -/
theorem SameShape.node?_eq
    {later : FileTree} (h : SameShape tree later)
    (hbytes : later.bytes? location = tree.bytes? location) :
    later.node? location = tree.node? location := by
  have hshape := h location
  rw [bytes?, bytes?] at hbytes
  rcases hlater : later.node? location with _ | ⟨new⟩ | _ <;>
    rcases hnode : tree.node? location with _ | ⟨old⟩ | _ <;>
      simp_all [Node.isFile]

/-! ## Names that are not too long -/

theorem walk_ne_nameTooLong
    {start : Location} {names : List String}
    (h : ∀ name ∈ names, name.utf8ByteSize ≤ nameLimit) :
    tree.walk start names ≠ .error .nameTooLong := by
  induction names generalizing start with
  | nil => exact nofun
  | cons name rest ih =>
      obtain ⟨hname, hrest⟩ := List.forall_mem_cons.mp h
      have henter : tree.enter start name ≠ .error .nameTooLong := by
        unfold enter
        rw [if_neg (Nat.not_lt.mpr hname)]
        split
        · exact nofun
        · split
          · exact nofun
          · split <;> exact nofun
      rw [walk]
      cases hnext : tree.enter start name with
      | error e =>
          rw [hnext] at henter
          exact fun heq => henter (congrArg Except.error (Except.error.inj heq))
      | ok next => exact ih hrest

/-- A path within the limits names something or nothing, but is no error. -/
theorem exists_probe_of_withinLimits
    (h : path.WithinLimits) (tree : FileTree) (cwd : Location) :
    ∃ found, tree.probe cwd path = .ok found := by
  have hlocate : tree.locate cwd path ≠ .error .nameTooLong := by
    rw [locate, if_neg (Nat.not_lt.mpr h.text_le)]
    exact walk_ne_nameTooLong h.name_le
  rw [probe]
  split
  · exact ⟨none, rfl⟩
  · split
    · exact ⟨_, rfl⟩
    · next hlong => exact absurd hlong hlocate
    · exact ⟨none, rfl⟩

/-! ## Files below a directory -/

/-- A walk from the root along the names of the location ends at a file. -/
def HasFile (tree : FileTree) (location : Location) : Prop :=
  tree.Reaches location ∧ ∃ bytes, tree.node? location = some (.file bytes)

theorem isFileAt_iff :
    tree.isFileAt location = true ↔ tree.HasFile location := by
  constructor
  · exact reaches_of_isFileAt
  · rintro ⟨hreaches, bytes, hnode⟩
    rw [isFileAt, show tree.walk [] location = .ok location from hreaches, hnode]
    exact beq_self_eq_true location

theorem mem_entries_of_node?
    {node : Node} (hne : location ≠ []) (h : tree.node? location = some node) :
    (location, node) ∈ tree.entries := by
  rw [node?, if_neg hne] at h
  obtain ⟨before, after, hentries, -⟩ := List.lookup_eq_some_iff.mp h
  rw [hentries]
  exact List.mem_append_right _ List.mem_cons_self

theorem mem_filesBelow_iff
    {directory : Location} :
    location ∈ tree.filesBelow directory ↔ directory <+: location ∧ tree.HasFile location := by
  rw [filesBelow, List.mem_filter, Bool.and_eq_true, List.isPrefixOf_iff_prefix, isFileAt_iff]
  constructor
  · exact fun h => h.2
  · rintro ⟨hbelow, hfile⟩
    refine ⟨?_, hbelow, hfile⟩
    obtain ⟨bytes, hnode⟩ := hfile.2
    have hentry := mem_entries_of_node? (location_ne_nil_of_file hnode) hnode
    exact List.mem_map.mpr ⟨_, hentry, rfl⟩

theorem isReached_iff :
    tree.isReached location = true ↔ tree.Reaches location := by
  rw [isReached, Reaches]
  cases tree.walk [] location with
  | error e => simp
  | ok found => simp

theorem mem_nodesBelow_iff
    {directory : Location} :
    location ∈ tree.nodesBelow directory ↔
      ∃ names, names ≠ [] ∧ location = directory ++ names ∧ tree.Reaches location := by
  rw [nodesBelow, List.mem_filter, Bool.and_eq_true, Bool.and_eq_true, List.isPrefixOf_iff_prefix,
    isReached_iff, decide_eq_true_eq]
  constructor
  · rintro ⟨-, ⟨⟨names, rfl⟩, hne⟩, hreaches⟩
    exact ⟨names, fun hnil => hne (by rw [hnil, List.append_nil]), rfl, hreaches⟩
  · rintro ⟨names, hnames, rfl, hreaches⟩
    obtain ⟨node, hnode⟩ := Option.isSome_iff_exists.mp hreaches.isSome_node?
    have hentry := mem_entries_of_node? (List.append_ne_nil_of_right_ne_nil _ hnames) hnode
    exact ⟨List.mem_map.mpr ⟨_, hentry, rfl⟩,
      ⟨List.prefix_append _ _, by simpa using hnames⟩, hreaches⟩

/-! ## Searching a directory -/

/-- Whatever stands below the directory that a path names can be looked up from the path. -/
def Searchable (tree : FileTree) (cwd : Location) (path : Path) : Prop :=
  ∀ directory, tree.locate cwd path = .ok directory →
    ∀ names, names ≠ [] → tree.Reaches (directory ++ names) →
      (path.join { root := .none, names }).text.utf8ByteSize ≤ pathLimit

/-- Below a file there is nothing to look up. -/
theorem searchable_of_file
    {bytes : ByteArray} (h : tree.probe cwd path = .ok (some (location, .file bytes))) :
    tree.Searchable cwd path := by
  obtain ⟨hlocate, hnode⟩ := locate_of_probe h
  intro directory hdirectory names hnames hreaches
  obtain rfl : location = directory := Except.ok.inj (hlocate.symm.trans hdirectory)
  obtain ⟨name, rest, rfl⟩ := List.exists_cons_of_ne_nil hnames
  have habove := hreaches.hasDirectory
  rw [hasDirectory, hnode] at habove
  cases habove

/-- A path that gets too long ends a search, and nothing else does. -/
theorem search_eq_ok_iff
    {directory : Location} {found : List Location} (h : tree.locate cwd path = .ok directory) :
    tree.search path directory = .ok found ↔
      tree.Searchable cwd path ∧ found = tree.filesBelow directory := by
  rw [search]
  split
  · next long hlong =>
    -- The path that ends the search is that of something below the directory.
    obtain ⟨hmem, hlength⟩ := List.mem_filter.mp (List.minOn?_mem hlong)
    obtain ⟨location, hlocation, rfl⟩ := List.mem_map.mp hmem
    obtain ⟨names, hnames, rfl, hreaches⟩ := mem_nodesBelow_iff.mp hlocation
    rw [List.drop_left, isTooLong, decide_eq_true_eq] at hlength
    refine ⟨nofun, fun hsearch => ?_⟩
    exact absurd (hsearch.1 directory h names hnames hreaches) (Nat.not_le.mpr hlength)
  · next hnone =>
    have hsearch : tree.Searchable cwd path := by
      intro other hother names hnames hreaches
      obtain rfl : directory = other := Except.ok.inj (h.symm.trans hother)
      by_contra hlong
      have hmem : path.join { root := .none, names } ∈
          ((tree.nodesBelow directory).map fun location =>
            path.join { root := .none, names := location.drop directory.length }).filter
              isTooLong := by
        refine List.mem_filter.mpr ⟨List.mem_map.mpr ⟨directory ++ names, ?_, ?_⟩, ?_⟩
        · exact mem_nodesBelow_iff.mpr ⟨names, hnames, rfl, hreaches⟩
        · rw [List.drop_left]
        · rw [isTooLong, decide_eq_true_eq]
          exact Nat.not_le.mp hlong
      have hsome := List.isSome_minOn?_of_mem (f := fun long => long.names.length) hmem
      rw [hnone] at hsome
      cases hsome
    rw [Except.ok.injEq, eq_comm, and_iff_right hsearch]

theorem SameShape.searchable_iff
    {later : FileTree} (h : SameShape tree later) (cwd : Location) (path : Path) :
    later.Searchable cwd path ↔ tree.Searchable cwd path := by
  simp only [Searchable, h.locate_eq, h.reaches_iff]

theorem SameShape.hasFile_iff
    {later : FileTree} (h : SameShape tree later) (location : Location) :
    later.HasFile location ↔ tree.HasFile location := by
  rw [HasFile, HasFile, h.reaches_iff, h.exists_file_iff]

/-- A path that names a file leads to it from the root. -/
theorem hasFile_of_probe
    (hstart : tree.Reaches (start cwd path)) {bytes : ByteArray}
    (h : tree.probe cwd path = .ok (some (location, .file bytes))) :
    tree.HasFile location := by
  obtain ⟨-, hlocate, hnode⟩ := probe_eq_some_iff.mp h
  rw [locate] at hlocate
  split at hlocate
  · cases hlocate
  · exact ⟨hstart.walk hlocate, bytes, hnode⟩

end FileTree
end Reindent
