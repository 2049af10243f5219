import Mathlib
import SymbolAtlas.Discovery
import SymbolAtlas.Proofs.Ledger

/-!
# Disks that grow

A disk grows if files stay files, with whatever content, and directories stay directories that hold
at least what they held.  What was found at a path is found there again (`Disk.lookup_of_grows`),
and discovery that goes through a whole directory finds every name that it found before
(`Discovery.names_of_grows`).
-/

namespace SymbolAtlas

mutual

/-- What is there stays there, as what it is. -/
def DiskNode.Grows : DiskNode → DiskNode → Prop
  | .file .., .file .. => True
  | .directory entries, .directory entries' => EntriesGrow entries entries'
  | _, _ => False
termination_by structural node => node

/-- What is entered stays entered. -/
def EntriesGrow : List (String × DiskNode) → List (String × DiskNode) → Prop
  | [], _ => True
  | (name, node) :: rest, entries' =>
    (∃ node', Ledger.get? entries' name = some node' ∧ node.Grows node') ∧
      EntriesGrow rest entries'
termination_by structural entries => entries

end

theorem entriesGrow_iff {entries entries' : List (String × DiskNode)} :
    EntriesGrow entries entries' ↔ ∀ name node, (name, node) ∈ entries →
      ∃ node', Ledger.get? entries' name = some node' ∧ node.Grows node' := by
  induction entries with
  | nil => simp [EntriesGrow]
  | cons entry rest ih =>
    obtain ⟨name, node⟩ := entry
    rw [EntriesGrow, ih]
    constructor
    · rintro ⟨hfirst, hrest⟩ other node' hmem
      rcases List.mem_cons.1 hmem with heq | hmem
      · cases heq
        exact hfirst
      · exact hrest other node' hmem
    · intro h
      exact ⟨h name node List.mem_cons_self, fun other node' hmem =>
        h other node' (List.mem_cons_of_mem _ hmem)⟩

namespace DiskNode.Grows

theorem file {content : List UInt8} {mtime : Double} {node : DiskNode}
    (h : (DiskNode.file content mtime).Grows node) :
    ∃ content' mtime', node = .file content' mtime' := by
  cases node with
  | file content' mtime' => exact ⟨content', mtime', rfl⟩
  | directory entries => exact absurd h (by simp [DiskNode.Grows])

theorem directory {entries : List (String × DiskNode)} {node : DiskNode}
    (h : (DiskNode.directory entries).Grows node) : ∃ entries', node = .directory entries' ∧
      ∀ name child, (name, child) ∈ entries →
        ∃ child', Ledger.get? entries' name = some child' ∧ child.Grows child' := by
  cases node with
  | file content mtime => exact absurd h (by simp [DiskNode.Grows])
  | directory entries' =>
    rw [DiskNode.Grows, entriesGrow_iff] at h
    exact ⟨entries', rfl, h⟩

end DiskNode.Grows

namespace Disk

/-- Files stay files and directories stay directories. -/
def Grows (d d' : Disk) : Prop := d.root.Grows d'.root

theorem descend_of_grows {here here' : DiskNode} {above above' : List DiskNode}
    (hhere : here.Grows here') (habove : List.Forall₂ DiskNode.Grows above above')
    {parts : List String} {node : DiskNode} (h : descend here above parts = .ok node) :
    ∃ node', descend here' above' parts = .ok node' ∧ node.Grows node' := by
  induction parts generalizing here here' above above' with
  | nil =>
    rw [descend] at h
    cases h
    exact ⟨here', by rw [descend], hhere⟩
  | cons part rest ih =>
    cases here with
    | file content mtime =>
      rw [descend] at h
      cases h
    | directory entries =>
      obtain ⟨entries', rfl, hentries⟩ := hhere.directory
      simp only [descend] at h ⊢
      split at h
      · rename_i hup
        rw [if_pos hup]
        cases habove with
        | nil => exact ih hhere .nil h
        | cons hnext hmore => exact ih hnext hmore h
      · rename_i hdown
        rw [if_neg hdown]
        split at h
        · cases h
        · rename_i hshort
          rw [if_neg hshort]
          split at h
          · rename_i child hchild
            obtain ⟨child', hchild', hgrows⟩ := hentries part child (Ledger.mem_of_get? hchild)
            rw [hchild']
            exact ih hgrows (.cons hhere habove) h
          · cases h

theorem lookup_of_grows {d d' : Disk} (hd : d.Grows d') {path : Path} {node : DiskNode}
    (h : d.lookup path = .ok node) : ∃ node', d'.lookup path = .ok node' ∧ node.Grows node' := by
  unfold lookup DiskNode.lookup at h ⊢
  split at h
  · cases h
  · rename_i hshort
    rw [if_neg hshort]
    refine descend_of_grows ?_ .nil h
    split
    · exact hd
    · simp [DiskNode.Grows, EntriesGrow]

/-- A file stays a file. -/
theorem file_of_grows {d d' : Disk} (hd : d.Grows d') {path : Path} {content : List UInt8}
    {mtime : Double} (h : d.lookup path = .ok (.file content mtime)) :
    ∃ content' mtime', d'.lookup path = .ok (.file content' mtime') := by
  obtain ⟨node', hnode', hgrows⟩ := lookup_of_grows hd h
  obtain ⟨content', mtime', rfl⟩ := hgrows.file
  exact ⟨content', mtime', hnode'⟩

end Disk

namespace Discovery

/-! ## Paths that are found -/

section Below

variable {excluded : List String} {path : Path} {entries : List (String × DiskNode)}
  {parts : List String}

theorem mem_branches {name : String} {paths : List (List String)} :
    (name, paths) ∈ branches excluded path entries ↔ ∃ inner, (name, .directory inner) ∈ entries ∧
      excluded.contains name = false ∧
      paths = (filesBelow excluded (path.extend [name]) (.directory inner)).map (name :: ·) := by
  induction entries with
  | nil => simp [branches]
  | cons entry rest ih =>
    obtain ⟨other, node⟩ := entry
    rw [branches.eq_def]
    cases node with
    | file content mtime => simp [ih]
    | directory inner =>
      simp only
      split
      · rename_i hexcluded
        rw [ih]
        constructor
        · rintro ⟨inner', hmem, hrest⟩
          exact ⟨inner', List.mem_cons_of_mem _ hmem, hrest⟩
        · rintro ⟨inner', hmem, hincluded, hpaths⟩
          rcases List.mem_cons.1 hmem with heq | hmem
          · cases heq
            rw [hexcluded] at hincluded
            cases hincluded
          · exact ⟨inner', hmem, hincluded, hpaths⟩
      · rename_i hincluded
        rw [List.mem_cons, ih]
        constructor
        · rintro (heq | ⟨inner', hmem, hrest⟩)
          · cases heq
            exact ⟨inner, List.mem_cons_self, Bool.not_eq_true _ ▸ hincluded, rfl⟩
          · exact ⟨inner', List.mem_cons_of_mem _ hmem, hrest⟩
        · rintro ⟨inner', hmem, hnot, hpaths⟩
          rcases List.mem_cons.1 hmem with heq | hmem
          · cases heq
            exact .inl (by rw [hpaths])
          · exact .inr ⟨inner', hmem, hnot, hpaths⟩

/-- The files below a directory that can be listed are its own and those below its directories. -/
theorem mem_filesBelow :
    parts ∈ filesBelow excluded path (.directory entries) ↔ Disk.isTooLong path = false ∧
      ((∃ name content mtime, (name, .file content mtime) ∈ entries ∧ parts = [name]) ∨
      ∃ name inner rest, (name, .directory inner) ∈ entries ∧ excluded.contains name = false ∧
        rest ∈ filesBelow excluded (path.extend [name]) (.directory inner) ∧
        parts = name :: rest) := by
  rw [filesBelow]
  cases Disk.isTooLong path with
  | true => simp
  | false =>
    rw [if_neg Bool.false_ne_true, eq_self, true_and, List.mem_flatMap]
    simp only [List.mem_append, sortByName, List.mem_mergeSort]
    constructor
    · rintro ⟨⟨name, paths⟩, hmem | hmem, hparts⟩
      · left
        obtain ⟨⟨other, node⟩, hentry, heq⟩ := List.mem_filterMap.1 hmem
        cases node with
        | file content mtime =>
          cases heq
          exact ⟨name, content, mtime, hentry, List.mem_singleton.1 hparts⟩
        | directory inner => cases heq
      · right
        obtain ⟨inner, hentry, hincluded, rfl⟩ := mem_branches.1 hmem
        obtain ⟨rest, hrest, rfl⟩ := List.mem_map.1 hparts
        exact ⟨name, inner, rest, hentry, hincluded, hrest, rfl⟩
    · rintro (⟨name, content, mtime, hentry, rfl⟩ |
        ⟨name, inner, rest, hentry, hincluded, hrest, rfl⟩)
      · exact ⟨(name, [[name]]), .inl (List.mem_filterMap.2 ⟨_, hentry, rfl⟩),
          List.mem_singleton_self _⟩
      · exact ⟨_, .inr (mem_branches.2 ⟨inner, hentry, hincluded, rfl⟩),
          List.mem_map.2 ⟨rest, hrest, rfl⟩⟩

/-- What is found is found again. -/
theorem filesBelow_of_grows {node node' : DiskNode} (hgrows : node.Grows node')
    (h : parts ∈ filesBelow excluded path node) : parts ∈ filesBelow excluded path node' := by
  induction parts generalizing path node node' with
  | nil =>
    cases node with
    | file content mtime => cases h
    | directory entries =>
      obtain ⟨-, ⟨name, content, mtime, -, hparts⟩ | ⟨name, inner, rest, -, -, -, hparts⟩⟩ :=
        mem_filesBelow.1 h
      · cases hparts
      · cases hparts
  | cons part rest ih =>
    cases node with
    | file content mtime => cases h
    | directory entries =>
      obtain ⟨entries', rfl, hentries⟩ := hgrows.directory
      obtain ⟨hlisted, hbelow⟩ := mem_filesBelow.1 h
      refine mem_filesBelow.2 ⟨hlisted, ?_⟩
      rcases hbelow with ⟨name, content, mtime, hentry, hparts⟩ |
        ⟨name, inner, below, hentry, hincluded, hbelow, hparts⟩
      · obtain ⟨child', hchild', hchild⟩ := hentries name _ hentry
        obtain ⟨content', mtime', rfl⟩ := hchild.file
        exact .inl ⟨name, content', mtime', Ledger.mem_of_get? hchild', hparts⟩
      · cases hparts
        obtain ⟨child', hchild', hchild⟩ := hentries _ _ hentry
        have hagain := ih hchild hbelow
        obtain ⟨inner', rfl, -⟩ := hchild.directory
        exact .inr ⟨_, inner', _, Ledger.mem_of_get? hchild', hincluded, hagain, rfl⟩

end Below

/-! ## Names that are found -/

theorem below?_extend (directory : Path) (parts : List String) :
    directory.below? (directory.extend parts) = some { root := "", parts := parts } := by
  unfold Path.below? Path.extend
  rw [if_pos ⟨rfl, by simp⟩, List.drop_left]

section Names

variable {d d' : Disk} {excluded : List String} {directory : Path} {sources : List Path}

/-- The sources of a whole directory lie below it. -/
theorem below?_of_mem_sourcesAt (h : sourcesAt d excluded directory = .ok sources) {path : Path}
    (hp : path ∈ sources) : ∃ relative, directory.below? path = some relative := by
  unfold sourcesAt at h
  split at h
  · cases h
  · split at h
    · cases h
      rw [List.mem_singleton.1 hp]
      have hself := below?_extend directory []
      rw [Path.extend_nil] at hself
      exact ⟨_, hself⟩
    · cases h
      obtain ⟨parts, -, rfl⟩ := List.mem_map.1 hp
      exact ⟨_, below?_extend directory parts⟩
    · cases h
      cases hp
    · cases h
      cases hp
    · cases h

theorem sourcesAt_of_grows (hd : d.Grows d') (h : sourcesAt d excluded directory = .ok sources)
    {path : Path} (hp : path ∈ sources) :
    ∃ sources', sourcesAt d' excluded directory = .ok sources' ∧ ∀ p ∈ sources, p ∈ sources' := by
  unfold sourcesAt at h ⊢
  split at h
  · cases h
  · rename_i hnul
    rw [if_neg hnul]
    split at h
    · rename_i content mtime hlookup
      cases h
      obtain ⟨content', mtime', hlookup'⟩ := Disk.file_of_grows hd hlookup
      rw [hlookup']
      exact ⟨_, rfl, fun p hp => hp⟩
    · rename_i node hnot hlookup
      cases h
      obtain ⟨node', hlookup', hgrows⟩ := Disk.lookup_of_grows hd hlookup
      rw [hlookup']
      cases node with
      | file content mtime => exact absurd rfl (hnot content mtime)
      | directory entries =>
        obtain ⟨entries', rfl, -⟩ := hgrows.directory
        refine ⟨_, rfl, fun p hp => ?_⟩
        obtain ⟨parts, hparts, rfl⟩ := List.mem_map.1 hp
        exact List.mem_map.2 ⟨parts, filesBelow_of_grows hgrows hparts, rfl⟩
    · cases h
      cases hp
    · cases h
      cases hp
    · cases h

/-- The names of paths that lie below the directory and match. -/
theorem addNames_spec (patterns found : List String)
    (hbelow : ∀ p ∈ sources, ∃ relative, directory.below? p = some relative) :
    ∃ names, addNames directory patterns found sources = .ok names ∧
      ∀ k, k ∈ names ↔ k ∈ found ∨ ∃ p ∈ sources, matchesAny patterns p.fileName = true ∧
        ∃ relative, directory.below? p = some relative ∧ relative.render = k := by
  induction sources generalizing found with
  | nil => exact ⟨found, rfl, by simp⟩
  | cons path rest ih =>
    obtain ⟨⟨relative, hrelative⟩, hrest⟩ := List.forall_mem_cons.1 hbelow
    rw [addNames]
    split
    · rename_i hmatches
      rw [hrelative]
      obtain ⟨names, hnames, hmem⟩ := ih (if found.contains relative.render then found
        else found ++ [relative.render]) hrest
      refine ⟨names, hnames, fun k => ?_⟩
      have hadded : (k ∈ if found.contains relative.render then found
          else found ++ [relative.render]) ↔ k ∈ found ∨ relative.render = k := by
        split
        · rename_i hknown
          rw [List.contains_iff_mem] at hknown
          constructor
          · exact .inl
          · rintro (hk | rfl)
            · exact hk
            · exact hknown
        · rw [List.mem_append, List.mem_singleton, eq_comm]
      rw [hmem, hadded, or_assoc]
      refine or_congr_right ?_
      constructor
      · rintro (hk | ⟨p, hp, hfound⟩)
        · exact ⟨path, List.mem_cons_self, hmatches, relative, hrelative, hk⟩
        · exact ⟨p, List.mem_cons_of_mem _ hp, hfound⟩
      · rintro ⟨p, hp, hmatches', relative', hrelative', hk⟩
        rcases List.mem_cons.1 hp with rfl | hp
        · rw [hrelative] at hrelative'
          cases hrelative'
          exact .inl hk
        · exact .inr ⟨p, hp, hmatches', relative', hrelative', hk⟩
    · rename_i hmatches
      obtain ⟨names, hnames, hmem⟩ := ih found hrest
      refine ⟨names, hnames, fun k => ?_⟩
      rw [hmem]
      refine or_congr_right ?_
      constructor
      · rintro ⟨p, hp, hfound⟩
        exact ⟨p, List.mem_cons_of_mem _ hp, hfound⟩
      · rintro ⟨p, hp, hfound⟩
        rcases List.mem_cons.1 hp with rfl | hp
        · exact absurd hfound.1 hmatches
        · exact ⟨p, hp, hfound⟩

variable {settings : IndexSettings}

/-- The names of a whole directory are those of its sources. -/
theorem names_none (h : sourcesAt d settings.excludeDirs directory = .ok sources) :
    ∃ found, names d directory settings none = .ok found ∧
      ∀ k, k ∈ found ↔ ∃ p ∈ sources, matchesAny settings.extensions p.fileName = true ∧
        ∃ relative, directory.below? p = some relative ∧ relative.render = k := by
  obtain ⟨found, hfound, hmem⟩ := addNames_spec settings.extensions []
    fun p hp => below?_of_mem_sourcesAt h hp
  refine ⟨found, ?_, fun k => by rw [hmem]; simp⟩
  simp only [names, addAll, h, hfound, bind, Except.bind]

/-- Every name that was found is found again. -/
theorem names_of_grows (hd : d.Grows d') {found : List String} {k : String}
    (h : names d directory settings none = .ok found) (hk : k ∈ found) :
    ∃ found', names d' directory settings none = .ok found' ∧ ∀ j ∈ found, j ∈ found' := by
  cases hsources : sourcesAt d settings.excludeDirs directory with
  | error fault =>
    simp only [names, addAll, hsources, bind, Except.bind] at h
    cases h
  | ok sources =>
    obtain ⟨again, hagain, hmem⟩ := names_none hsources
    rw [h] at hagain
    cases hagain
    obtain ⟨p, hp, -⟩ := (hmem k).1 hk
    obtain ⟨sources', hsources', hsub⟩ := sourcesAt_of_grows hd hsources hp
    obtain ⟨found', hfound', hmem'⟩ := names_none hsources'
    refine ⟨found', hfound', fun j hj => ?_⟩
    obtain ⟨q, hq, hrest⟩ := (hmem j).1 hj
    exact (hmem' j).2 ⟨q, hsub q hq, hrest⟩

end Names

end Discovery

end SymbolAtlas
