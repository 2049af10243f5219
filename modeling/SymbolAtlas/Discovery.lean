import SymbolAtlas.Disk
import SymbolAtlas.Glob
import SymbolAtlas.Settings

/-!
# Discovery

Finding the sources below a directory.  In every directory files come before sub-directories, both
in the order of their names.  Sub-directories with an excluded name are passed over, and so are
those whose path is too long to be looked up.  A source that is found twice counts where it is found
first.
-/

namespace SymbolAtlas

/-- Why discovery came to a stop. -/
inductive DiscoveryFault where
  /-- A source does not lie below the directory of the index. -/
  | outside (path directory : Path)
  /-- A given path cannot be looked up. -/
  | disk (fault : DiskFault) (path : Path)
  /-- A given path holds a character that no path can hold. -/
  | nulInPath
  deriving DecidableEq, Repr, Inhabited

/-- The wording of a fault. -/
def DiscoveryFault.message : DiscoveryFault → String
  | outside path directory =>
    Text.quoted path.render ++ " is not in the subpath of " ++ Text.quoted directory.render ++
      " OR one path is relative and the other is absolute."
  | disk fault path => fault.message path
  | nulInPath => Path.nulMessage

namespace Discovery

/-- Named things in the order of their names. -/
def sortByName {α : Type} (xs : List (String × α)) : List (String × α) :=
  xs.mergeSort fun a b => !(b.1 < a.1)

/-- The entries that are files, each as a path of one part. -/
def filesOf (entries : List (String × DiskNode)) : List (String × List (List String)) :=
  entries.filterMap fun
    | (name, .file ..) => some (name, [[name]])
    | (_, .directory _) => none

mutual

/-- The paths of the files below what is at a path, in order.  A directory whose path is too long
cannot be listed, and nothing is found below it. -/
def filesBelow (excluded : List String) (path : Path) : DiskNode → List (List String)
  | .file .. => []
  | .directory entries =>
    if Disk.isTooLong path then []
    else
      (sortByName (filesOf entries) ++ sortByName (branches excluded path entries)).flatMap (·.2)
termination_by structural node => node

/-- The sub-directories of a path that are not excluded, each with the paths of the files below
it. -/
def branches (excluded : List String) (path : Path) :
    List (String × DiskNode) → List (String × List (List String))
  | [] => []
  | (name, node) :: rest =>
    match node with
    | .file .. => branches excluded path rest
    | .directory _ =>
      if excluded.contains name then branches excluded path rest
      else
        (name, (filesBelow excluded (path.extend [name]) node).map (name :: ·)) ::
          branches excluded path rest
termination_by structural entries => entries

end

/-- The paths of the sources that a given path leads to: itself if it is a file, or the files
below it.  A path that leads nowhere has none. -/
def sourcesAt (disk : Disk) (excluded : List String) (start : Path) :
    Except DiscoveryFault (List Path) :=
  if start.hasNul then .error .nulInPath
  else
    match disk.lookup start with
    | .ok (.file ..) => .ok [start]
    | .ok node =>
      .ok ((filesBelow excluded start node).map start.extend)
    | .error .missing => .ok []
    | .error .notDirectory => .ok []
    | .error fault => .error (.disk fault start)

/-- Adds the names of paths whose last part matches, each name once. -/
def addNames (directory : Path) (patterns : List String) :
    List String → List Path → Except DiscoveryFault (List String)
  | found, [] => .ok found
  | found, path :: rest =>
    if matchesAny patterns path.fileName then
      match directory.below? path with
      | none => .error (.outside path directory)
      | some relative =>
        let name := relative.render
        addNames directory patterns (if found.contains name then found else found ++ [name]) rest
    else addNames directory patterns found rest

/-- Adds the names of the sources that several given paths lead to. -/
def addAll (disk : Disk) (directory : Path) (settings : IndexSettings) :
    List String → List Path → Except DiscoveryFault (List String)
  | found, [] => .ok found
  | found, start :: rest => do
    let sources ← sourcesAt disk settings.excludeDirs start
    let found ← addNames directory settings.extensions found sources
    addAll disk directory settings found rest

/-- The names of the sources that sub-paths of a directory lead to; with no sub-paths given, those
of the directory itself. -/
def names (disk : Disk) (directory : Path) (settings : IndexSettings)
    (subPaths : Option (List String)) : Except DiscoveryFault (List String) :=
  let starts := match subPaths with
    | none => [directory]
    | some texts => texts.map fun t => directory.join (Path.parse t)
  addAll disk directory settings [] starts

end Discovery

end SymbolAtlas
