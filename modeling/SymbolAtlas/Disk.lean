import SymbolAtlas.Number.Double
import SymbolAtlas.Ledger
import SymbolAtlas.Text.Path
import SymbolAtlas.Text.Quoted

/-!
# Disks

A disk is a tree of directories and files, and answers what is known of a path and what is read
there.  Looking something up goes down the tree part by part, so that a double dot leads to the
directory above and nothing lies below a file.  The answers are those of the tree unless they are
given otherwise: where a path is a link, or what lies there may not be read.
-/

namespace SymbolAtlas

/-- A file with its content and the time of its last change, or a directory with its entries. -/
inductive DiskNode where
  | file (content : List UInt8) (mtime : Double)
  | directory (entries : List (String × DiskNode))
  deriving Inhabited

/-- What a disk tells of a file without reading it. -/
structure FileStat where
  size : Int
  mtime : Double
  deriving DecidableEq, Repr, Inhabited

/-- Why something on a disk cannot be used. -/
inductive DiskFault where
  | missing
  | notDirectory
  | isDirectory
  | nameTooLong
  /-- A fault of another number. -/
  | other (number : Nat) (words : String)
  deriving DecidableEq, Repr, Inhabited

namespace DiskFault

/-- The number of a fault. -/
def number : DiskFault → Nat
  | missing => 2
  | notDirectory => 20
  | isDirectory => 21
  | nameTooLong => 36
  | other number _ => number

/-- The words for a fault. -/
def words : DiskFault → String
  | missing => "No such file or directory"
  | notDirectory => "Not a directory"
  | isDirectory => "Is a directory"
  | nameTooLong => "File name too long"
  | other _ words => words

/-- The wording of a fault at a path. -/
def message (f : DiskFault) (path : Path) : String :=
  "[Errno " ++ toString f.number ++ "] " ++ f.words ++ ": " ++ Text.quoted path.render

end DiskFault

namespace Disk

/-! ## Looking things up -/

/-- The most bytes that a part of a path may have. -/
def longestPart : Nat := 255

/-- The most bytes that a path may have. -/
def longestPath : Nat := 4095

/-- Whether a path, or a part of it, is too long to be looked up. -/
def isTooLong (path : Path) : Bool :=
  longestPath < path.render.utf8ByteSize ||
    path.parts.any fun part => longestPart < part.utf8ByteSize

/-- Goes down from a place, given the places above it, the nearest first. -/
def descend : DiskNode → List DiskNode → List String → Except DiskFault DiskNode
  | here, _, [] => .ok here
  | .file .., _, _ :: _ => .error .notDirectory
  | .directory entries, above, part :: rest =>
    if part = ".." then
      match above with
      | [] => descend (.directory entries) [] rest
      | up :: more => descend up more rest
    else if longestPart < part.utf8ByteSize then .error .nameTooLong
    else
      match Ledger.get? entries part with
      | some node => descend node (.directory entries :: above) rest
      | none => .error .missing

end Disk

namespace DiskNode

/-- What is at a path in a tree.  Paths without a root start in an empty directory of their own. -/
def lookup (root : DiskNode) (path : Path) : Except DiskFault DiskNode :=
  if Disk.longestPath < path.render.utf8ByteSize then .error .nameTooLong
  else Disk.descend (if path.isAbsolute then root else .directory []) [] path.parts

/-- The size that is told of a directory. -/
def directorySize : Int := 4096

/-- What is told of a path in a tree. -/
def stat (root : DiskNode) (path : Path) : Except DiskFault FileStat :=
  match root.lookup path with
  | .error fault => .error fault
  | .ok (.file content mtime) => .ok { size := content.length, mtime := mtime }
  | .ok (.directory _) => .ok { size := directorySize, mtime := Double.ofInt 0 }

/-- The content of the file at a path in a tree. -/
def read (root : DiskNode) (path : Path) : Except DiskFault (List UInt8) :=
  match root.lookup path with
  | .error fault => .error fault
  | .ok (.file content _) => .ok content
  | .ok (.directory _) => .error .isDirectory

end DiskNode

/-- A disk: its tree, what it tells of a path without reading, and what is read at a path. -/
structure Disk where
  root : DiskNode := .directory []
  stat : Path → Except DiskFault FileStat := root.stat
  read : Path → Except DiskFault (List UInt8) := root.read

instance : Inhabited Disk := ⟨{}⟩

namespace Disk

/-- What is at a path in the tree of a disk. -/
def lookup (d : Disk) (path : Path) : Except DiskFault DiskNode :=
  d.root.lookup path

/-! ## Changes -/

/-- The entries of a directory; a file has none. -/
def entriesOf : DiskNode → Ledger DiskNode
  | .file .. => []
  | .directory entries => entries

/-- Changes what is at a path below a place; directories on the way are made. -/
def alter (change : Option DiskNode → Option DiskNode) : List String → DiskNode → DiskNode
  | [], here => (change (some here)).getD here
  | [part], here =>
    let entries := entriesOf here
    match change (entries.get? part) with
    | some node => .directory (entries.set part node)
    | none => .directory (entries.erase part)
  | part :: rest, here =>
    let entries := entriesOf here
    .directory (entries.set part
      (alter change rest ((entries.get? part).getD (.directory []))))

/-- Changes what is at a path. -/
def update (d : Disk) (path : Path) (change : Option DiskNode → Option DiskNode) : Disk :=
  { root := alter change path.resolved.parts d.root }

/-- Writes a file. -/
def write (d : Disk) (path : Path) (content : List UInt8) (mtime : Double) : Disk :=
  d.update path fun _ => some (.file content mtime)

/-- Takes away what is at a path. -/
def delete (d : Disk) (path : Path) : Disk :=
  d.update path fun _ => none

/-- Makes a directory unless something is there. -/
def makeDirectory (d : Disk) (path : Path) : Disk :=
  d.update path fun node => some (node.getD (.directory []))

/-- Sets the time of a file's last change. -/
def touch (d : Disk) (path : Path) (mtime : Double) : Disk :=
  d.update path fun
    | some (.file content _) => some (.file content mtime)
    | node => node

end Disk

end SymbolAtlas
