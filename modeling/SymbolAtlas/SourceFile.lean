import SymbolAtlas.Node.Classify
import SymbolAtlas.Outline.Population
import SymbolAtlas.Text.Path

/-!
# Files

A file is an outline with what is known of its content, and a queue of include directives to look
up.  Each directive comes with the names it may lead to, in order of preference; relinking goes
through the whole queue again, so that links to files that came, went or changed are corrected.
-/

namespace SymbolAtlas

/-- An include directive to look up: its number and the names it may lead to. -/
structure Lookup where
  entity : Nat
  /-- Names in order of preference.  A snapshot may have brought a value that is no name. -/
  candidates : List Value
  deriving Inhabited

/-- The indexed content of one source file. -/
structure SourceFile where
  outline : Outline
  contentHash : Option String := none
  mtime : Option Double := none
  size : Option Int := none
  queue : List Lookup := []
  /-- A file that was taken out of its index is an empty shell. -/
  detached : Bool := false
  deriving Inhabited

namespace SourceFile

/-- The name of the file. -/
def name (f : SourceFile) : String := f.outline.fileName

/-- The same file under another name; the queue keeps the names found under the old one. -/
def rename (f : SourceFile) (name : String) : SourceFile :=
  { f with outline := f.outline.modify 0 fun e => { e with name := some name } }

/-- The number of declared entities, the file itself not counted.  An empty shell has lost the
file too. -/
def symbolCount (f : SourceFile) : Nat :=
  if f.detached then f.outline.size - 2 else f.outline.size - 1

/-- Whether the file's member lists are closed. -/
def isClosed (f : SourceFile) : Bool := f.outline.isClosed 0

/-! ## Include directives -/

/-- Adds a name unless it is there. -/
def addName (names : List String) (name : String) : List String :=
  if names.contains name then names else names ++ [name]

/-- The names that a literal path may stand for: seen from the directory of the file, then as it
is. -/
def pathNames (fileName path : String) : List String :=
  let target := Path.slashed path
  let base := Path.directoryOf (Path.slashed fileName)
  addName [Path.normalText (Path.joinTexts base target)] (Path.normalText target)

/-- The names that a directive may lead to.  A name that it led to before comes first. -/
def candidates (fileName : String) (inclusion : Inclusion) (before : Value) : List Value :=
  let paths := match inclusion.path? with
    | some path => pathNames fileName path
    | none => []
  let fresh := match before with
    | .str s => paths.filter (· ≠ s)
    | _ => paths
  (if before.truthy then [before] else []) ++ fresh.map Value.str

/-- Sets the link of an include directive. -/
def setLink (f : SourceFile) (id : Nat) (link : Link) : SourceFile :=
  { f with outline := f.outline.modify id (Entity.mapInclusion fun i => { i with link := link }) }

/-- Queues a directive, or marks it unresolved if there is nothing it may lead to. -/
def enqueue (f : SourceFile) (id : Nat) (before : Value) : SourceFile :=
  match (f.outline.get? id).bind Entity.inclusion? with
  | none => f
  | some inclusion =>
    match candidates f.name inclusion before with
    | [] => f.setLink id .unresolved
    | names => { f with queue := f.queue ++ [{ entity := id, candidates := names }] }

/-! ## Reading a tree -/

/-- The part of a tree that holds the statements of a file. -/
def statements (tree : Value) : Value :=
  match tree with
  | .object fields => (Ledger.get? fields "children").getD tree
  | _ => tree

/-- The span of a whole file. -/
def spanOf (tree : Value) : Option Span :=
  if tree.isObject then Span.ofNode? tree else none

/-- A file that declares nothing yet and is open for declarations. -/
def blank (name : String) (span : Option Span) (withHome : Bool) : SourceFile :=
  let o := Outline.empty name span
  { outline := if withHome then o.withHome else o }

/-- Walks a tree into a scope of the file, with the nodes that were refused. -/
def absorb (f : SourceFile) (scope : Nat) (tree : Value) : SourceFile × List Refusal :=
  let w := f.outline.populate scope (Node.ofValue tree)
  ({ f with outline := w.outline }, w.refusals)

/-- Closes every scope of the file. -/
def close (f : SourceFile) : SourceFile :=
  { f with outline := f.outline.close }

/-- The file that a tree describes, with the nodes that were refused. -/
def ofTree (name : String) (tree : Value) (contentHash : Option String) (mtime : Option Double)
    (size : Option Int) : SourceFile × List Refusal :=
  let f := { blank name (spanOf tree) true with contentHash, mtime, size }
  let (f, refusals) := f.absorb 0 (statements tree)
  ((f.outline.externals.foldl (fun f id => f.enqueue id .null) f).close, refusals)

/-! ## Relinking -/

/-- Why a candidate could not be looked up. -/
inductive BadName where
  /-- The value cannot name a file; the word is its type. -/
  | notAName (word : String)
  /-- The value cannot be a key; the word is its type. -/
  | notAKey (word : String)
  deriving DecidableEq, Repr, Inhabited

/-- The wording of a failed look-up. -/
def BadName.message : BadName → String
  | .notAName word => "expected str, bytes or os.PathLike object, not " ++ word
  | .notAKey word => "unhashable type: '" ++ word ++ "'"

/-- The first candidate that leads to a file. -/
def firstHit (resolve : Value → Except BadName (Option Nat)) :
    List Value → Except BadName (Option Nat)
  | [] => .ok none
  | c :: rest =>
    match resolve c with
    | .error e => .error e
    | .ok (some n) => .ok (some n)
    | .ok none => firstHit resolve rest

/-- Looks up queued directives one after the other.  The count tells how many lead nowhere; after
a failure the rest of the queue is left as it was. -/
def relinkAll (resolve : Value → Except BadName (Option Nat)) :
    SourceFile → List Lookup → Nat → SourceFile × Except BadName Nat
  | f, [], missed => (f, .ok missed)
  | f, q :: rest, missed =>
    match firstHit resolve q.candidates with
    | .error e => (f, .error e)
    | .ok (some n) => relinkAll resolve (f.setLink q.entity (.file n)) rest missed
    | .ok none => relinkAll resolve (f.setLink q.entity .unresolved) rest (missed + 1)

/-- Looks up every queued directive again. -/
def relink (f : SourceFile) (resolve : Value → Except BadName (Option Nat)) :
    SourceFile × Except BadName Nat :=
  relinkAll resolve f f.queue 0

/-! ## The end of a file -/

/-- The file taken out of its index: an empty shell with its name and what was known of its
content. -/
def detach (f : SourceFile) : SourceFile :=
  { f with
    outline := { entities := (f.outline.scattered.entities.extract 0 1) }
    queue := []
    detached := true }

end SourceFile

end SymbolAtlas
