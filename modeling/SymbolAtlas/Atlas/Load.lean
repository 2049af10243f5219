import SymbolAtlas.Atlas
import SymbolAtlas.Digest.Sha256
import SymbolAtlas.Disk
import SymbolAtlas.Encoding

/-!
# Loads

A file is asked for by parsing it or by refreshing it.  Refreshing keeps an indexed file that has
not changed; all else leads to a load, and whoever asks for a name whose load is under way waits
for that load.  A refresh that has to look at the disk first may be overtaken while it waits.

A load goes through four steps that may lie apart: it is started, it opens its source, the parser
reads the source, and it settles.  `Atlas.parse` and `Atlas.refresh` take all of them at once.
-/

namespace SymbolAtlas

/-- Reads the text of a named source as a tagged tree, or says why it cannot. -/
abbrev Parser := String → String → Except String Value

/-- What an index works with: the disk, the codecs and the parser. -/
structure World where
  disk : Disk
  codecs : Codecs
  parser : Parser
  deriving Inhabited

/-- A name that is asked for, possibly with an encoding and what is known of its file. -/
structure Request where
  name : String
  encoding : Option String := none
  stat : Option FileStat := none
  deriving Inhabited

/-- What a load has to do: a request, the content if it was read already, and the file that the
result is to replace. -/
structure LoadPlan where
  request : Request
  content : Option (List UInt8) := none
  previous : Option Nat := none
  deriving Inhabited

/-- A load that was started. -/
structure Load where
  number : Nat
  plan : LoadPlan
  deriving Inhabited

/-- The name that a load is for. -/
def Load.name (l : Load) : String := l.plan.request.name

/-- What becomes of a request. -/
inductive Decision where
  /-- The load with a number is under way and will answer. -/
  | join (load : Nat)
  /-- The indexed file has not changed. -/
  | keep (file : Nat)
  | load (plan : LoadPlan)
  | crash (crash : Crash)
  deriving Inhabited

/-- What came of a request. -/
inductive Outcome where
  | file (n : Nat)
  | failed (failure : Failure)
  | crashed (crash : Crash)
  /-- A load is under way. -/
  | waiting (load : Nat)
  deriving Inhabited

/-- A source that was opened: its text, its bytes and the time of its last change. -/
structure OpenedSource where
  text : String
  content : List UInt8
  mtime : Double
  deriving Inhabited

/-- Why a source could not be opened. -/
inductive OpenFault where
  | failed (failure : Failure)
  | crashed (crash : Crash)
  deriving Inhabited

namespace Atlas

/-! ## Deciding -/

/-- The path of a name. -/
def pathOf (a : Atlas) (name : String) : Path :=
  a.registry.directory.join (Path.parse name)

/-- What parsing a name amounts to. -/
def decideParse (a : Atlas) (request : Request) : Decision :=
  match a.registry.entries.get? request.name with
  | some (.loading load) => .join load
  | some (.loaded n) => .load { request := request, previous := some n }
  | none => .load { request := request }

/-- Whether a file has the size and the time of change that a disk tells. -/
def agrees (f : SourceFile) (stat : FileStat) : Bool :=
  (f.mtime.any fun m => m.same stat.mtime) && f.size == some stat.size

/-- What refreshing an indexed file amounts to if its content decides. -/
def decideByContent (a : Atlas) (disk : Disk) (request : Request) (n : Nat) : Decision :=
  let path := a.pathOf request.name
  if path.hasNul then .crash .nulInPath
  else
    match disk.read path with
    | .error _ => .load { request := request, previous := some n }
    | .ok content =>
      if (a.file? n).bind SourceFile.contentHash = some (Sha256.hex content) then .keep n
      else .load { request := request, previous := some n, content := some content }

/-- What refreshing an indexed file amounts to if size and time of change decide. -/
def decideByStat (a : Atlas) (disk : Disk) (request : Request) (n : Nat) : Decision :=
  let judge (stat : FileStat) : Decision :=
    if (a.file? n).any (agrees · stat) then .keep n
    else .load { request := { request with stat := some stat }, previous := some n }
  match request.stat with
  | some stat => judge stat
  | none =>
    let path := a.pathOf request.name
    if path.hasNul then .crash .nulInPath
    else
      match disk.stat path with
      | .error _ => .load { request := request, previous := some n }
      | .ok stat => judge stat

/-- What refreshing a name amounts to. -/
def decideRefresh (a : Atlas) (disk : Disk) (request : Request) : Decision :=
  match a.registry.entries.get? request.name with
  | some (.loaded n) =>
    if a.settings.index.cacheByFileHash then a.decideByContent disk request n
    else a.decideByStat disk request n
  | _ => a.decideParse request

/-! ## Looking at the disk

A refresh that finds its name indexed may have to wait for the disk before it can decide.  Whatever
happens to the index meanwhile, it goes on with the file that it found. -/

/-- The file that a refresh has found, to be compared with the disk. -/
structure Inspection where
  request : Request
  file : Nat
  deriving Inhabited

/-- What a refresh has to look at before it can decide.  Size and time of change may have come with
the request. -/
def inspection? (a : Atlas) (request : Request) : Option Inspection :=
  match a.registry.entries.get? request.name with
  | some (.loaded n) =>
    if a.settings.index.cacheByFileHash || request.stat.isNone then some ⟨request, n⟩ else none
  | _ => none

/-- What an inspection amounts to once the disk has answered. -/
def decideInspected (a : Atlas) (disk : Disk) (i : Inspection) : Decision :=
  if a.settings.index.cacheByFileHash then a.decideByContent disk i.request i.file
  else a.decideByStat disk i.request i.file

/-- A refresh that is not interrupted decides what its inspection amounts to. -/
theorem decideRefresh_of_inspection? {a : Atlas} {request : Request} {i : Inspection}
    (h : a.inspection? request = some i) (disk : Disk) :
    a.decideRefresh disk request = a.decideInspected disk i := by
  unfold inspection? at h
  split at h
  · rename_i n hn
    split at h
    · cases h
      simp only [decideRefresh, decideInspected, hn]
    · cases h
  · cases h

/-- Whoever inspects a file has found it indexed under the name that was asked for. -/
theorem inspected_of_inspection? {a : Atlas} {request : Request} {i : Inspection}
    (h : a.inspection? request = some i) :
    i.request = request ∧ a.registry.entries.get? i.request.name = some (.loaded i.file) := by
  unfold inspection? at h
  split at h
  · rename_i n hn
    split at h
    · cases h
      exact ⟨rfl, hn⟩
    · cases h
  · cases h

/-! ## The steps of a load -/

/-- Starts a load. -/
def start (a : Atlas) (plan : LoadPlan) : Atlas × Load :=
  let (r, number) := a.registry.start plan.request.name plan.previous
  ({ a with registry := r }, { number := number, plan := plan })

/-- The number of bytes in a unit of the size limit. -/
def bytesPerMegabyte : Int := 1024 * 1024

/-- What is known of the file of a request. -/
def statOf (a : Atlas) (disk : Disk) (request : Request) : Except OpenFault FileStat :=
  match request.stat with
  | some stat => .ok stat
  | none =>
    let path := a.pathOf request.name
    if path.hasNul then .error (.crashed .nulInPath)
    else
      match disk.stat path with
      | .ok stat => .ok stat
      | .error fault => .error (.failed (.readFailed request.name (fault.message path)))

/-- The content that a load works on. -/
def contentOf (a : Atlas) (disk : Disk) (plan : LoadPlan) : Except OpenFault (List UInt8) :=
  match plan.content with
  | some content => .ok content
  | none =>
    let path := a.pathOf plan.request.name
    if path.hasNul then .error (.crashed .nulInPath)
    else
      match disk.read path with
      | .ok content => .ok content
      | .error fault => .error (.failed (.readFailed plan.request.name (fault.message path)))

/-- The encoding of a request; an empty name stands for the one of the settings. -/
def encodingOf (a : Atlas) (request : Request) : String :=
  match request.encoding with
  | some "" => a.settings.index.encoding
  | some name => name
  | none => a.settings.index.encoding

/-- The text of a content.  A load is prepared for bytes that denote no text and for encodings that
are not known, and for nothing else that reading them may raise. -/
def textOf (a : Atlas) (codecs : Codecs) (request : Request) (content : List UInt8) :
    Except OpenFault String :=
  match codecs.decode (a.encodingOf request) content with
  | .ok text => .ok text
  | .error (.refused message) => .error (.failed (.readFailed request.name message))
  | .error (.raised raised) => .error (.crashed (.decoding raised))

/-- What becomes of a source that is larger than the limit: it is refused, unless one of the two
numbers is too long to be written out. -/
def oversized (name : String) (size limit : Int) : OpenFault :=
  if (Value.int size).isWritable && (Value.int limit).isWritable then
    .failed (.tooLarge name size limit)
  else .crashed (.wording .tooManyDigits)

/-- Opens the source of a load: looks at its size, reads it and decodes it. -/
def source (a : Atlas) (w : World) (plan : LoadPlan) : Except OpenFault OpenedSource := do
  let stat ← a.statOf w.disk plan.request
  let limit := a.settings.index.maxFileSizeMb * bytesPerMegabyte
  if limit < stat.size then
    throw (oversized plan.request.name stat.size limit)
  let content ← a.contentOf w.disk plan
  let text ← a.textOf w.codecs plan.request content
  return { text := text, content := content, mtime := stat.mtime }

/-- A load begins and opens its source; an opened source is handed to the parser. -/
def openSource (a : Atlas) (w : World) (load : Load) : Atlas × Except OpenFault OpenedSource :=
  let a := (a.onRegistry Registry.begin).tell { kind := .read, name := load.name }
  match a.source w load.plan with
  | .ok opened => ({ a with parses := a.parses ++ [load.name] }, .ok opened)
  | .error fault => (a, .error fault)

/-- A load ends with a failure. -/
def fail (a : Atlas) (load : Load) (failure : Failure) : Atlas × Outcome :=
  (((a.onRegistry (·.fail load.name load.number failure)).note
      (.parseFailed load.name failure)).tell
    { kind := .error, name := load.name, failure := some failure }, .failed failure)

/-- A load ends without a result. -/
def abandon (a : Atlas) (load : Load) (crash : Crash) : Atlas × Outcome :=
  (a.onRegistry (·.abandon load.number crash), .crashed crash)

/-- A load ends with a file.  If it was not superseded, the file is linked and announced. -/
def succeed (a : Atlas) (load : Load) (f : SourceFile) : Atlas × Outcome :=
  let kept := a.registry.awaits load.name load.number
  let (r, n) := a.registry.succeed load.name load.number f
  let a := { a with registry := r }
  if kept then
    let a := (a.relink n).1
    ((a.note (.fileParsed load.name f.symbolCount)).tell
      { kind := .parse, name := load.name, file := some n }, .file n)
  else (a, .file n)

/-- The parser reads an opened source and the load settles. -/
def settle (a : Atlas) (parser : Parser) (load : Load) (opened : OpenedSource) :
    Atlas × Outcome :=
  match parser opened.text load.name with
  | .error reason => a.fail load (.parseFailed load.name reason)
  | .ok tree =>
    let (f, refusals) := SourceFile.ofTree load.name tree (some (Sha256.hex opened.content))
      (some opened.mtime) (some opened.content.length)
    (a.noteAll (refusals.map Note.nodeSkipped)).succeed load f

/-- A load that could not open its source settles. -/
def settleUnopened (a : Atlas) (load : Load) : OpenFault → Atlas × Outcome
  | .failed failure => a.fail load failure
  | .crashed crash => a.abandon load crash

/-- A started load goes through all its steps. -/
def run (a : Atlas) (w : World) (load : Load) : Atlas × Outcome :=
  match a.openSource w load with
  | (a, .ok opened) => a.settle w.parser load opened
  | (a, .error fault) => a.settleUnopened load fault

/-! ## Requests -/

/-- An indexed file is kept as it is. -/
def keep (a : Atlas) (name : String) (n : Nat) : Atlas × Outcome :=
  ((a.note (.cacheHit name)).tell { kind := .cache, name := name, file := some n }, .file n)

/-- What a load that is under way answers so far. -/
def joinOutcome (a : Atlas) (load : Nat) : Outcome :=
  match a.registry.crash? load with
  | some crash => .crashed crash
  | none => .waiting load

/-- Carries out a decision. -/
def carryOut (a : Atlas) (w : World) (name : String) : Decision → Atlas × Outcome
  | .join load => (a, a.joinOutcome load)
  | .keep n => a.keep name n
  | .crash crash => (a, .crashed crash)
  | .load plan =>
    let (a, load) := a.start plan
    a.run w load

/-- Reads a file, also if it is indexed. -/
def parse (a : Atlas) (w : World) (request : Request) : Atlas × Outcome :=
  a.carryOut w request.name (a.decideParse request)

/-- Reads a file unless it is indexed and has not changed. -/
def refresh (a : Atlas) (w : World) (request : Request) : Atlas × Outcome :=
  a.carryOut w request.name (a.decideRefresh w.disk request)

end Atlas

end SymbolAtlas
