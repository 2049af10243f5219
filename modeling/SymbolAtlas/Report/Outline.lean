import SymbolAtlas.Outline.Query
import SymbolAtlas.SourceFile

/-!
# Reports on outlines and files

Entities, files and links described by plain values, for whoever asks from outside.
-/

namespace SymbolAtlas

/-- Where a link leads: a file name, the mark of a vain look-up, or nothing yet. -/
def Link.report (l : Link) (nameOf : Nat → Option String) : Value :=
  match l with
  | .pending => .null
  | .unresolved => .str "UNRESOLVED"
  | .file n => Value.ofText? (nameOf n)

namespace Outline

/-- The number under which an entity is known, if its outline is linked. -/
def idValue (o : Outline) (i : Nat) : Value :=
  if o.linked then .int i else .null

/-- A reference to an entity: its file, its number, its kind and its name. -/
def reference (o : Outline) (i : Nat) : Value :=
  match o.get? i with
  | none => .null
  | some e =>
    let file := match o.fileOf i with
      | some f => Value.ofText? ((o.get? f).bind Entity.name)
      | none => .null
    .list [file, o.idValue i, .str e.kind.tag, Value.ofText? e.name]

/-- A reference to an entity that may be missing. -/
def reference? (o : Outline) : Option Nat → Value
  | some i => o.reference i
  | none => .null

/-- References to several entities. -/
def references (o : Outline) (ids : List Nat) : Value :=
  .list (ids.map o.reference)

/-- All seven member lists of an entity by number. -/
def memberValues (e : Entity) : Value :=
  .object (MemberList.all.map fun l => (l.name, Value.ofNats (e.members l)))

/-- What is particular to an entity's kind. -/
def particulars (e : Entity) (nameOf : Nat → Option String) : Ledger Value :=
  match e.detail with
  | .scope kind body =>
    let lists := ("lists", memberValues e)
    match kind with
    | .namespaceScope =>
      [lists, ("is_global", .bool (e.name == some Qualified.globalName)),
        ("constants", Value.ofNats body.members.defines)]
    | .functionScope isMethod => [lists, ("is_method", .bool isMethod)]
    | _ => [lists]
  | .variable => []
  | .external i =>
    [("target", i.target), ("once", .bool i.once), ("require", .bool i.require),
      ("literal", .bool i.path?.isSome), ("resolved", i.link.report nameOf)]

/-- The span of an entity as a value. -/
def spanValue (e : Entity) : Value :=
  match e.span with
  | some s => s.toValue
  | none => .null

/-- Everything about an entity. -/
def describe (o : Outline) (nameOf : Nat → Option String) (i : Nat) : Value :=
  match o.get? i with
  | none => .null
  | some e =>
    let enclosing := match o.namespaceOf i with
      | some n => Value.list [.int n, Value.ofText? ((o.get? n).bind Entity.name)]
      | none => .null
    .object
      ([("ref", o.reference i), ("range", spanValue e), ("doc", Value.ofText? e.doc),
        ("parent", o.reference? (o.parent? i)), ("ancestors", Value.ofNats (o.ancestors i)),
        ("namespace", enclosing), ("repr", .str (o.label i))] ++ particulars e nameOf)

/-- A scope with everything that its member lists show, lists without members left out. -/
def memberTree (o : Outline) (i : Nat) : Value :=
  match o.get? i with
  | none => .null
  | some e =>
    let common : Ledger Value :=
      [("kind", .str e.kind.tag), ("name", Value.ofText? e.name), ("doc", Value.ofText? e.doc),
        ("range", spanValue e), ("id", o.idValue i)]
    if e.isScope then
      let lists := (MemberList.all.filter fun l => !(e.members l).isEmpty).map fun l =>
        (l.name, Value.list ((e.members l).map fun c =>
          if _h : i < c ∧ c < o.size then o.memberTree c else .null))
      .object (common ++ [("lists", .object lists)])
    else .object common
termination_by o.size - i
decreasing_by omega

end Outline

namespace SourceFile

/-- The number of a file's default namespace, its lists and its state. -/
def summary (f : SourceFile) : Value :=
  .object
    [("name", .str f.name), ("symbols", .int f.symbolCount), ("detached", .bool f.detached),
     ("default_namespace", Value.ofNat? f.outline.home),
     ("namespaces", Value.ofNats f.outline.namespaces),
     ("externals", Value.ofNats f.outline.externals),
     ("frozen", .bool f.isClosed)]

/-- The queue of include directives with their candidates. -/
def queueReport (f : SourceFile) : Value :=
  .list (f.queue.map fun q => .list [.int q.entity, .list q.candidates])

/-- The links of a file's include directives. -/
def linkReport (f : SourceFile) (nameOf : Nat → Option String) : Value :=
  .list (f.outline.externals.filterMap fun id =>
    ((f.outline.get? id).bind Entity.inclusion?).map fun i =>
      .list [.int id, i.link.report nameOf])

end SourceFile

end SymbolAtlas
