import Mathlib
import SymbolAtlas.Proofs.ParseTree.Comments
import SymbolAtlas.Proofs.SourceFile.Views

/-!
# Comments in a source and its file

Plain comments that are put into a source, without harm to the nodes around them, make no difference
to its file but for spans (`SourceFile.sketches_of_commented`).  Two places can be harmed: an
expression statement whose only child a comment joins no longer passes documentation on, and an
include directive takes a comment before its target for the target (`SourceFile.comments_disturb`).
-/

namespace SymbolAtlas

/-- What is known of an entity apart from its place in the source and the place it leads to. -/
structure Sketch where
  kind : Kind
  name : Option String
  owner : Option Nat
  doc : Option String
  /-- The path that an include directive names literally. -/
  path : Option String
  deriving DecidableEq

/-- An entity without its place in the source. -/
def Entity.sketch (e : Entity) : Sketch where
  kind := e.kind
  name := e.name
  owner := e.parent
  doc := e.doc
  path := e.inclusion?.bind Inclusion.path?

namespace Entity

theorem sketch_bare (e : Entity) : e.bare.sketch = e.sketch := by
  obtain ⟨detail, name, parent, span, doc⟩ := e
  cases detail <;> rfl

end Entity

theorem Declaration.sketch_owned_gist (d : Declaration) : d.gist.owned.sketch = d.owned.sketch := by
  obtain ⟨site, ⟨detail, name, parent, span, doc⟩⟩ := d
  cases detail with
  | scope k b => rfl
  | «variable» => rfl
  | external i =>
    obtain ⟨target, once, require, link⟩ := i
    cases target <;> rfl

namespace Outline

/-- The entities of an outline without their places. -/
def sketches (o : Outline) : List Sketch :=
  o.entities.toList.map Entity.sketch

theorem sketches_eq_bares (o : Outline) : o.sketches = o.bares.map Entity.sketch := by
  rw [bares, List.map_map, sketches]
  exact List.map_congr_left fun e _ => e.sketch_bare.symm

/-- The list of include directives follows from the kinds of the entities. -/
theorem externals_congr {o o' : Outline} (h : MemberViews o) (h' : MemberViews o')
    (hsame : o'.sketches = o.sketches) : o'.externals = o.externals := by
  have hsize : o'.size = o.size := by
    have hlength := congrArg List.length hsame
    rwa [sketches, sketches, List.length_map, List.length_map] at hlength
  rw [h.externals, h'.externals, numbersOf, numbersOf, hsize]
  refine List.filter_congr fun i _ => ?_
  have hget : (o'.get? i).map Entity.sketch = (o.get? i).map Entity.sketch := by
    have hi := congrArg (·[i]?) hsame
    simpa [sketches, get?] using hi
  cases hi : o.get? i with
  | none =>
    rw [hi, Option.map_none, Option.map_eq_none_iff] at hget
    rw [hget]
  | some e =>
    rw [hi, Option.map_some] at hget
    obtain ⟨e', he', hsketch⟩ := Option.map_eq_some_iff.1 hget
    have hkind : e'.kind = e.kind := congrArg Sketch.kind hsketch
    rw [he', Option.any_some, Option.any_some, hkind]

end Outline

namespace SourceFile

open Outline ParseTree

/-- The first two entities of the file of a tree, the file itself and its home. -/
def startSketches (name : String) : List Sketch :=
  [{ kind := .file, name := some name, owner := none, doc := none, path := none },
   { kind := .namespaceDecl, name := some Qualified.globalName, owner := some 0, doc := none,
     path := none }]

theorem sketches_ofTree (name : String) (tree : Value) (contentHash : Option String)
    (mtime : Option Double) (size : Option Int) :
    (ofTree name tree contentHash mtime size).1.outline.sketches =
      startSketches name ++ (declarations tree).map fun d => d.owned.sketch := by
  have hblank : (blank name (spanOf tree) true).outline.bares.map Entity.sketch =
      startSketches name := by
    rw [startSketches, ← canonical_globalName]
    rfl
  rw [sketches_eq_bares, bares_ofTree, bares_entered, List.map_append, hblank, List.map_map]
  rfl

theorem sketches_declarations {tree tree' : Value}
    (h : Node.gistAll (Node.ofValue (statements tree)) =
      Node.gistAll (Node.ofValue (statements tree'))) :
    (declarations tree).map (fun d => d.owned.sketch) =
      (declarations tree').map fun d => d.owned.sketch := by
  have hgist : ∀ t : Value, (declarations t).map (fun d => d.owned.sketch) =
      (Node.declaresAll 0 false 2 none (Node.gistAll (Node.ofValue (statements t)))).1.map
        fun d => d.owned.sketch := by
    intro t
    rw [Node.declaresAll_gist, Node.gistOf, List.map_map]
    exact List.map_congr_left fun d _ => d.sketch_owned_gist.symm
  rw [hgist, hgist, h]

/-- Plain comments are transparent: put into a source without harm to the nodes around them, they
leave all entities as they are, in the same order, with the same kinds, names, owners, documentation
and literal targets, and the same list of include directives. -/
theorem sketches_of_commented {l : TreeLabel} {cs cs' : List ParseTree}
    (h : Woven (Commented Harmless) IsPlainComment cs cs') (name : String)
    (contentHash contentHash' : Option String) (mtime mtime' : Option Double)
    (size size' : Option Int) :
    (ofTree name (ParseTree.node l cs').program contentHash' mtime' size').1.outline.sketches =
        (ofTree name (ParseTree.node l cs).program contentHash mtime size).1.outline.sketches ∧
      (ofTree name (ParseTree.node l cs').program contentHash' mtime' size').1.outline.externals =
        (ofTree name (ParseTree.node l cs).program contentHash mtime size).1.outline.externals := by
  have hsketches :
      (ofTree name (ParseTree.node l cs').program contentHash' mtime' size').1.outline.sketches =
        (ofTree name (ParseTree.node l cs).program contentHash mtime size).1.outline.sketches := by
    rw [sketches_ofTree, sketches_ofTree, sketches_declarations (gistAll_program h)]
  exact ⟨hsketches,
    externals_congr (memberViews_ofTree ..) (memberViews_ofTree ..) hsketches⟩

/-! ## A source with comments -/

section Sample

/-- `/** d */` -/
def docComment : ParseTree :=
  .node { type := "comment", start := 6, stop := 14, text := "/** d */" } []

/-- `/* c */` -/
def plainComment : ParseTree :=
  .node { type := "comment", start := 15, stop := 22, text := "/* c */" } []

theorem isPlainComment_plainComment : plainComment.IsPlainComment :=
  ⟨rfl, rfl, by decide⟩

/-- `$x = 1;` with more nodes after the assignment. -/
def assigning (after : List ParseTree) : ParseTree :=
  .node { type := "expression_statement", start := 15, stop := 30 }
    (.node { type := "assignment_expression", start := 15, stop := 21 }
      [.node { type := "variable_name", start := 15, stop := 17, field := some "left",
               text := "$x" } [],
       .node { type := "integer", start := 20, stop := 21, field := some "right", text := "1" } []]
      :: after)

/-- `'a.php'` -/
def quotedPath : ParseTree :=
  .node { type := "string", start := 47, stop := 54, text := "'a.php'" }
    [.node { type := "string_content", start := 48, stop := 53, text := "a.php" } []]

/-- `include 'a.php'` with more nodes around the target. -/
def includeOf (before after : List ParseTree) : ParseTree :=
  .node { type := "include_expression", start := 31, stop := 54 } (before ++ quotedPath :: after)

/-- `include 'a.php';` with more nodes around the target. -/
def including (before after : List ParseTree) : ParseTree :=
  .node { type := "expression_statement", start := 31, stop := 55 } [includeOf before after]

/-- The whole source. -/
def sourceOf (cs : List ParseTree) : ParseTree :=
  .node { type := "program", start := 0, stop := 55 } cs

/-- Comments between statements and after a target make no difference. -/
theorem sketches_of_commented_sample :
    Woven (Commented Harmless) IsPlainComment [docComment, assigning [], including [] []]
        [docComment, plainComment, assigning [], including [] [plainComment]] ∧
      (ofTree "b.php" (sourceOf [docComment, plainComment, assigning [],
          including [] [plainComment]]).program none none none).1.outline.sketches =
        (ofTree "b.php" (sourceOf [docComment, assigning [], including [] []]).program none none
          none).1.outline.sketches := by
  have htarget : Commented Harmless (includeOf [] []) (includeOf [] [plainComment]) :=
    .node (.keep (.refl Harmless.refl _) (.insert isPlainComment_plainComment .nil)) (by decide)
  have hwoven : Woven (Commented Harmless) IsPlainComment
      [docComment, assigning [], including [] []]
      [docComment, plainComment, assigning [], including [] [plainComment]] :=
    .keep (.refl Harmless.refl _) (.insert isPlainComment_plainComment
      (.keep (.refl Harmless.refl _) (.keep (.node (.keep htarget .nil) (by decide)) .nil)))
  exact ⟨hwoven, (sketches_of_commented hwoven "b.php" none none none none none none).1⟩

theorem sketches_sample :
    (ofTree "b.php" (sourceOf [docComment, assigning [], including [] []]).program none none
        none).1.outline.sketches =
      startSketches "b.php" ++
        [{ kind := .variableDecl, name := some "x", owner := some 0, doc := some "/** d */",
           path := none },
         { kind := .external, name := none, owner := some 0, doc := none,
           path := some "a.php" }] := by
  rw [sketches_ofTree, ParseTree.program, ParseTree.statements_of_plain (by decide)]
  rfl

theorem sketches_disturbed :
    (ofTree "b.php" (sourceOf [docComment, assigning [plainComment],
        including [plainComment] []]).program none none none).1.outline.sketches =
      startSketches "b.php" ++
        [{ kind := .variableDecl, name := some "x", owner := some 0, doc := none, path := none },
         { kind := .external, name := none, owner := some 0, doc := none, path := none }] := by
  rw [sketches_ofTree, ParseTree.program, ParseTree.statements_of_plain (by decide)]
  rfl

/-- A comment after the expression of a statement keeps the documentation from what is declared in
it, and a comment before the target of an include directive hides the path. -/
theorem comments_disturb :
    Woven (Commented fun _ _ => True) IsPlainComment
        [docComment, assigning [], including [] []]
        [docComment, assigning [plainComment], including [plainComment] []] ∧
      (ofTree "b.php" (sourceOf [docComment, assigning [plainComment],
          including [plainComment] []]).program none none none).1.outline.sketches ≠
        (ofTree "b.php" (sourceOf [docComment, assigning [], including [] []]).program none none
          none).1.outline.sketches := by
  have hkeep : ∀ t, Commented (fun _ _ => True) t t := .refl fun _ => trivial
  refine ⟨?_, ?_⟩
  · have hstatement : Commented (fun _ _ => True) (assigning []) (assigning [plainComment]) :=
      .node (.keep (hkeep _) (.insert isPlainComment_plainComment .nil)) trivial
    have htarget : Commented (fun _ _ => True) (includeOf [] []) (includeOf [plainComment] []) :=
      .node (.insert isPlainComment_plainComment (.keep (hkeep _) .nil)) trivial
    exact .keep (hkeep _) (.keep hstatement (.keep (.node (.keep htarget .nil) trivial) .nil))
  · rw [sketches_sample, sketches_disturbed]
    decide

end Sample

end SourceFile

end SymbolAtlas
