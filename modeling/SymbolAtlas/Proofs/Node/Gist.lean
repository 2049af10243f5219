import Mathlib
import SymbolAtlas.Proofs.Outline.Walk

/-!
# The gist of nodes

The gist of nodes keeps what decides about entities apart from their spans: kinds and names,
documentation, nesting, and the literal paths of include directives.  Remarks are no part of it, and
neither are ranges, the tags of nodes and targets that are no literal paths.  What the gist declares
is the gist of what the nodes declare, number by number and with the same documentation
(`Node.declaresAll_gist`), so nodes of the same gist make the same entities.
-/

namespace SymbolAtlas

/-- The value if it is a text, and else nothing. -/
def Value.pathOnly : Value → Value
  | .str s => .str s
  | _ => .null

/-- A heading without its place and its tag. -/
def Heading.gist (h : Heading) : Heading where
  tag := ""
  name := h.name

/-- An entity without its span; of a target only a literal path is kept. -/
def Entity.gist (e : Entity) : Entity :=
  { e.mapInclusion fun i => { i with target := i.target.pathOnly } with span := none }

/-- A declaration with the gist of its entity. -/
def Declaration.gist (d : Declaration) : Declaration where
  site := d.site
  entity := d.entity.gist

namespace Node

mutual

/-- The gist of a node, which is nothing for a remark. -/
def gist : Node → List Node
  | .documentation h text => [.documentation h.gist text]
  | .remark _ => []
  | .classNode h body => [.classNode h.gist (gistAll body)]
  | .functionNode h body => [.functionNode h.gist (gistAll body)]
  | .methodNode h body fields => [.methodNode h.gist (gistAll body) (gistAll fields)]
  | .namespaceNode h body => [.namespaceNode h.gist (gistAll body)]
  | .includeNode h target once require => [.includeNode h.gist target.pathOnly once require]
  | .assignment h => [.assignment h.gist]
  | .branches h arms => [.branches h.gist (gistArms arms)]
  | .other h fields => [.other h.gist (gistAll fields)]
termination_by structural n => n

/-- The gist of nodes one after the other. -/
def gistAll : List Node → List Node
  | [] => []
  | n :: rest => gist n ++ gistAll rest
termination_by structural ns => ns

/-- The gist of branches. -/
def gistArms : List (Option Span × List Node) → List (Option Span × List Node)
  | [] => []
  | (_, body) :: rest => (none, gistAll body) :: gistArms rest
termination_by structural arms => arms

end

theorem gistAll_append (ns ms : List Node) : gistAll (ns ++ ms) = gistAll ns ++ gistAll ms := by
  induction ns with
  | nil => rfl
  | cons n rest ih => rw [List.cons_append, gistAll, gistAll, ih, List.append_assoc]

theorem gistAll_singleton (n : Node) : gistAll [n] = gist n :=
  List.append_nil _

theorem gistAll_flatMap {α : Type} (f : α → List Node) (xs : List α) :
    gistAll (xs.flatMap f) = xs.flatMap fun x => gistAll (f x) := by
  induction xs with
  | nil => rfl
  | cons x rest ih => rw [List.flatMap_cons, gistAll_append, ih, List.flatMap_cons]

/-! ## What the gist declares -/

/-- Declarations and the text left pending, with the gist of each entity. -/
def gistOf (r : List Declaration × Option String) : List Declaration × Option String :=
  (r.1.map Declaration.gist, r.2)

theorem length_gistOf (r : List Declaration × Option String) :
    (gistOf r).1.length = r.1.length :=
  List.length_map _

mutual

theorem declares_gist : ∀ (n : Node) (site : Nat) (inClass : Bool) (next : Nat)
    (pending : Option String),
    declaresAll site inClass next pending (gist n) =
      gistOf (declares site inClass next pending n)
  | .documentation _ _, _, _, _, _ => rfl
  | .remark _, _, _, _, _ => rfl
  | .classNode h body, _, _, next, _ => by
    rw [gist, declaresAll_singleton, declares, declares,
      declaresAll_gist body next true (next + 1) none]
    rfl
  | .functionNode h body, _, _, next, _ => by
    rw [gist, declaresAll_singleton, declares, declares,
      declaresAll_gist body next false (next + 1) none]
    rfl
  | .methodNode h body fields, site, inClass, next, _ => by
    rw [gist, declaresAll_singleton, declares, declares,
      declaresAll_gist body next false (next + 1) none,
      declaresAll_gist fields site inClass next none]
    split <;> rfl
  | .namespaceNode h body, _, _, next, _ => by
    rw [gist, declaresAll_singleton, declares, declares,
      declaresAll_gist body next false (next + 1) none]
    rfl
  | .includeNode _ _ _ _, _, _, _, _ => rfl
  | .assignment _, _, _, _, _ => rfl
  | .branches _ arms, site, _, next, _ => by
    rw [gist, declaresAll_singleton, declares, declares, declaresArms_gist arms site next]
    rfl
  | .other _ fields, site, inClass, next, _ => by
    rw [gist, declaresAll_singleton, declares, declares]
    exact declaresAll_gist fields site inClass next none
termination_by structural n => n

theorem declaresAll_gist : ∀ (ns : List Node) (site : Nat) (inClass : Bool) (next : Nat)
    (pending : Option String),
    declaresAll site inClass next pending (gistAll ns) =
      gistOf (declaresAll site inClass next pending ns)
  | [], _, _, _, _ => rfl
  | n :: rest, site, inClass, next, pending => by
    rw [gistAll, declaresAll_append, declares_gist n site inClass next pending, length_gistOf,
      declaresAll_gist rest site inClass _ _, declaresAll]
    simp only [gistOf, List.map_append]
termination_by structural ns => ns

theorem declaresArms_gist : ∀ (arms : List (Option Span × List Node)) (site next : Nat),
    declaresArms site next (gistArms arms) =
      (declaresArms site next arms).map Declaration.gist
  | [], _, _ => rfl
  | (span, body) :: rest, site, next => by
    rw [gistArms, declaresArms, declaresArms, declaresAll_gist body next false (next + 1) none]
    simp only [gistOf, List.length_cons, List.length_map, List.map_append, List.map_cons]
    rw [declaresArms_gist rest site _]
    rfl
termination_by structural arms => arms

end

end Node

end SymbolAtlas
