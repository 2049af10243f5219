import Mathlib
import SymbolAtlas.Proofs.Registry.Targets

/-!
# What paths in files stand for

The names that an include directive may lead to are found when its file is made: seen from the name
that the file has then and, if the file is restored, from where the directive led when it was
written down.  The file may be renamed and linked any number of times later; the names stay
(`SourceFile.Stems.queues`).  So once its queue was looked up, a literal path is linked as it stands
for a file by that origin (`SourceFile.Stems.link_of_relink`).
-/

namespace SymbolAtlas

/-- The name that a directive is known to have led to, if any. -/
def Value.ledTo : Value → List String
  | .str s => if s = "" then [] else [s]
  | _ => []

/-- The indexed file that a path in a file stands for: where it led before comes first, then the
path as seen from the directory of the file, then the path by itself. -/
def Registry.follow (r : Registry) (fileName : String) (before : Value) (path : String) :
    Option Nat :=
  (before.ledTo ++
    [Path.normalText (Path.joinTexts (Path.directoryOf (Path.slashed fileName))
      (Path.slashed path)), Path.normalText (Path.slashed path)]).findSome? r.resolve

/-- The link to a file, if there is one. -/
def Link.ofHit : Option Nat → Link
  | some n => .file n
  | none => .unresolved

namespace SourceFile

/-! ## Origins -/

/-- The file was made under the name `origin`, and its directives led to `before` when it was
written down; since then it was only renamed and linked. -/
inductive Stems : SourceFile → String → (Nat → Value) → Prop
  | parsed (origin : String) (tree : Value) (contentHash : Option String) (mtime : Option Double)
      (size : Option Int) :
      Stems (ofTree origin tree contentHash mtime size).1 origin fun _ => .null
  | restored {s : FileSnapshot} {f : SourceFile} (hf : s.restore = .ok f) : Stems f s.name s.before
  | renamed {f : SourceFile} {origin : String} {before : Nat → Value} (hf : Stems f origin before)
      (name : String) : Stems (f.rename name) origin before
  | relinked {f : SourceFile} {origin : String} {before : Nat → Value} (hf : Stems f origin before)
      (resolve : Value → Except BadName (Option Nat)) : Stems (f.relink resolve).1 origin before

namespace Stems

variable {f g : SourceFile} {origin : String} {before : Nat → Value}

theorem queues (h : f.Stems origin before) : Queues f origin before := by
  induction h with
  | parsed origin tree contentHash mtime size =>
    exact queues_ofTree origin tree contentHash mtime size
  | restored hf => exact FileSnapshot.queues_restore hf
  | renamed _ name ih => exact ih.rename name
  | relinked _ resolve ih => exact ih.relink

/-- The file itself is no directive. -/
theorem directive?_zero (h : f.Stems origin before) : f.directive? 0 = none := by
  have hbare : ∀ {f : SourceFile}, f.outline.bares[0]?.bind Entity.inclusion? = none →
      f.directive? 0 = none := by
    intro f hf
    rwa [← bare_directive?, Option.map_eq_none_iff] at hf
  induction h with
  | parsed origin tree contentHash mtime size =>
    apply hbare
    rw [bares_ofTree, bares_entered]
    rfl
  | restored hf =>
    obtain ⟨o, ho, hlinks⟩ := FileSnapshot.upToLinks_restore hf
    obtain ⟨-, -, root, others, -, hbares⟩ := FileSnapshot.outline?_spec ho
    apply hbare
    rw [hlinks.bares, FileSnapshot.unqueued, hbares, FileSnapshot.bares_start]
    rfl
  | renamed _ name ih => rw [directive?_rename, ih]
  | @relinked f _ _ _ resolve ih =>
    have hsame : (f.relink resolve).1.outline.bares = f.outline.bares := f.upToLinks_relink.bares
    apply hbare
    rw [hsame, ← bare_directive?, ih]
    rfl

end Stems

/-! ## Names in order of preference -/

/-- Names that were looked up already need not be looked up again. -/
theorem findSome?_append_filter {α : Type} (look : String → Option α) (names more : List String) :
    (names ++ more.filter (· ∉ names)).findSome? look = (names ++ more).findSome? look := by
  rw [List.findSome?_append, List.findSome?_append]
  cases hnames : names.findSome? look with
  | some x => rfl
  | none =>
    rw [List.findSome?_eq_none_iff] at hnames
    rw [Option.none_or, Option.none_or]
    induction more with
    | nil => rfl
    | cons name rest ih =>
      rw [List.filter_cons, List.findSome?_cons]
      by_cases hname : name ∈ names
      · rw [if_neg (by simpa using hname), hnames name hname]
        exact ih
      · rw [if_pos (by simpa using hname), List.findSome?_cons, ih]

section Candidates

variable {fileName path : String} {inc : Inclusion} {before : Value}

theorem addName_eq (names : List String) (name : String) :
    addName names name = names ++ [name].filter (· ∉ names) := by
  unfold addName
  by_cases h : name ∈ names <;> simp [h]

theorem ledTo_of_falsy (hbefore : before.truthy = false) : before.ledTo = [] := by
  cases before with
  | str s =>
    have hs : s = "" := by simpa [Value.truthy] using hbefore
    rw [Value.ledTo, if_pos hs]
  | _ => rfl

theorem candidates_of_falsy (hbefore : before.truthy = false) :
    candidates fileName inc before = (pathsOf fileName inc).map .str := by
  unfold candidates
  rw [if_neg (by simp [hbefore]), List.nil_append]
  cases before with
  | str s =>
    have hs : s = "" := by simpa [Value.truthy] using hbefore
    have hall : ∀ name ∈ pathsOf fileName inc, decide (name ≠ s) = true := fun name hname =>
      decide_eq_true (hs ▸ ne_empty_of_mem_pathsOf hname)
    exact congrArg (List.map Value.str) (List.filter_eq_self.2 hall)
  | _ => rfl

/-- Where a directive led before comes first, and no name comes twice. -/
theorem candidates_eq (hbefore : before.isNameOrFalsy = true) :
    candidates fileName inc before =
      (before.ledTo ++ (pathsOf fileName inc).filter (· ∉ before.ledTo)).map .str := by
  cases htruthy : before.truthy with
  | false =>
    rw [candidates_of_falsy htruthy, ledTo_of_falsy htruthy]
    simp
  | true =>
    obtain ⟨s, rfl⟩ := Value.isNameOrFalsy_iff.1 hbefore htruthy
    have hs : s ≠ "" := by simpa [Value.truthy] using htruthy
    rw [candidates_str hs, Value.ledTo, if_neg hs]
    simp

theorem firstHit_texts (r : Registry) (names : List String) :
    firstHit r.resolveCandidate (names.map .str) = .ok (names.findSome? r.resolve) := by
  induction names with
  | nil => rfl
  | cons name rest ih =>
    rw [List.map_cons, firstHit, Registry.resolveCandidate, List.findSome?_cons]
    cases r.resolve name with
    | none => exact ih
    | some n => rfl

/-- A directive with a literal path is linked to the file that the path stands for. -/
theorem linkTo_candidates (r : Registry) (hbefore : before.isNameOrFalsy = true)
    (hpath : inc.path? = some path) :
    linkTo r.resolveCandidate (candidates fileName inc before) =
      Link.ofHit (r.follow fileName before path) := by
  have hpaths : pathsOf fileName inc = pathNames fileName path := by rw [pathsOf, hpath]
  have hhit : firstHit r.resolveCandidate (candidates fileName inc before) =
      .ok (r.follow fileName before path) := by
    rw [candidates_eq hbefore, firstHit_texts, findSome?_append_filter, hpaths, pathNames,
      addName_eq, List.findSome?_append, findSome?_append_filter, ← List.findSome?_append]
    rfl
  rw [linkTo, hhit]
  cases r.follow fileName before path <;> rfl

end Candidates

/-- After a look-up, the literal paths of a file lead to what they stand for, as seen from where the
file stems. -/
theorem Stems.link_of_relink {f g : SourceFile} {origin : String} {before : Nat → Value}
    (h : g.Stems origin before) {r : Registry} {missed : Nat}
    (hok : f.relink r.resolveCandidate = (g, .ok missed)) {i : Nat} {inc : Inclusion}
    (hi : g.directive? i = some inc) {path : String} (hpath : inc.path? = some path) :
    inc.link = Link.ofHit (r.follow origin (before i) path) := by
  obtain ⟨hlink, hhit⟩ := h.queues.link_of_relink hok hi
  rw [hlink, linkTo_candidates r (Registry.firstHit_candidates_ok_iff.1 hhit) hpath]

end SourceFile

end SymbolAtlas
