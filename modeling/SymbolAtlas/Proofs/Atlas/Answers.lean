import Mathlib
import SymbolAtlas.Proofs.Atlas.Tended
import SymbolAtlas.Proofs.Outline.Search

/-!
# Answers of an index

A search of an index goes through its files and asks each one for no more than there is still room
for.  What it finds is the whole answer, which lists what each file answers, cut to the limit
(`Atlas.selectFrom_eq_cut`).  What is asked of a file goes down the ownership tree: whatever happens
to an index, every entity of its files comes after its owner (`Course.Used.ownsLater`), so that no
entity is left out on the way (`SourceFile.OwnsLater.descendants_eq`).
-/

namespace SymbolAtlas

open Outline SourceFile

/-! ## Owners come first -/

theorem Outline.mem_owned_of_mem_children {o : Outline} {i c : Nat} (h : c ∈ o.children i) :
    c ∈ o.owned i := by
  rw [owned_eq]
  unfold children at h
  cases he : o.get? i with
  | none =>
    rw [he] at h
    cases h
  | some e =>
    rw [he] at h
    exact (List.mem_filter.1 h).1

namespace SourceFile

/-- What an entity owns comes after it. -/
def OwnsLater (f : SourceFile) : Prop :=
  ∀ i, ∀ c ∈ f.outline.owned i, i < c

theorem ownsLater_of_wellOwned {f : SourceFile} (h : WellOwned f.outline) : f.OwnsLater :=
  fun _ _ hc => (h.owned_bounds hc).1

theorem OwnsLater.of_place? {f g : SourceFile} (h : f.OwnsLater)
    (hplace : ∀ i, g.outline.place? i = f.outline.place? i) : g.OwnsLater := by
  intro i c hc
  rw [Outline.owned, hplace] at hc
  exact h i c hc

/-- Going down, each owned entity is followed by what is below it. -/
theorem OwnsLater.descendants_eq {f : SourceFile} (h : f.OwnsLater) (i : Nat) :
    f.outline.descendants i =
      (f.outline.children i).flatMap fun c => c :: f.outline.descendants c := by
  have hbelow : f.outline.below i = f.outline.children i := by
    rw [below, List.filter_eq_self]
    intro c hc
    exact decide_eq_true (h i c (mem_owned_of_mem_children hc))
  rw [descendants_eq_below, hbelow]

/-- In an empty shell nothing is owned. -/
theorem owned_detach (f : SourceFile) (i : Nat) : f.detach.outline.owned i = [] := by
  have hnone : ∀ e : Entity, Entity.children
      { (e.mapBody fun _ => { closed := true }) with parent := none } = [] := by
    rintro ⟨detail, name, parent, span, doc⟩
    cases detail <;> rfl
  simp only [owned_eq, detach, get?, scattered, Array.getElem?_extract, Array.getElem?_map]
  split
  · rw [Option.map_map]
    cases f.outline.entities[0 + i]? with
    | none => rfl
    | some e => exact hnone e
  · rfl

theorem isLasting_ownsLater : IsLasting OwnsLater where
  detach := by
    intro f _ i c hc
    rw [owned_detach] at hc
    cases hc
  rename := fun name hf => hf.of_place? fun i => place?_modify 0 i fun _ => rfl
  relink := fun resolve hf => hf.of_place? (upToLinks_relink _).place?

end SourceFile

/-! ## Courses with scans -/

namespace Course

/-- A course that moves and scans lead to. -/
inductive Used : Course → Prop
  | fresh (directory : String) (settings : Settings)
      (realpath : String → String := Path.resolvedText) : Used (fresh directory settings realpath)
  | perform {c : Course} (hc : Used c) (move : Move) : Used (c.perform move)
  | scan {c : Course} (hc : Used c) {w : World} {subPaths : Option (List String)} {width : Nat}
      {out : Atlas × Except ScanFault ScanReport} (h : c.atlas.Scans w subPaths width out) :
      Used { c with atlas := out.1 }

theorem Reachable.used {c : Course} (hc : c.Reachable) : c.Used := by
  induction hc with
  | fresh directory settings realpath => exact .fresh directory settings realpath
  | perform _ move ih => exact ih.perform move

theorem Used.ownsLater {c : Course} (hc : c.Used) :
    Registry.AllFiles OwnsLater c.atlas.registry := by
  have hparsed : ∀ name tree contentHash mtime size,
      OwnsLater (ofTree name tree contentHash mtime size).1 :=
    fun name tree contentHash mtime size =>
      ownsLater_of_wellOwned (wellOwned_ofTree name tree contentHash mtime size)
  induction hc with
  | fresh directory settings realpath =>
    intro n f hf
    cases hf
  | perform _ move ih =>
    exact allFiles_perform isLasting_ownsLater hparsed ih fun _ _ _ _ entry _ f hf =>
      ownsLater_of_wellOwned (FileSnapshot.wellOwned_restore hf)
  | scan _ h ih => exact h.allFiles isLasting_ownsLater hparsed ih

end Course

/-! ## Answers -/

namespace Atlas

/-- What a file answers. -/
def answerIn (a : Atlas) (tag : String) (name : Option String) (n : Nat) : List SymbolRef :=
  match a.file? n with
  | some f => (f.outline.answer 0 tag name).map fun i => { file := n, entity := i }
  | none => []

/-- All entities with a tag and possibly a name, file after file. -/
def answer (a : Atlas) (tag : String) (name : Option String) : List SymbolRef :=
  a.registry.loaded.flatMap (a.answerIn tag name)

theorem selectIn_eq_cut (a : Atlas) (tag : String) (name : Option String) (limit : Int) (n : Nat) :
    a.selectIn tag name limit n = cut limit (a.answerIn tag name n) := by
  unfold selectIn answerIn
  cases a.file? n with
  | none => exact (cut_nil limit).symm
  | some f => simp only [select_eq_cut, map_cut]

/-- While there is room, going through files adds what they answer, cut to the limit. -/
theorem selectFrom_eq_cut (a : Atlas) (tag : String) (name : Option String) (limit : Int)
    (ns : List Nat) (found : List SymbolRef) (hroom : 0 < limit → (found.length : Int) < limit) :
    a.selectFrom tag name limit found ns =
      cut limit (found ++ ns.flatMap (a.answerIn tag name)) := by
  induction ns generalizing found with
  | nil =>
    rw [selectFrom, List.flatMap_nil, List.append_nil, cut_of_length_le fun hpos => (hroom hpos).le]
  | cons n rest ih =>
    rw [selectFrom, selectIn_eq_cut, List.flatMap_cons, ← List.append_assoc]
    generalize a.answerIn tag name n = here at *
    by_cases hpos : 0 < limit
    · simp only [if_pos hpos, append_cut (hroom hpos)]
      by_cases hfull : limit ≤ (found ++ here).length
      · have hcut := (le_length_cut_iff hpos (found ++ here)).2 hfull
        simp only [hpos, hcut, decide_true, Bool.and_self, ↓reduceIte]
        exact (cut_append_of_le hpos hfull _).symm
      · have hcut : cut limit (found ++ here) = found ++ here :=
          cut_of_length_le fun _ => by omega
        rw [hcut]
        simp only [hpos, hfull, decide_true, decide_false, Bool.and_false, Bool.false_eq_true,
          ↓reduceIte]
        exact ih (found ++ here) fun _ => not_le.1 hfull
    · simp only [hpos, decide_false, Bool.false_and, Bool.false_eq_true, ↓reduceIte,
        cut_of_nonpos (Int.le_refl 0)]
      exact ih (found ++ here) fun h => absurd h hpos

theorem selectFirst_eq_head? (a : Atlas) (tag : String) (name : Option String) :
    a.selectFirst tag name = (a.answer tag name).head? := by
  rw [selectFirst, answer, List.head?_flatMap]
  congr 1
  funext n
  rw [answerIn]
  cases a.file? n with
  | none => rfl
  | some f =>
    show (f.outline.selectFirst 0 tag name).bind _ = _
    rw [f.outline.selectFirst_eq_head?, List.head?_map]
    exact Option.map_eq_bind.symm

theorem answer_of_unknown (a : Atlas) {tag : String} {name : Option String}
    (h : Kind.ofTag? tag = none) : a.answer tag name = [] := by
  rw [answer, List.flatMap_eq_nil_iff]
  intro n _
  rw [answerIn]
  cases a.file? n with
  | none => rfl
  | some f => simp only [f.outline.answer_of_unknown 0 h, List.map_nil]

end Atlas

namespace Course

/-- Whatever has happened to an index, a search of it, or of a scope in one of its files, finds the
whole answer cut to the limit, and its first hit is the head of the whole answer.  The entities
below a scope, from which answers are taken, are what it owns, each followed by what is below
that. -/
theorem Used.search {c : Course} (hc : c.Used) (tag : String) (name : Option String) :
    (∀ limit, c.atlas.select tag name limit =
      cut (limit.getD c.atlas.settings.limits.queryDefault) (c.atlas.answer tag name)) ∧
    c.atlas.selectFirst tag name = (c.atlas.answer tag name).head? ∧
    (Kind.ofTag? tag = none → c.atlas.answer tag name = []) ∧
    ∀ n f, c.atlas.file? n = some f → ∀ scope,
      (∀ limit, f.outline.select scope tag name limit =
        cut limit (f.outline.answer scope tag name)) ∧
      f.outline.selectFirst scope tag name = (f.outline.answer scope tag name).head? ∧
      (Kind.ofTag? tag = none → f.outline.answer scope tag name = []) ∧
      f.outline.descendants scope =
        (f.outline.children scope).flatMap fun i => i :: f.outline.descendants i := by
  refine ⟨?_, c.atlas.selectFirst_eq_head? tag name, c.atlas.answer_of_unknown, ?_⟩
  · intro limit
    exact c.atlas.selectFrom_eq_cut tag name _ c.atlas.registry.loaded [] id
  · intro n f hf scope
    refine ⟨?_, f.outline.selectFirst_eq_head? scope tag name,
      f.outline.answer_of_unknown scope, ?_⟩
    · intro limit
      exact f.outline.select_eq_cut scope tag name limit
    · exact (hc.ownsLater n f hf).descendants_eq scope

/-- Two sources that include the second one, both parsed. -/
def parsedPair : Course :=
  pair.performAll
    [.parse { name := "a.php" }, .begin 0 pairWorld,
      .finish 0 (.parsed pairWorld.parser { text := "1", content := [49], mtime := default }),
      .parse { name := "b.php" }, .begin 1 pairWorld,
      .finish 1 (.parsed pairWorld.parser { text := "2", content := [50], mtime := default })]

/-- Both files answer, and a limit of one leaves the answer of the first file. -/
theorem search_parsedPair : parsedPair.Used ∧
    parsedPair.atlas.answer "external" none = [⟨0, 2⟩, ⟨1, 2⟩] ∧
    parsedPair.atlas.select "external" none (some 1) = [⟨0, 2⟩] ∧
    parsedPair.atlas.selectFirst "external" none = some ⟨0, 2⟩ := by
  have hused : parsedPair.Used := ((Reachable.fresh "/src" {}).performAll _).used
  obtain ⟨hselect, hfirst, -, -⟩ := hused.search "external" none
  have hanswer : parsedPair.atlas.answer "external" none = [⟨0, 2⟩, ⟨1, 2⟩] := by decide +kernel
  refine ⟨hused, hanswer, ?_, ?_⟩
  · rw [hselect, hanswer]
    rfl
  · rw [hfirst, hanswer]
    rfl

end Course

end SymbolAtlas
