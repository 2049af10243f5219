import Mathlib
import SymbolAtlas.Proofs.SourceFile.Sound

/-!
# File numbers in links

The only numbers of other files that a file mentions are those in its links.  Renumbering goes
through all of them, and everything that a registry does to a file commutes with it.  A file that
was just read from a tree or taken back from a snapshot mentions no number at all
(`SourceFile.renumber_ofTree`, `FileSnapshot.renumber_restore`).
-/

namespace SymbolAtlas

/-- The link to the file under its new number. -/
def Link.renumber (ρ : Nat → Nat) : Link → Link
  | .file n => .file (ρ n)
  | link => link

/-- The entity with file numbers replaced. -/
def Entity.renumber (ρ : Nat → Nat) (e : Entity) : Entity :=
  e.mapInclusion fun i => { i with link := i.link.renumber ρ }

namespace Outline

/-- The outline with file numbers replaced. -/
def renumber (ρ : Nat → Nat) (o : Outline) : Outline :=
  { o with entities := o.entities.map (Entity.renumber ρ) }

theorem get?_renumber (ρ : Nat → Nat) (o : Outline) (i : Nat) :
    (o.renumber ρ).get? i = (o.get? i).map (Entity.renumber ρ) :=
  Array.getElem?_map

theorem ext_get? {o o' : Outline} (h : ∀ i, o'.get? i = o.get? i)
    (hn : o'.namespaces = o.namespaces) (he : o'.externals = o.externals) (hh : o'.home = o.home)
    (hl : o'.linked = o.linked) : o' = o := by
  obtain ⟨entities, namespaces, externals, home, linked⟩ := o
  obtain ⟨entities', namespaces', externals', home', linked'⟩ := o'
  cases hn
  cases he
  cases hh
  cases hl
  congr 1
  exact Array.ext_getElem? h

end Outline

namespace Entity

variable (ρ : Nat → Nat) (e : Entity)

theorem renumber_mapBody (f : Body → Body) :
    (e.mapBody f).renumber ρ = (e.renumber ρ).mapBody f := by
  obtain ⟨detail, name, parent, span, doc⟩ := e
  cases detail <;> rfl

theorem renumber_setLink (link : Link) :
    (e.mapInclusion fun i => { i with link := link }).renumber ρ =
      (e.renumber ρ).mapInclusion fun i => { i with link := link.renumber ρ } := by
  obtain ⟨detail, name, parent, span, doc⟩ := e
  cases detail <;> rfl

theorem renumber_named (name : Option String) :
    { e with name := name }.renumber ρ = { e.renumber ρ with name := name } := by
  obtain ⟨detail, name, parent, span, doc⟩ := e
  cases detail <;> rfl

theorem renumber_owned (parent : Option Nat) :
    { e with parent := parent }.renumber ρ = { e.renumber ρ with parent := parent } := by
  obtain ⟨detail, name, parent, span, doc⟩ := e
  cases detail <;> rfl

end Entity

namespace SourceFile

/-- The file with the numbers of other files replaced. -/
def renumber (ρ : Nat → Nat) (f : SourceFile) : SourceFile :=
  { f with outline := f.outline.renumber ρ }

section Renumber

variable (ρ : Nat → Nat) (f : SourceFile)

theorem symbolCount_renumber : (f.renumber ρ).symbolCount = f.symbolCount := by
  simp only [symbolCount, renumber, Outline.renumber, Outline.size, Array.size_map]

/-- What changes an entity in a way that commutes with renumbering does so within its file. -/
theorem renumber_modify {change change' : Entity → Entity}
    (h : ∀ e, (change e).renumber ρ = change' (e.renumber ρ)) (o : Outline) (i : Nat) :
    (o.modify i change).renumber ρ = (o.renumber ρ).modify i change' := by
  refine Outline.ext_get? (fun j => ?_) rfl rfl rfl rfl
  rw [Outline.get?_renumber, Outline.get?_modify, Outline.get?_modify, Outline.get?_renumber]
  split
  · rw [Option.map_map, Option.map_map]
    exact Option.map_congr fun e _ => h e
  · rfl

theorem renumber_setLink (id : Nat) (link : Link) :
    (f.setLink id link).renumber ρ = (f.renumber ρ).setLink id (link.renumber ρ) := by
  simp only [renumber, setLink]
  rw [renumber_modify ρ fun e => e.renumber_setLink ρ link]

theorem renumber_rename (name : String) :
    (f.rename name).renumber ρ = (f.renumber ρ).rename name := by
  simp only [renumber, rename]
  rw [@renumber_modify ρ _ (fun e => { e with name := some name })
    fun e => e.renumber_named ρ (some name)]

theorem renumber_detach : f.detach.renumber ρ = (f.renumber ρ).detach := by
  have hscattered : (f.outline.renumber ρ).scattered.entities =
      f.outline.scattered.entities.map (Entity.renumber ρ) := by
    simp only [Outline.scattered, Outline.renumber, Array.map_map]
    refine Array.map_congr_left fun e _ => ?_
    obtain ⟨detail, name, parent, span, doc⟩ := e
    cases detail <;> rfl
  simp only [renumber, detach]
  rw [hscattered, Outline.renumber, Array.map_extract]

/-- If candidates lead to the renumbered files, then so do the links. -/
theorem relink_renumber {resolve resolve' : Value → Except BadName (Option Nat)}
    (h : ∀ c, resolve' c = (resolve c).map (Option.map ρ)) :
    (f.renumber ρ).relink resolve' = ((f.relink resolve).1.renumber ρ, (f.relink resolve).2) := by
  have hhit : ∀ names, firstHit resolve' names = (firstHit resolve names).map (Option.map ρ) := by
    intro names
    induction names with
    | nil => rfl
    | cons c rest ih =>
      rw [firstHit, firstHit, h]
      cases hc : resolve c with
      | error e => rfl
      | ok hit =>
        cases hit with
        | none => exact ih
        | some n => rfl
  have hqueue : ∀ (queue : List Lookup) (g : SourceFile) (missed : Nat),
      relinkAll resolve' (g.renumber ρ) queue missed =
        ((relinkAll resolve g queue missed).1.renumber ρ,
          (relinkAll resolve g queue missed).2) := by
    intro queue
    induction queue with
    | nil => exact fun _ _ => rfl
    | cons q rest ih =>
      intro g missed
      rw [relinkAll, relinkAll, hhit]
      cases firstHit resolve q.candidates with
      | error e => rfl
      | ok hit =>
        cases hit with
        | none =>
          have hset := g.renumber_setLink ρ q.entity .unresolved
          simp only [Except.map, Option.map_none]
          rw [← ih, hset]
          rfl
        | some n =>
          have hset := g.renumber_setLink ρ q.entity (.file n)
          simp only [Except.map, Option.map_some]
          rw [← ih, hset]
          rfl
  exact hqueue f.queue f 0

end Renumber

end SourceFile

/-! ## Files that mention no number -/

namespace Outline

/-- No entity mentions a file number. -/
def Unlinked (o : Outline) : Prop :=
  ∀ i e, o.get? i = some e → ∀ ρ, e.renumber ρ = e

namespace Unlinked

variable {o : Outline} (h : Unlinked o)

include h

theorem renumber_eq (ρ : Nat → Nat) : o.renumber ρ = o := by
  refine ext_get? (fun i => ?_) rfl rfl rfl rfl
  rw [get?_renumber]
  cases hi : o.get? i with
  | none => rfl
  | some e => exact congrArg some (h i e hi ρ)

theorem congr {o' : Outline} (he : o'.entities = o.entities) : Unlinked o' := by
  intro i e hi
  refine h i e ?_
  rwa [get?, he] at hi

theorem modify (i : Nat) {change : Entity → Entity}
    (hchange : ∀ e, (∀ ρ, e.renumber ρ = e) → ∀ ρ, (change e).renumber ρ = change e) :
    Unlinked (o.modify i change) := by
  intro j e he
  rw [get?_modify] at he
  split at he
  · obtain ⟨e, hj, rfl⟩ := Option.map_eq_some_iff.1 he
    exact hchange e (h j e hj)
  · exact h j e he

theorem mapBody (i : Nat) (f : Body → Body) : Unlinked (o.modify i (Entity.mapBody f)) := by
  refine h.modify i fun e he ρ => ?_
  rw [Entity.renumber_mapBody, he]

theorem add (hl : o.linked = true) (owner : Nat) {e : Entity} (he : e.IsFresh) :
    Unlinked (o.add owner e).1 := by
  have hfresh : ∀ ρ, e.renumber ρ = e := by
    intro ρ
    rw [← he.1]
    obtain ⟨detail, name, parent, span, doc⟩ := e
    cases detail <;> rfl
  rw [Outline.add, if_pos hl]
  refine mapBody (fun i x hx ρ => ?_) owner _
  rw [get?, Array.getElem?_push] at hx
  split at hx
  · cases hx
    rw [Entity.renumber_owned, hfresh]
  · exact h i x hx ρ

theorem enter (hr : Ready o) {d : Declaration} (hd : o.Takes d) : Unlinked (o.enter d) := by
  have hl := hr.wellOwned.linked
  obtain ⟨list, shared, -, -, -, he⟩ | ⟨-, -, he⟩ | ⟨-, -, he⟩ := enter_cases hr hd
  · rw [he]
    exact addShown_keeps (fun x s hx => hx.mapBody s _) (h.add hl d.site hd.2) _
  · rw [he]
    exact (h.add hl 0 hd.2).congr rfl
  · rw [he]
    exact (h.add hl d.site hd.2).congr rfl

theorem close : Unlinked o.close := by
  intro i e he ρ
  rw [get?_close] at he
  obtain ⟨e, hi, rfl⟩ := Option.map_eq_some_iff.1 he
  rw [Entity.renumber_mapBody, h i e hi]

theorem restoreEntities (hw : WellOwned o) {es : List EntitySnapshot} {o' : Outline}
    (hok : o.restoreEntities es = .ok o') : Unlinked o' := by
  induction es generalizing o with
  | nil =>
    cases hok
    exact h
  | cons e rest ih =>
    obtain ⟨o₁, ho₁, hrest⟩ := restoreEntities_cons_eq_ok.1 hok
    obtain ⟨p, detail, hp, hs, -, hd, rfl⟩ := restoreEntity_eq_ok.1 ho₁
    have hfresh := e.isFresh_restored hd
    exact ih (h.add hw.linked p hfresh) (hw.add hs hfresh.children_eq hfresh.2) hrest

end Unlinked

theorem unlinked_empty (name : String) (span : Option Span) : Unlinked (empty name span) := by
  intro i e he ρ
  cases i with
  | zero =>
    cases he
    rfl
  | succ i => cases he

end Outline

namespace SourceFile

open Outline

theorem unlinked_enqueueEach {f : SourceFile} (h : Unlinked f.outline)
    (lookups : List (Nat × Value)) : Unlinked (f.enqueueEach lookups).outline := by
  induction lookups generalizing f with
  | nil => exact h
  | cons q rest ih =>
    apply ih
    show Unlinked (f.enqueue q.1 q.2).outline
    rcases enqueue_cases f q.1 q.2 with ⟨-, heq⟩ | ⟨inc, -, ⟨-, heq⟩ | heq⟩
    · rwa [heq]
    · rw [heq]
      refine h.modify q.1 fun e he ρ => ?_
      rw [Entity.renumber_setLink, he]
      rfl
    · rwa [heq]

/-- The file of a tree mentions no other file. -/
theorem renumber_ofTree (ρ : Nat → Nat) (name : String) (tree : Value)
    (contentHash : Option String) (mtime : Option Double) (size : Option Int) :
    (ofTree name tree contentHash mtime size).1.renumber ρ =
      (ofTree name tree contentHash mtime size).1 := by
  have hblank : Unlinked (blank name (spanOf tree) true).outline :=
    ((unlinked_empty name (spanOf tree)).add rfl 0 ⟨rfl, by decide⟩).congr rfl
  have hentered : Unlinked (entered name tree) :=
    (enters_declarations name tree).admits.keeps (ready_blank name (spanOf tree))
      (fun _ _ hr hd hx => hx.enter hr hd) hblank
  rw [ofTree_fst]
  have hdone := (unlinked_enqueueEach
    (f := { outline := entered name tree, contentHash, mtime, size }) hentered
    ((entered name tree).externals.map fun id => (id, .null))).close
  exact congrArg (fun o => { (enqueueEach _ _).close with outline := o }) (hdone.renumber_eq ρ)

end SourceFile

namespace FileSnapshot

open Outline SourceFile

/-- A restored file mentions no other file. -/
theorem renumber_restore (ρ : Nat → Nat) {s : FileSnapshot} {f : SourceFile}
    (h : s.restore = .ok f) : f.renumber ρ = f := by
  obtain ⟨o, ho, rfl⟩ := restore_eq_ok.1 h
  obtain ⟨root, others, o₁, o₂, home, namespaces, externals, -, -, -, h₁, h₂, -, -, -, rfl⟩ :=
    outline?_eq_ok.1 ho
  have hstart : Unlinked (s.start root) :=
    (unlinked_empty s.name root.span).modify 0 fun e he ρ => by
      obtain ⟨detail, name, parent, span, doc⟩ := e
      cases detail <;> simp_all [Entity.renumber, Entity.mapInclusion]
  have hwell : WellOwned (s.start root) :=
    (wellOwned_empty s.name root.span).modify 0 fun _ => rfl
  have hlists : Unlinked o₂ :=
    restoreAllLists_keeps (fun o i list ns _ ho => ho.mapBody i _) h₂
      (hstart.restoreEntities hwell h₁)
  have hdone := (unlinked_enqueueEach (f := s.unqueued
    { o₂ with home := some home, namespaces := namespaces, externals := externals })
    (hlists.congr rfl) s.lookups).close
  exact congrArg (fun o => { (enqueueEach _ _).close with outline := o }) (hdone.renumber_eq ρ)

end FileSnapshot

end SymbolAtlas
