import Mathlib
import SymbolAtlas.Proofs.Atlas.Answers
import SymbolAtlas.Proofs.SourceFile.Declared
import SymbolAtlas.Proofs.Symbol.Qualified

/-!
# Namespaces put together

The namespaces of a name are found file by file, and the merged namespace lists what each of them
shows.  If the files come from trees, these are the classes and plain functions that lie in them,
each once (`Course.Used.mergedNamespace_exact`).

A namespace is named when it is declared, when it is looked up in an index, when it is looked up in
a file, and when it is taken back from a snapshot.  So a declared namespace is found in its file in
any case; if its name is stable, the index finds it too and it keeps its name after a snapshot
(`Atlas.finds_declared`), and otherwise this may fail (`Course.loses_unstable`).
-/

namespace SymbolAtlas

open Outline SourceFile

namespace Atlas

variable {a : Atlas}

/-- The scopes of a kind in a file that lie in namespaces of a name, namespace by namespace in the
order of declaration. -/
def gatheredIn (a : Atlas) (name : String) (k : ScopeKind) (n : Nat) : List SymbolRef :=
  match a.file? n with
  | some f =>
    (f.outline.namespacesNamed name).flatMap fun s =>
      (f.outline.lyingIn s k).map fun i => { file := n, entity := i }
  | none => []

/-- The scopes of a kind that lie in namespaces of a name, file by file in the order of entry. -/
def gathered (a : Atlas) (name : String) (k : ScopeKind) : List SymbolRef :=
  a.registry.loaded.flatMap (a.gatheredIn name k)

/-- Every indexed file groups what it shows. -/
def IsGrouped (a : Atlas) : Prop :=
  ∀ n ∈ a.registry.loaded, ∀ f, a.file? n = some f → Grouped f.outline

/-! ## What is merged -/

/-- Without a limit a search gives the whole answer. -/
theorem select_zero (a : Atlas) (tag : String) (name : Option String) :
    a.select tag name (some 0) = a.answer tag name := by
  rw [select, Option.getD_some, selectFrom_eq_cut a tag name 0 _ [] fun h => h]
  exact cut_of_nonpos (Int.le_refl 0) _

theorem mergedNamespace?_eq (a : Atlas) (name : String) :
    a.mergedNamespace? name =
      if a.answer Kind.namespaceDecl.tag (some (Qualified.canonical name)) = [] then none
      else some {
        name := Qualified.canonical (Qualified.canonical name)
        lists := fun l =>
          if isMerged l then
            (a.answer Kind.namespaceDecl.tag (some (Qualified.canonical name))).flatMap
              (a.membersOf · l)
          else [] } := by
  unfold mergedNamespace?
  simp only [select_zero]
  split
  · rename_i hnone
    rw [if_pos hnone]
  · rename_i hsome
    rw [if_neg hsome]

section Grouped

variable (h : a.IsGrouped)

include h

theorem mem_answer_namespaces {name : String} {r : SymbolRef} :
    r ∈ a.answer Kind.namespaceDecl.tag (some name) ↔
      r.file ∈ a.registry.loaded ∧ ∃ f e, a.file? r.file = some f ∧
        f.outline.get? r.entity = some e ∧ e.kind = .namespaceDecl ∧
          e.name = some (Qualified.canonical name) := by
  rw [answer, List.mem_flatMap]
  constructor
  · rintro ⟨n, hn, hr⟩
    rw [answerIn] at hr
    split at hr
    · rename_i f hf
      obtain ⟨i, hi, rfl⟩ := List.mem_map.1 hr
      rw [(h n hn f hf).answer_eq name] at hi
      obtain ⟨e, he, hkind, hname⟩ := mem_numbersOf.1 hi
      exact ⟨hn, f, e, hf, he, hkind, hname⟩
    · cases hr
  · rintro ⟨hn, f, e, hf, he, hkind, hname⟩
    refine ⟨r.file, hn, ?_⟩
    simp only [answerIn, hf, (h _ hn f hf).answer_eq name]
    exact List.mem_map.2 ⟨r.entity, mem_numbersOf.2 ⟨e, he, hkind, hname⟩, rfl⟩

/-- The members of the namespaces of a name are what lies in them. -/
theorem flatMap_membersOf (name : String) {list : MemberList} {k : ScopeKind}
    (hlist : list.sharedKind? = some k) :
    (a.answer Kind.namespaceDecl.tag (some name)).flatMap (a.membersOf · list) =
      a.gathered (Qualified.canonical name) k := by
  rw [answer, gathered, List.flatMap_assoc]
  refine List.flatMap_congr fun n hn => ?_
  rw [answerIn, gatheredIn]
  cases hf : a.file? n with
  | none => rfl
  | some f =>
    have hgrouped := h n hn f hf
    simp only [hgrouped.answer_eq name, List.flatMap_map]
    refine List.flatMap_congr fun s hs => ?_
    obtain ⟨e, he, hkind, -⟩ := mem_numbersOf.1 hs
    simp only [membersOf, hf, Option.bind_some, he, hgrouped.members_eq he hkind hlist]

end Grouped

/-! ## What is gathered -/

theorem mem_gatheredIn {name : String} {k : ScopeKind} {n : Nat} {r : SymbolRef} :
    r ∈ a.gatheredIn name k n ↔
      r.file = n ∧ ∃ f x s e, a.file? n = some f ∧ f.outline.get? r.entity = some x ∧
        x.scopeKind? = some k ∧ f.outline.namespaceOf r.entity = some s ∧
          f.outline.get? s = some e ∧ e.kind = .namespaceDecl ∧ e.name = some name := by
  rw [gatheredIn]
  constructor
  · intro hr
    split at hr
    · rename_i f hf
      obtain ⟨s, hs, hr⟩ := List.mem_flatMap.1 hr
      obtain ⟨i, hi, rfl⟩ := List.mem_map.1 hr
      obtain ⟨e, he, hkind, hname⟩ := mem_numbersOf.1 hs
      obtain ⟨x, hx, hscope, hin⟩ := mem_numbersOf.1 hi
      exact ⟨rfl, f, x, s, e, hf, hx, hscope, hin, he, hkind, hname⟩
    · cases hr
  · rintro ⟨rfl, f, x, s, e, hf, hx, hscope, hin, he, hkind, hname⟩
    simp only [hf]
    refine List.mem_flatMap.2 ⟨s, mem_numbersOf.2 ⟨e, he, hkind, hname⟩, ?_⟩
    exact List.mem_map.2 ⟨r.entity, mem_numbersOf.2 ⟨x, hx, hscope, hin⟩, rfl⟩

theorem mem_gathered {name : String} {k : ScopeKind} {r : SymbolRef} :
    r ∈ a.gathered name k ↔
      r.file ∈ a.registry.loaded ∧ ∃ f x s e, a.file? r.file = some f ∧
        f.outline.get? r.entity = some x ∧ x.scopeKind? = some k ∧
          f.outline.namespaceOf r.entity = some s ∧ f.outline.get? s = some e ∧
            e.kind = .namespaceDecl ∧ e.name = some name := by
  rw [gathered, List.mem_flatMap]
  constructor
  · rintro ⟨n, hn, hr⟩
    obtain ⟨rfl, hlies⟩ := mem_gatheredIn.1 hr
    exact ⟨hn, hlies⟩
  · rintro ⟨hn, hlies⟩
    exact ⟨r.file, hn, mem_gatheredIn.2 ⟨rfl, hlies⟩⟩

/-- An entity lies in one namespace, so nothing in a file is gathered twice. -/
theorem nodup_gatheredIn (a : Atlas) (name : String) (k : ScopeKind) (n : Nat) :
    (a.gatheredIn name k n).Nodup := by
  unfold gatheredIn
  split
  · rename_i f hf
    refine List.nodup_flatMap.2 ⟨?_, ?_⟩
    · intro s _
      exact (nodup_numbersOf _ _).map fun i j hij => congrArg SymbolRef.entity hij
    · refine (nodup_numbersOf _ _).imp fun {s t} hst r hs ht => hst ?_
      obtain ⟨i, hi, rfl⟩ := List.mem_map.1 hs
      obtain ⟨j, hj, hij⟩ := List.mem_map.1 ht
      obtain rfl : j = i := congrArg SymbolRef.entity hij
      obtain ⟨-, -, -, his⟩ := mem_numbersOf.1 hi
      obtain ⟨-, -, -, hjt⟩ := mem_numbersOf.1 hj
      exact Option.some.inj (his.symm.trans hjt)
  · exact List.nodup_nil

/-- No file is indexed twice. -/
theorem nodup_gathered (hloaded : a.registry.loaded.Nodup) (name : String) (k : ScopeKind) :
    (a.gathered name k).Nodup := by
  refine List.nodup_flatMap.2 ⟨fun n _ => a.nodup_gatheredIn name k n, ?_⟩
  refine hloaded.imp fun {m n} hmn r hm hn => hmn ?_
  exact (mem_gatheredIn.1 hm).1.symm.trans (mem_gatheredIn.1 hn).1

/-! ## What a tree declares is found -/

theorem mem_answer {n : Nat} (hn : n ∈ a.registry.loaded) {f : SourceFile} (hf : a.file? n = some f)
    {tag : String} {name : Option String} {i : Nat} (hi : i ∈ f.outline.answer 0 tag name) :
    (⟨n, i⟩ : SymbolRef) ∈ a.answer tag name := by
  refine List.mem_flatMap.2 ⟨n, hn, ?_⟩
  simp only [answerIn, hf]
  exact List.mem_map.2 ⟨i, hi, rfl⟩

/-- A found namespace gives the merged one its classes. -/
theorem exists_mergedNamespace? {name : String} {n i : Nat} {f : SourceFile} {e : Entity}
    (hf : a.file? n = some f) (he : f.outline.get? i = some e)
    (h : (⟨n, i⟩ : SymbolRef) ∈
      a.answer Kind.namespaceDecl.tag (some (Qualified.canonical name))) :
    ∃ m, a.mergedNamespace? name = some m ∧
      ∀ j ∈ e.members .classes, (⟨n, j⟩ : SymbolRef) ∈ m.lists .classes := by
  rw [mergedNamespace?_eq, if_neg (List.ne_nil_of_mem h)]
  refine ⟨_, rfl, fun j hj => ?_⟩
  simp only [isMerged, ↓reduceIte]
  refine List.mem_flatMap.2 ⟨⟨n, i⟩, h, ?_⟩
  simp only [membersOf, hf, Option.bind_some, he]
  exact List.mem_map.2 ⟨j, hj, rfl⟩

/-- If a walk of the tree of an indexed file comes to a namespace node, a search of the file finds
its entity.  If the name is stable, the index finds it too, with its classes, and after a snapshot
it still has its name; with any other name it gets another one. -/
theorem finds_declared {n : Nat} (hn : n ∈ a.registry.loaded) {f : SourceFile}
    (hf : a.file? n = some f) {tree : Value} (htree : f.FromTree tree) (hd : f.detached = false)
    {heading : Heading} {body : List Node}
    (hw : Node.Walked false (Node.ofValue (statements tree)) (.namespaceNode heading body))
    {name : String} (hname : heading.name.getD "" = name) :
    ∃ i e, f.outline.get? i = some e ∧ e.kind = .namespaceDecl ∧
      e.name = some (Qualified.canonical name) ∧ e.span = heading.span ∧
      i ∈ f.outline.select 0 Kind.namespaceDecl.tag (some name) 0 ∧
      (Qualified.IsStable name → ∃ m, a.mergedNamespace? name = some m ∧
        ∀ j ∈ e.members .classes, (⟨n, j⟩ : SymbolRef) ∈ m.lists .classes) ∧
      ∃ g x, (f.snapshot a.registry.nameOf).restore = .ok g ∧ g.outline.get? i = some x ∧
        (x.name = e.name ↔ Qualified.IsStable name) := by
  obtain ⟨i, e, hpos, he, hkind, hcanonical, hspan⟩ := htree.exists_namespace hd hw
  rw [hname] at hcanonical
  have hanswer : ∀ sought, e.name = some (Qualified.canonical sought) →
      i ∈ f.outline.answer 0 Kind.namespaceDecl.tag (some sought) := by
    intro sought hsought
    rw [htree.grouped.answer_eq]
    exact mem_numbersOf.2 ⟨e, he, hkind, hsought⟩
  refine ⟨i, e, he, hkind, hcanonical, hspan, ?_, ?_, ?_⟩
  · rw [f.outline.select_eq_cut, cut_of_nonpos (Int.le_refl 0)]
    exact hanswer name hcanonical
  · intro hstable
    refine exists_mergedNamespace? hf he (mem_answer hn hf (hanswer _ ?_))
    rw [hstable]
    exact hcanonical
  · obtain ⟨origin, hmade⟩ := htree.made hd
    obtain ⟨g, hg⟩ := hmade.sound.toSoundOutline.exists_restore_snapshot a.registry.nameOf hd
    obtain ⟨x, hx, hxname⟩ := FileSnapshot.name_restored hg hpos
      (by rw [getElem?_inOrder_snapshot a.registry.nameOf hd, he, Option.map_some])
    refine ⟨g, x, hg, hx, ?_⟩
    rw [hxname, e.restoredName_namespace i a.registry.nameOf hkind hcanonical, hcanonical,
      Option.some_inj, Qualified.IsStable]

end Atlas

namespace Course

theorem Used.sound {c : Course} (hc : c.Used) : Sound c := by
  induction hc with
  | fresh directory settings realpath => exact (Reachable.fresh directory settings realpath).sound
  | perform _ move ih => exact ih.perform move
  | scan _ h ih =>
    have hdev := h.develops ih.registry
    exact ih.aged hdev.tidy hdev.ages

/-- Whatever has happened to an index whose files come from trees, a namespace with a stable name is
found exactly if an indexed file has one.  The merged namespace lists the classes and the functions
that lie in namespaces of the name, each once and in order, and no methods.  All spellings of a name
without separators at its ends give the same result. -/
theorem Used.mergedNamespace_exact {c : Course} (hc : c.Used)
    (hfiles : ∀ n ∈ c.atlas.registry.loaded, ∀ f, c.atlas.file? n = some f →
      ∃ tree, f.FromTree tree)
    {name : String} (hname : Qualified.IsStable name) :
    (c.atlas.mergedNamespace? name = none ↔
      ∀ n ∈ c.atlas.registry.loaded, ∀ f, c.atlas.file? n = some f →
        ∀ i e, f.outline.get? i = some e → e.kind = .namespaceDecl →
          e.name ≠ some (Qualified.canonical name)) ∧
    (∀ m, c.atlas.mergedNamespace? name = some m → m.name = Qualified.canonical name ∧
      ∀ list k, (list = .classes ∧ k = .classScope) ∨
          (list = .functions ∧ k = .functionScope false) →
        m.lists list = c.atlas.gathered (Qualified.canonical name) k ∧ (m.lists list).Nodup ∧
        ∀ r, r ∈ m.lists list ↔ r.file ∈ c.atlas.registry.loaded ∧
          ∃ f x s e, c.atlas.file? r.file = some f ∧ f.outline.get? r.entity = some x ∧
            x.scopeKind? = some k ∧ f.outline.namespaceOf r.entity = some s ∧
            f.outline.get? s = some e ∧ e.kind = .namespaceDecl ∧
            e.name = some (Qualified.canonical name)) ∧
    (name.toList.head? ≠ some Qualified.separator →
      name.toList.getLast? ≠ some Qualified.separator →
      ∀ spelling ∈ Qualified.spellings name,
        c.atlas.mergedNamespace? spelling = c.atlas.mergedNamespace? name) := by
  have hgrouped : c.atlas.IsGrouped := by
    intro n hn f hf
    obtain ⟨tree, htree⟩ := hfiles n hn f hf
    exact htree.grouped
  have hmem : ∀ r,
      r ∈ c.atlas.answer Kind.namespaceDecl.tag (some (Qualified.canonical name)) ↔ _ :=
    fun r => Atlas.mem_answer_namespaces hgrouped
  rw [hname] at hmem
  refine ⟨?_, ?_, ?_⟩
  · rw [Atlas.mergedNamespace?_eq, ite_eq_left_iff]
    constructor
    · intro hnone n hn f hf i e he hkind hsame
      have hfound := (hmem ⟨n, i⟩).2 ⟨hn, f, e, hf, he, hkind, hsame⟩
      exact absurd (hnone (List.ne_nil_of_mem hfound)) (Option.some_ne_none _)
    · intro hnone hfound
      obtain ⟨r, hr⟩ := List.exists_mem_of_ne_nil _ hfound
      obtain ⟨hn, f, e, hf, he, hkind, hsame⟩ := (hmem r).1 hr
      exact absurd hsame (hnone r.file hn f hf r.entity e he hkind)
  · intro m hm
    rw [Atlas.mergedNamespace?_eq, hname] at hm
    split at hm
    · cases hm
    · cases hm
      refine ⟨rfl, fun list k hlist => ?_⟩
      have hshared : list.sharedKind? = some k ∧ Atlas.isMerged list = true := by
        rcases hlist with ⟨rfl, rfl⟩ | ⟨rfl, rfl⟩ <;> exact ⟨rfl, rfl⟩
      have hlists := Atlas.flatMap_membersOf hgrouped (Qualified.canonical name) hshared.1
      rw [hname] at hlists
      simp only [hshared.2, ↓reduceIte, hlists]
      exact ⟨trivial, Atlas.nodup_gathered hc.sound.registry.nodup_loaded _ k,
        fun r => Atlas.mem_gathered⟩
  · intro hhead hlast spelling hspelling
    have hplain : name ∈ Qualified.spellings name := List.mem_cons_self
    rw [Atlas.mergedNamespace?_eq, Atlas.mergedNamespace?_eq,
      Qualified.canonical_spelling hhead hlast hspelling,
      Qualified.canonical_spelling hhead hlast hplain]

/-! ## Files of trees only -/

theorem isLasting_fromTree : IsLasting fun f => ∃ tree, f.FromTree tree where
  detach := fun ⟨tree, h⟩ => ⟨tree, h.detached⟩
  rename := fun name ⟨tree, h⟩ => ⟨tree, h.renamed name⟩
  relink := fun resolve ⟨tree, h⟩ => ⟨tree, h.relinked resolve⟩

/-- An index that takes over no snapshot has files of trees only. -/
theorem fromTree_performAll (directory : String) (settings : Settings) {moves : List Move}
    (h : ∀ move ∈ moves, ∀ data, move ≠ .adopt data) :
    Registry.AllFiles (fun f => ∃ tree, f.FromTree tree)
      ((fresh directory settings).performAll moves).atlas.registry := by
  suffices hstep : ∀ c : Course,
      Registry.AllFiles (fun f => ∃ tree, f.FromTree tree) c.atlas.registry →
      Registry.AllFiles (fun f => ∃ tree, f.FromTree tree) (c.performAll moves).atlas.registry by
    refine hstep _ fun n f hf => ?_
    cases hf
  induction moves with
  | nil => exact fun _ hc => hc
  | cons move rest ih =>
    obtain ⟨hmove, hrest⟩ := List.forall_mem_cons.1 h
    refine fun c hc => ih hrest _ ?_
    exact allFiles_perform isLasting_fromTree
      (fun name tree contentHash mtime size => ⟨tree, .parsed name contentHash mtime size⟩) hc
      fun data hdata => absurd hdata (hmove data)

/-- A namespace with a class that has a method, a class in a block, and a function. -/
def shopTree : Value :=
  .list [.object [("kind", .str "namespace"), ("name", .str "App"), ("children", .list
    [.object [("kind", .str "class"), ("name", .str "Cart"), ("body", .list
      [.object [("kind", .str "method"), ("name", .str "add")]])],
     .object [("kind", .str "if"), ("body", .list
      [.object [("kind", .str "class"), ("name", .str "Late")]])],
     .object [("kind", .str "function"), ("name", .str "total")]])]]

/-- The moves that parse a source without content, whose tree is given. -/
def parsing (name : String) (number : Nat) (tree : Value) : List Move :=
  [.parse { name := name }, .begin number pairWorld,
    .finish number (.parsed (fun _ _ => .ok tree) { text := "", content := [], mtime := default })]

/-- An index of two sources with the same tree. -/
def shops : Course :=
  pair.performAll (parsing "a.php" 0 shopTree ++ parsing "b.php" 1 shopTree)

/-- The namespace is found in both files, however it is spelled. -/
theorem mergedNamespace_exact_shops :
    ∃ m, shops.atlas.mergedNamespace? "App" = some m ∧
      m.lists .classes = [⟨0, 3⟩, ⟨0, 6⟩, ⟨1, 3⟩, ⟨1, 6⟩] ∧
      m.lists .functions = [⟨0, 7⟩, ⟨1, 7⟩] ∧
      shops.atlas.mergedNamespace? "\\App\\" = some m := by
  have hused : shops.Used := ((Reachable.fresh "/src" {}).performAll _).used
  have hfiles : Registry.AllFiles (fun f => ∃ tree, f.FromTree tree) shops.atlas.registry := by
    refine fromTree_performAll "/src" {} fun move hmove data hdata => ?_
    subst hdata
    simp [parsing] at hmove
  obtain ⟨-, hfound, hspelled⟩ := hused.mergedNamespace_exact
    (fun n _ f hf => hfiles n f hf) (show Qualified.IsStable "App" by decide)
  have hsome : (shops.atlas.mergedNamespace? "App").isSome = true := by decide +kernel
  obtain ⟨m, hm⟩ := Option.isSome_iff_exists.1 hsome
  obtain ⟨-, hlists⟩ := hfound m hm
  refine ⟨m, hm, ?_, ?_, ?_⟩
  · rw [(hlists .classes _ (.inl ⟨rfl, rfl⟩)).1]
    decide +kernel
  · rw [(hlists .functions _ (.inr ⟨rfl, rfl⟩)).1]
    decide +kernel
  · rw [hspelled (by decide) (by decide) "\\App\\" (by decide), hm]

/-- The file of a load that is awaited gets the next number. -/
theorem exists_file?_settle {a : Atlas} {load : Load}
    (hawaits : a.registry.awaits load.name load.number = true)
    (hreplaced : a.registry.replaced.get? load.name = none) (tree : Value)
    (opened : OpenedSource) :
    ∃ f, (a.settle (fun _ _ => .ok tree) load opened).1.file? a.registry.files.size = some f ∧
      f.FromTree tree ∧ f.detached = false := by
  generalize hf : (ofTree load.name tree (some (Sha256.hex opened.content)) (some opened.mtime)
    (some opened.content.length)).1 = f
  have htree : f.FromTree tree := hf ▸ .parsed load.name _ _ _
  have hd : f.detached = false := hf ▸ (upToLinks_ofTree load.name tree _ _ _).detached
  have hfile : (a.registry.succeed load.name load.number f).1.files[a.registry.files.size]? =
      some f := by
    refine Registry.file_succeed_of_awaited hawaits f fun n hn => ?_
    rw [hreplaced] at hn
    cases hn
  have hnumber : (a.registry.succeed load.name load.number f).2 = a.registry.files.size := by
    rw [Registry.succeed_of_awaited hawaits]
  obtain ⟨b, hb, hsettle⟩ : ∃ b : Atlas, b.registry = a.registry ∧
      (a.settle (fun _ _ => .ok tree) load opened).1 = (b.succeed load f).1 :=
    ⟨a.noteAll _, rfl, by rw [← hf]; rfl⟩
  have hregistry := b.registry_succeed load f
  rw [hb] at hregistry
  rw [hsettle, Atlas.file?]
  rcases hregistry with hr | hr
  · rw [hr]
    exact ⟨f, hfile, htree, hd⟩
  · have hlinks : UpToLinks f (f.relink
        (a.registry.succeed load.name load.number f).1.resolveCandidate).1 := f.upToLinks_relink
    rw [hr, Registry.files_relink, hfile, Option.map_some, if_pos hnumber]
    exact ⟨_, rfl, htree.relinked _, hlinks.detached.trans hd⟩

/-- A source that was not indexed has its file once it was parsed. -/
theorem exists_file?_parsing {c : Course} {name : String} {number n : Nat} (tree : Value)
    (hnumber : c.atlas.registry.loads = number) (hsize : c.atlas.registry.files.size = n)
    (hentry : c.atlas.registry.entries.get? name = none)
    (hreplaced : c.atlas.registry.replaced.get? name = none) :
    ∃ f, (c.performAll (parsing name number tree)).atlas.file? n = some f ∧ f.FromTree tree ∧
      f.detached = false := by
  subst hnumber hsize
  have hstart : c.perform (.parse { name := name }) = { c with
      atlas := (c.atlas.start { request := { name := name } }).1
      started := (c.atlas.start { request := { name := name } }).2 :: c.started } := by
    rw [perform, Atlas.decideParse, hentry]
    rfl
  generalize hload : (c.atlas.start { request := { name := name } }).2 = load at hstart
  have hnumber : load.number = c.atlas.registry.loads := by
    rw [← hload]
    rfl
  have hname : load.name = name := by
    rw [← hload]
    rfl
  have hfind : ∀ loads, find (load :: loads) c.atlas.registry.loads = some load := by
    intro loads
    rw [find, List.find?_cons_of_pos]
    exact decide_eq_true hnumber
  have hbegin : (c.perform (.parse { name := name })).perform
      (.begin c.atlas.registry.loads pairWorld) = { c with
        atlas := ((c.atlas.start { request := { name := name } }).1.openSource
          pairWorld load).1
        started := without (load :: c.started) c.atlas.registry.loads
        working := load :: c.working } := by
    rw [hstart, perform, hfind]
  have hparsed : (c.performAll (parsing name c.atlas.registry.loads tree)).atlas =
      (((c.atlas.start { request := { name := name } }).1.openSource pairWorld load).1.settle
        (fun _ _ => .ok tree) load { text := "", content := [], mtime := default }).1 := by
    show (((c.perform (.parse { name := name })).perform
      (.begin c.atlas.registry.loads pairWorld)).perform
      (.finish c.atlas.registry.loads (.parsed (fun _ _ => .ok tree)
        { text := "", content := [], mtime := default }))).atlas = _
    rw [hbegin, perform]
    simp only [hfind]
    rfl
  have hregistry := (c.atlas.start { request := { name := name } }).1.registry_openSource
    pairWorld load
  have hawaits : ((c.atlas.start { request := { name := name } }).1.openSource
      pairWorld load).1.registry.awaits load.name load.number = true := by
    rw [hregistry, hname, hnumber]
    exact c.atlas.registry.awaits_start name none
  have hnone : ((c.atlas.start { request := { name := name } }).1.openSource
      pairWorld load).1.registry.replaced.get? load.name = none := by
    rw [hregistry, hname]
    exact hreplaced
  have hsettled := exists_file?_settle hawaits hnone tree
    { text := "", content := [], mtime := default }
  rw [hregistry] at hsettled
  rw [hparsed]
  exact hsettled

/-- The namespace with a stable name is found with its classes, and keeps its name. -/
theorem finds_declared_shops :
    ∃ f i e, shops.atlas.file? 1 = some f ∧ f.outline.get? i = some e ∧ e.name = some "\\App" ∧
      (∃ m, shops.atlas.mergedNamespace? "App" = some m ∧
        ∀ j ∈ e.members .classes, (⟨1, j⟩ : SymbolRef) ∈ m.lists .classes) ∧
      ∃ g x, (f.snapshot shops.atlas.registry.nameOf).restore = .ok g ∧
        g.outline.get? i = some x ∧ x.name = e.name := by
  obtain ⟨heading, body, hname, hw⟩ : ∃ heading body, heading.name.getD "" = "App" ∧
      Node.Walked false (Node.ofValue (statements shopTree)) (.namespaceNode heading body) :=
    ⟨_, _, rfl, .here (.head _)⟩
  have hstable : Qualified.IsStable "App" := by decide
  obtain ⟨f, hf, htree, hd⟩ : ∃ f, shops.atlas.file? 1 = some f ∧ f.FromTree shopTree ∧
      f.detached = false := by
    rw [shops, performAll, List.foldl_append]
    exact exists_file?_parsing shopTree (by decide +kernel) (by decide +kernel)
      (by decide +kernel) (by decide +kernel)
  obtain ⟨i, e, he, -, hcanonical, -, -, hmerged, g, x, hg, hx, hkept⟩ :=
    Atlas.finds_declared (by decide +kernel) hf htree hd hw hname
  exact ⟨f, i, e, hf, he, hcanonical.trans (by decide), hmerged hstable, g, x, hg, hx,
    hkept.2 hstable⟩

/-- A namespace with a class, whose name has two separators at its end. -/
def strayTree : Value :=
  .list [.object [("kind", .str "namespace"), ("name", .str "App\\\\"), ("children", .list
    [.object [("kind", .str "class"), ("name", .str "Cart")]])]]

/-- An index of a source with that tree. -/
def strays : Course :=
  pair.performAll (parsing "a.php" 0 strayTree)

/-- With two separators at its end, a declared name is found in the file and not in the index, and a
snapshot changes it. -/
theorem loses_unstable :
    strays.Used ∧ 0 ∈ strays.atlas.registry.loaded ∧
    (∃ heading body, heading.name = some "App\\\\" ∧
      Node.Walked false (Node.ofValue (statements strayTree)) (.namespaceNode heading body)) ∧
    ∃ f e g x, strays.atlas.file? 0 = some f ∧ f.FromTree strayTree ∧ f.detached = false ∧
      f.outline.get? 2 = some e ∧ e.kind = .namespaceDecl ∧ e.name = some "\\App\\" ∧
      2 ∈ f.outline.select 0 Kind.namespaceDecl.tag (some "App\\\\") 0 ∧
      strays.atlas.mergedNamespace? "App\\\\" = none ∧
      (f.snapshot strays.atlas.registry.nameOf).restore = .ok g ∧
      g.outline.get? 2 = some x ∧ x.name = some "\\App" := by
  obtain ⟨f, hf, htree, hd⟩ : ∃ f, strays.atlas.file? 0 = some f ∧ f.FromTree strayTree ∧
      f.detached = false :=
    exists_file?_parsing strayTree rfl rfl rfl rfl
  have hentity : ((strays.atlas.file? 0).bind fun f => f.outline.get? 2).map
      (fun e => (e.kind, e.name)) = some (.namespaceDecl, some "\\App\\") := by decide +kernel
  have hselect : strays.atlas.selectIn Kind.namespaceDecl.tag (some "App\\\\") 0 0 = [⟨0, 2⟩] := by
    decide +kernel
  have hmerged : (strays.atlas.mergedNamespace? "App\\\\").isNone = true := by decide +kernel
  rw [hf, Option.bind_some] at hentity
  obtain ⟨e, he, hstated⟩ := Option.map_eq_some_iff.1 hentity
  obtain ⟨hkind, hname⟩ := Prod.mk.inj hstated
  simp only [Atlas.selectIn, hf] at hselect
  have hfound : 2 ∈ f.outline.select 0 Kind.namespaceDecl.tag (some "App\\\\") 0 := by
    obtain ⟨i, hi, hsame⟩ := List.mem_map.1 (hselect ▸ List.mem_singleton_self (⟨0, 2⟩ : SymbolRef))
    obtain rfl : i = 2 := congrArg SymbolRef.entity hsame
    exact hi
  obtain ⟨origin, hmade⟩ := htree.made hd
  obtain ⟨g, hg⟩ :=
    hmade.sound.toSoundOutline.exists_restore_snapshot strays.atlas.registry.nameOf hd
  obtain ⟨x, hx, hrestored⟩ := FileSnapshot.name_restored hg Nat.two_pos
    (by rw [getElem?_inOrder_snapshot strays.atlas.registry.nameOf hd, he, Option.map_some])
  rw [e.restoredName_namespace 2 _ hkind hname] at hrestored
  exact ⟨((Reachable.fresh "/src" {}).performAll _).used, by decide +kernel,
    ⟨_, _, rfl, .here (.head _)⟩, f, e, g, x, hf, htree, hd, he, hkind, hname, hfound,
    Option.isNone_iff_eq_none.1 hmerged, hg, hx, hrestored.trans (by decide)⟩

end Course

end SymbolAtlas
