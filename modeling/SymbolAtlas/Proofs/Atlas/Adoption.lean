import Mathlib
import SymbolAtlas.Proofs.Atlas.RoundTrip

/-!
# Taking over a snapshot is all or nothing

A value that is no snapshot, or whose files are not consistent, is turned down before anything has
changed.  What can still fail afterwards is the linking of the restored files, and it fails exactly
if a directive of the snapshot led to something that is no name (`FileSnapshot.relink_restore_iff`).
So taking over a snapshot whose directives led to names, or nowhere, is all or nothing
(`Atlas.adopt_atomic`).  Any other one is turned down only after everything was replaced
(`Atlas.adopt_of_badName`).
-/

namespace SymbolAtlas

/-! ## Where the directives of a snapshot led -/

/-- An entity that is a directive led to a name before, or to nothing. -/
def EntitySnapshot.ledToName (e : EntitySnapshot) : Bool :=
  e.kind ≠ .external || (e.payloadField "resolved").isNameOrFalsy

/-- Every directive of the file led to a name before, or to nothing. -/
def FileSnapshot.linksByName (s : FileSnapshot) : Bool :=
  s.entities.all EntitySnapshot.ledToName

/-- Every directive of every file led to a name before, or to nothing. -/
def AtlasSnapshot.linksByName (c : AtlasSnapshot) : Bool :=
  c.files.all fun entry => entry.2.linksByName

namespace FileSnapshot

open SourceFile

theorem mem_inOrder {s : FileSnapshot} {e : EntitySnapshot} : e ∈ s.inOrder ↔ e ∈ s.entities :=
  (List.mergeSort_perm s.entities _).mem_iff

theorem isSome_inclusion?_bare (e : EntitySnapshot) :
    e.bare.inclusion?.isSome = true ↔ e.kind = .external := by
  unfold EntitySnapshot.bare EntitySnapshot.restored EntitySnapshot.detail?
  cases e.kind <;> simp [Entity.inclusion?]

section Restored

variable {s : FileSnapshot} {f : SourceFile} (h : s.restore = .ok f)

include h

/-- The directives of a restored file are the entities that are listed as such. -/
theorem isSome_directive?_restore {i : Nat} {e : EntitySnapshot} (he : s.inOrder[i]? = some e) :
    (f.directive? i).isSome = true ↔ e.kind = .external := by
  obtain ⟨o, ho, hlinks⟩ := upToLinks_restore h
  obtain ⟨root, others, -, -, -, -, -, hs, -, hkind, -⟩ := outline?_eq_ok.1 ho
  obtain ⟨-, -, root', others', hs', hbares⟩ := outline?_spec ho
  rw [hs] at hs' he
  cases hs'
  have hdirective : (f.directive? i).isSome =
      (((s.start root).bares ++ others.map EntitySnapshot.bare)[i]?.bind
        Entity.inclusion?).isSome := by
    rw [← hbares, ← show f.outline.bares = o.bares from hlinks.bares, ← bare_directive?,
      Option.isSome_map]
  rw [hdirective, bares_start]
  cases i with
  | zero =>
    cases he
    simp [Entity.inclusion?, hkind]
  | succ j =>
    have hj : others[j]? = some e := he
    simp only [List.cons_append, List.nil_append, List.getElem?_cons_succ, List.getElem?_map, hj,
      Option.map_some, Option.bind_some]
    exact isSome_inclusion?_bare e

/-- A restored file can be linked if and only if its directives led to names before, or to
nothing. -/
theorem relink_restore_iff (r : Registry) :
    (∃ k, (f.relink r.resolveCandidate).2 = .ok k) ↔ s.linksByName = true := by
  have hqueues := queues_restore h
  rw [relink_ok_iff, linksByName, List.all_eq_true]
  constructor
  · intro hall e he
    rw [EntitySnapshot.ledToName, Bool.or_eq_true, decide_eq_true_eq]
    by_cases hkind : e.kind = .external
    · right
      obtain ⟨i, hi⟩ := List.mem_iff_getElem?.1 (mem_inOrder.2 he)
      have hbefore : s.before i = e.payloadField "resolved" := by simp [before, hi]
      obtain ⟨inc, hinc⟩ :=
        Option.isSome_iff_exists.1 ((isSome_directive?_restore h hi).2 hkind)
      rcases hqueues.complete hinc with ⟨q, hq, rfl⟩ | ⟨hempty, -⟩
      · obtain ⟨inc', -, hcandidates⟩ := hqueues.sound q hq
        have hhit := hall q hq
        rwa [hcandidates, Registry.firstHit_candidates_ok_iff, hbefore] at hhit
      · -- without candidates there is nothing that the directive led to
        rw [← hbefore, ← Registry.firstHit_candidates_ok_iff (r := r), hempty]
        exact ⟨none, rfl⟩
    · exact Or.inl hkind
  · intro hall q hq
    obtain ⟨inc, hinc, hcandidates⟩ := hqueues.sound q hq
    rw [hcandidates, Registry.firstHit_candidates_ok_iff, before]
    cases he : s.inOrder[q.entity]? with
    | none => rfl
    | some e =>
      have hkind : e.kind = .external :=
        (isSome_directive?_restore h he).1 (by rw [hinc]; rfl)
      have hled := hall e (mem_inOrder.1 (List.mem_of_getElem? he))
      simpa [EntitySnapshot.ledToName, hkind] using hled

end Restored

end FileSnapshot

/-! ## Linking what was entered -/

theorem SourceFile.relink_rename_ok_iff {f : SourceFile} {name : String}
    {resolve : Value → Except BadName (Option Nat)} :
    (∃ k, ((f.rename name).relink resolve).2 = .ok k) ↔ ∃ k, (f.relink resolve).2 = .ok k := by
  rw [relink_ok_iff, relink_ok_iff]
  rfl

namespace Registry

/-- What holds of every entered file, and of the files before, holds of every file then. -/
theorem loaded_enterAll {P : SourceFile → Prop} {files : Ledger SourceFile}
    (hfiles : ∀ entry ∈ files, P (entry.2.rename entry.1)) {r : Registry}
    (hr : ∀ n ∈ r.loaded, ∀ f, r.files[n]? = some f → P f) :
    ∀ n ∈ (files.foldl (fun r entry => r.enter entry.1 entry.2) r).loaded,
      ∀ f, (files.foldl (fun r entry => r.enter entry.1 entry.2) r).files[n]? = some f → P f := by
  refine List.foldlRecOn (motive := fun s : Registry =>
    ∀ n ∈ s.loaded, ∀ f, s.files[n]? = some f → P f) files _ hr ?_
  intro s hs entry hentry n hn f hf
  rw [files_enter] at hf
  split at hf
  · cases hf
    exact hfiles entry hentry
  · rename_i hne
    rw [loaded_eq, mem_loadedOf] at hn
    obtain ⟨k, hk⟩ := hn
    rcases Ledger.mem_of_mem_set hk with hold | ⟨-, hnew⟩
    · exact hs n (by rw [loaded_eq, mem_loadedOf]; exact ⟨k, hold⟩) f hf
    · cases hnew
      exact absurd rfl hne

/-- The file with a number is an empty shell. -/
def IsShell (r : Registry) (n : Nat) : Prop :=
  ∃ f, r.files[n]? = some f ∧ f.detached = true

theorem files_modifyFile (r : Registry) (m n : Nat) (change : SourceFile → SourceFile) :
    (r.modifyFile m change).files[n]? = if m = n then r.files[n]?.map change else r.files[n]? :=
  Array.getElem?_modify

theorem isShell_modifyFile {r : Registry} {n : Nat} (m : Nat) (h : r.IsShell n) :
    (r.modifyFile m SourceFile.detach).IsShell n := by
  obtain ⟨f, hf, hd⟩ := h
  rw [IsShell, files_modifyFile, hf]
  split
  · exact ⟨f.detach, rfl, rfl⟩
  · exact ⟨f, rfl, hd⟩

/-- Emptying several files leaves each of them a shell. -/
theorem isShell_detachAll (ns : List Nat) {r : Registry} {n : Nat} (hlt : n < r.files.size)
    (h : n ∈ ns ∨ r.IsShell n) :
    (ns.foldl (fun r n => r.modifyFile n SourceFile.detach) r).IsShell n := by
  induction ns generalizing r with
  | nil =>
    rcases h with h | h
    · cases h
    · exact h
  | cons m rest ih =>
    have hsize : (r.modifyFile m SourceFile.detach).files.size = r.files.size := Array.size_modify
    refine ih (by rw [hsize]; exact hlt) ?_
    rcases h with h | h
    · rcases List.mem_cons.1 h with rfl | hrest
      · refine Or.inr ⟨r.files[n].detach, ?_, rfl⟩
        rw [files_modifyFile, if_pos rfl, Array.getElem?_eq_getElem hlt, Option.map_some]
      · exact Or.inl hrest
    · exact Or.inr (isShell_modifyFile m h)

theorem isShell_enterAll {files : Ledger SourceFile} {r : Registry} {n : Nat} (h : r.IsShell n) :
    (files.foldl (fun r entry => r.enter entry.1 entry.2) r).IsShell n := by
  refine List.foldlRecOn (motive := (IsShell · n)) files _ h ?_
  rintro s ⟨f, hf, hd⟩ entry -
  have hlt : n < s.files.size := (Array.getElem?_eq_some_iff.1 hf).1
  exact ⟨f, by rw [files_enter, if_neg (by omega), hf], hd⟩

theorem isShell_relink {r : Registry} {n : Nat} (m : Nat) (h : r.IsShell n) :
    (r.relink m).1.IsShell n := by
  obtain ⟨f, hf, hd⟩ := h
  rw [IsShell, files_relink, hf]
  refine ⟨_, rfl, ?_⟩
  split
  · exact f.upToLinks_relink.detached.trans hd
  · exact hd

/-- Replacing everything empties what was indexed. -/
theorem isShell_replaceAll {r : Registry} (directory : Path) (files : Ledger SourceFile) {n : Nat}
    (hn : n ∈ r.loaded) (hlt : n < r.files.size) : (r.replaceAll directory files).IsShell n := by
  refine isShell_enterAll ?_
  obtain ⟨f, hf, hd⟩ := isShell_detachAll (r.loaded ++ r.replaced.values) hlt
    (Or.inl (List.mem_append_left _ hn))
  exact ⟨f, hf, hd⟩

end Registry

namespace Atlas

open SourceFile

/-- The atlas whose files were replaced by restored ones. -/
def replaced (a : Atlas) (snapshot : AtlasSnapshot) (files : Ledger SourceFile) : Atlas :=
  a.onRegistry (·.replaceAll (Path.parse snapshot.directory) files)

section Replaced

variable (a : Atlas) {snapshot : AtlasSnapshot} {files : Ledger SourceFile}
  (hfiles : restoreAll snapshot.files = .ok files)

include hfiles

/-- The files of a snapshot whose directives led to names are linked. -/
theorem relinkEach_replaced (hnames : snapshot.linksByName = true) :
    ∃ b total, (a.replaced snapshot files).relinkEach
      (a.replaced snapshot files).registry.loaded 0 = (b, .ok total) := by
  rw [relinkEach_ok_iff]
  refine Registry.loaded_enterAll (P := fun f =>
    ∃ k, (f.relink (a.replaced snapshot files).registry.resolveCandidate).2 = .ok k) ?_ ?_
  · intro entry hentry
    obtain ⟨s, hs, hrestore⟩ := restore_of_mem_restoreAll hfiles hentry
    rw [relink_rename_ok_iff, FileSnapshot.relink_restore_iff hrestore]
    exact List.all_eq_true.1 hnames _ hs
  · intro n hn
    cases hn

/-- If the files of a snapshot are linked, then their directives led to names. -/
theorem linksByName_of_relinkEach (hdistinct : snapshot.files.keys.Nodup) {b : Atlas} {total : Nat}
    (hlinked : (a.replaced snapshot files).relinkEach
      (a.replaced snapshot files).registry.loaded 0 = (b, .ok total)) :
    snapshot.linksByName = true := by
  have hall := relinkEach_ok_iff.1 ⟨b, total, hlinked⟩
  obtain ⟨hentered, -⟩ := a.registry.replaceAll_spec (Path.parse snapshot.directory)
    (keys_restoreAll hfiles ▸ hdistinct)
  have hboth := forall₂_trans (T := fun x y => ∃ f : SourceFile, x.2.restore = .ok f ∧
    (a.replaced snapshot files).file? y.2 = some (f.rename x.1)) ?_ (forall₂_restoreAll hfiles)
    hentered
  · rw [AtlasSnapshot.linksByName, List.all_eq_true]
    intro x hx
    obtain ⟨y, hy, f, hf, hfile⟩ := forall₂_mem_right hboth.flip hx
    have hlinks := hall y.2 (List.mem_map.2 ⟨y, hy, rfl⟩) _ hfile
    rwa [relink_rename_ok_iff, FileSnapshot.relink_restore_iff hf] at hlinks
  · rintro x y z ⟨hxy, hrestore⟩ ⟨-, hfile⟩
    exact ⟨y.2, hrestore, hxy ▸ hfile⟩

end Replaced

/-- The value is a snapshot, and each of its files is consistent. -/
def IsConsistentSnapshot (data : Value) (snapshot : AtlasSnapshot) : Prop :=
  AtlasSnapshot.check data = .ok snapshot ∧ ∃ files, restoreAll snapshot.files = .ok files

section Adopt

variable (a : Atlas) {data : Value}

theorem adopt_of_check {snapshot : AtlasSnapshot} (htruthy : data.truthy = true)
    (h : AtlasSnapshot.check data = .ok snapshot) : a.adopt data = a.takeOver snapshot := by
  rw [adopt, if_pos htruthy, h]

/-- A consistent snapshot whose directives led to names is taken over. -/
theorem adopt_of_linksByName {snapshot : AtlasSnapshot} (htruthy : data.truthy = true)
    (h : IsConsistentSnapshot data snapshot) (hnames : snapshot.linksByName = true) :
    (a.adopt data).2 = .ok () := by
  obtain ⟨hcheck, files, hfiles⟩ := h
  obtain ⟨b, total, hlinked⟩ := a.relinkEach_replaced hfiles hnames
  unfold replaced at hlinked
  rw [a.adopt_of_check htruthy hcheck, takeOver, hfiles]
  simp only [hlinked]

/-- What is no consistent snapshot is turned down, and nothing changes. -/
theorem adopt_of_not_consistent (htruthy : data.truthy = true)
    (h : ∀ snapshot, ¬ IsConsistentSnapshot data snapshot) :
    (∃ fault, (a.adopt data).2 = .error fault) ∧ (a.adopt data).1 = a := by
  rw [adopt, if_pos htruthy]
  cases hcheck : AtlasSnapshot.check data with
  | error issues => exact ⟨⟨_, rfl⟩, rfl⟩
  | ok snapshot =>
    simp only [takeOver]
    cases hfiles : restoreAll snapshot.files with
    | error failure => exact ⟨⟨_, rfl⟩, rfl⟩
    | ok files => exact absurd ⟨hcheck, files, hfiles⟩ (h snapshot)

/-- Taking over a value is all or nothing, if the directives of a consistent snapshot led to names
or to nothing: either it succeeds, or the atlas is what it was.  It succeeds exactly if there is
nothing to take over, or a consistent snapshot. -/
theorem adopt_atomic
    (hnames : ∀ snapshot, IsConsistentSnapshot data snapshot → snapshot.linksByName = true) :
    ((a.adopt data).2 = .ok () ∨
      (∃ fault, (a.adopt data).2 = .error fault) ∧ (a.adopt data).1 = a) ∧
    ((a.adopt data).2 = .ok () ↔
      data.truthy = false ∨ ∃ snapshot, IsConsistentSnapshot data snapshot) := by
  cases htruthy : data.truthy with
  | false =>
    have hok : (a.adopt data).2 = .ok () := by
      rw [adopt, htruthy]
      rfl
    simp [hok]
  | true =>
    by_cases h : ∃ snapshot, IsConsistentSnapshot data snapshot
    · obtain ⟨snapshot, hsnapshot⟩ := h
      have hok := a.adopt_of_linksByName htruthy hsnapshot (hnames snapshot hsnapshot)
      exact ⟨Or.inl hok, fun _ => Or.inr ⟨snapshot, hsnapshot⟩, fun _ => hok⟩
    · obtain ⟨⟨fault, hfault⟩, hsame⟩ :=
        a.adopt_of_not_consistent htruthy fun snapshot hs => h ⟨snapshot, hs⟩
      refine ⟨Or.inr ⟨⟨fault, hfault⟩, hsame⟩, ?_⟩
      simp [hfault, h]

/-- A consistent snapshot with a directive that led to something else is turned down only after
everything was replaced: its files are entered, and those that were indexed before are empty. -/
theorem adopt_of_badName (htruthy : data.truthy = true) (hdistinct : Session.HasDistinctFiles data)
    {snapshot : AtlasSnapshot} (h : IsConsistentSnapshot data snapshot)
    (hnames : snapshot.linksByName = false) :
    (∃ fault, (a.adopt data).2 = .error (.badName fault)) ∧
      Ledger.keys (a.adopt data).1.registry.loadedEntries = snapshot.files.keys ∧
      ∀ n ∈ a.registry.loaded, n < a.registry.files.size → (a.adopt data).1.registry.IsShell n := by
  obtain ⟨hcheck, files, hfiles⟩ := h
  have hkeys := Session.nodup_files_of_check hdistinct hcheck
  obtain ⟨hentered, -⟩ := a.registry.replaceAll_spec (Path.parse snapshot.directory)
    (keys_restoreAll hfiles ▸ hkeys)
  rw [a.adopt_of_check htruthy hcheck]
  unfold takeOver
  rw [hfiles]
  have hkept := registry_relinkEach_keeps (a := a.replaced snapshot files)
    (P := fun r => r.entries = (a.replaced snapshot files).registry.entries ∧
      ∀ n ∈ a.registry.loaded, n < a.registry.files.size → r.IsShell n)
    (fun r n hr => ⟨(r.entries_relink n).trans hr.1,
      fun m hm hlt => Registry.isShell_relink n (hr.2 m hm hlt)⟩)
    (a.replaced snapshot files).registry.loaded 0
    ⟨rfl, fun n hn hlt => Registry.isShell_replaceAll _ files hn hlt⟩
  rcases hlinked : (a.replaced snapshot files).relinkEach
    (a.replaced snapshot files).registry.loaded 0 with ⟨b, fault | total⟩
  · rw [hlinked] at hkept
    unfold replaced at hlinked
    simp only [hlinked]
    refine ⟨⟨fault, rfl⟩, ?_, hkept.2⟩
    rw [Registry.loadedEntries, hkept.1, ← Registry.loadedEntries, ← keys_restoreAll hfiles]
    exact keys_eq_of_forall₂ hentered
  · rw [a.linksByName_of_relinkEach hfiles hkeys hlinked] at hnames
    cases hnames

end Adopt

end Atlas

/-! ## A page that includes another file -/

/-- A file with a single directive that led somewhere. -/
def pageFile (resolved : Value) : FileSnapshot where
  name := "page"
  defaultNamespace := 1
  namespaces := [1]
  externals := [2]
  entities :=
    [{ id := 0, kind := .file, name := some "page" },
     { id := 1, kind := .namespaceDecl, name := some "\\", parent := some 0 },
     { id := 2, kind := .external, parent := some 0, payload := [("resolved", resolved)] }]

/-- A snapshot of this one file. -/
def pageSnapshot (resolved : Value) : AtlasSnapshot where
  directory := "/src"
  version := AtlasSnapshot.currentVersion
  files := [("page", pageFile resolved)]

namespace Atlas

theorem restore_pageFile (resolved : Value) : ∃ f, (pageFile resolved).restore = .ok f := by
  have horder : (pageFile resolved).inOrder = (pageFile resolved).entities :=
    FileSnapshot.inOrder_of_pairwise (by simp [pageFile])
  unfold FileSnapshot.restore FileSnapshot.outline?
  rw [horder]
  exact ⟨_, rfl⟩

theorem isConsistent_pageSnapshot (resolved : Value) :
    IsConsistentSnapshot (pageSnapshot resolved).toValue (pageSnapshot resolved) := by
  obtain ⟨f, hf⟩ := restore_pageFile resolved
  refine ⟨AtlasSnapshot.check_toValue _, [("page", f)], ?_⟩
  rw [pageSnapshot, restoreAll, hf]
  rfl

/-- A page that led to a file by its name is taken over. -/
theorem adopt_atomic_page :
    (∀ snapshot, IsConsistentSnapshot (pageSnapshot (.str "cart")).toValue snapshot →
      snapshot.linksByName = true) ∧
    (Session.shop.atlas.adopt (pageSnapshot (.str "cart")).toValue).2 = .ok () := by
  have hnames : ∀ snapshot, IsConsistentSnapshot (pageSnapshot (.str "cart")).toValue snapshot →
      snapshot.linksByName = true := by
    rintro snapshot ⟨hcheck, -⟩
    rw [AtlasSnapshot.check_toValue] at hcheck
    cases hcheck
    rfl
  exact ⟨hnames,
    (adopt_atomic Session.shop.atlas hnames).2.2 (Or.inr ⟨_, isConsistent_pageSnapshot _⟩)⟩

/-- A page that led to a number is turned down, but the file that was indexed is gone. -/
theorem adopt_page_number :
    Session.Reachable Session.shop ∧ Session.shop.atlas.registry.loaded = [0] ∧
    Session.HasDistinctFiles (pageSnapshot (.int 5)).toValue ∧
    ¬ ((Session.shop.atlas.adopt (pageSnapshot (.int 5)).toValue).2 = .ok () ∨
      (∃ fault, (Session.shop.atlas.adopt (pageSnapshot (.int 5)).toValue).2 = .error fault) ∧
        (Session.shop.atlas.adopt (pageSnapshot (.int 5)).toValue).1 = Session.shop.atlas) ∧
    (Session.shop.atlas.adopt (pageSnapshot (.int 5)).toValue).1.registry.IsShell 0 := by
  have hdistinct : Session.HasDistinctFiles (pageSnapshot (.int 5)).toValue := by
    rintro files ⟨⟩
    exact List.nodup_singleton _
  obtain ⟨⟨fault, hfault⟩, hkeys, hshell⟩ := Session.shop.atlas.adopt_of_badName rfl hdistinct
    (isConsistent_pageSnapshot (.int 5)) rfl
  refine ⟨Session.reachable_shop, rfl, hdistinct, ?_, hshell 0 (List.mem_singleton.2 rfl) ?_⟩
  · rintro (hok | ⟨-, hsame⟩)
    · rw [hfault] at hok
      cases hok
    · rw [hsame] at hkeys
      have hnames : ["cart"] = ["page"] := hkeys
      exact absurd hnames (by decide)
  · exact Nat.one_pos

end Atlas

end SymbolAtlas
