import Mathlib
import SymbolAtlas.Proofs.SourceFile.Restore
import SymbolAtlas.Proofs.SourceFile.Views

/-!
# Sound files

A file is made from a tree or from a snapshot, and from then on it is only renamed and linked
(`SourceFile.Made`).  Such a file is sound: it owns its entities as a tree, what it lists and shows
is there, and every include directive is queued as it was seen from the name under which the file
was made (`SourceFile.Made.sound`).
-/

namespace SymbolAtlas

open Outline

namespace SourceFile

/-- The entities of a file form a tree, and what is listed and shown is there. -/
structure SoundOutline (o : Outline) : Prop where
  wellOwned : WellOwned o
  inRange : InRange o
  home : ∃ n, o.home = some n ∧ o.isNamespace n = true
  namespaces : ∀ n ∈ o.namespaces, o.isNamespace n = true
  externals : ∀ n ∈ o.externals, o.isExternal n = true
  named : ∃ e n, o.get? 0 = some e ∧ e.name = some n

/-- What is known of a file that was made under the name `origin`. -/
structure Sound (f : SourceFile) (origin : String) : Prop extends SoundOutline f.outline where
  detached : f.detached = false
  queues : ∃ before, Queues f origin before

/-- The file entity states the name of the file. -/
theorem SoundOutline.root {f : SourceFile} (h : SoundOutline f.outline) :
    ∃ e, f.outline.get? 0 = some e ∧ e.name = some f.name := by
  obtain ⟨e, n, he, hn⟩ := h.named
  refine ⟨e, he, ?_⟩
  rw [name, fileName, he, Option.bind_some, hn]
  rfl

theorem SoundOutline.upToLinks {f g : SourceFile} (h : SoundOutline f.outline)
    (hg : UpToLinks f g) : SoundOutline g.outline where
  wellOwned := hg.wellOwned h.wellOwned
  inRange := inRange_of_eq h.inRange (Nat.le_of_eq hg.size_outline.symm) hg.shown
  home := by
    obtain ⟨n, hn, hns⟩ := h.home
    refine ⟨n, hg.home.trans hn, ?_⟩
    rw [isNamespace_eq_bares, hg.bares, ← isNamespace_eq_bares]
    exact hns
  namespaces := by
    intro n hn
    rw [isNamespace_eq_bares, hg.bares, ← isNamespace_eq_bares]
    exact h.namespaces n (hg.namespaces ▸ hn)
  externals := by
    intro n hn
    rw [isExternal_eq_bares, hg.bares, ← isExternal_eq_bares]
    exact h.externals n (hg.externals ▸ hn)
  named := by
    obtain ⟨e, n, he, hn⟩ := h.named
    have hbare : (g.outline.get? 0).map Entity.bare = some e.bare := by
      rw [← getElem?_bares, hg.bares, getElem?_bares, he]
      rfl
    obtain ⟨x, hx, hxe⟩ := Option.map_eq_some_iff.1 hbare
    have hname : x.bare.name = e.bare.name := congrArg Entity.name hxe
    exact ⟨x, n, hx, hname.trans hn⟩

theorem Sound.relink {f : SourceFile} {origin : String} (h : Sound f origin)
    (resolve : Value → Except BadName (Option Nat)) : Sound (f.relink resolve).1 origin where
  toSoundOutline := h.toSoundOutline.upToLinks f.upToLinks_relink
  detached := f.upToLinks_relink.detached.trans h.detached
  queues := by
    obtain ⟨before, hq⟩ := h.queues
    exact ⟨before, hq.relink⟩

theorem get?_rename (f : SourceFile) (name : String) (i : Nat) :
    (f.rename name).outline.get? i =
      if 0 = i then (f.outline.get? i).map fun e => { e with name := some name }
      else f.outline.get? i :=
  get?_modify f.outline 0 i _

theorem Sound.rename {f : SourceFile} {origin : String} (h : Sound f origin) (name : String) :
    Sound (f.rename name) origin := by
  have hns : ∀ i, (f.rename name).outline.isNamespace i = f.outline.isNamespace i := by
    intro i
    rw [isNamespace, scopeKind?, get?_rename]
    split
    · rw [Option.bind_map]
      rfl
    · rfl
  refine ⟨⟨h.wellOwned.modify 0 fun _ => rfl, ?_, ?_, ?_, ?_, ?_⟩, h.detached, ?_⟩
  · exact inRange_of_eq h.inRange (Nat.le_of_eq (size_modify f.outline 0 _).symm) fun i =>
      shown_modify_of_body 0 i fun _ => rfl
  · obtain ⟨n, hn, hnn⟩ := h.home
    exact ⟨n, hn, (hns n).trans hnn⟩
  · intro n hn
    rw [hns]
    exact h.namespaces n hn
  · intro n hn
    have hd : ((f.rename name).directive? n).isSome = (f.directive? n).isSome := by
      rw [directive?_rename]
    exact hd.trans (h.externals n hn)
  · obtain ⟨e, n, he, -⟩ := h.named
    refine ⟨{ e with name := some name }, name, ?_, rfl⟩
    rw [get?_rename, if_pos rfl, he]
    rfl
  · obtain ⟨before, hq⟩ := h.queues
    exact ⟨before, hq.rename name⟩

theorem soundOutline_entered (name : String) (tree : Value) : SoundOutline (entered name tree) where
  wellOwned := (ready_entered name tree).wellOwned
  inRange := (exact_entered name tree).inRange
  home := (ready_entered name tree).home
  namespaces := by
    intro n hn
    rw [(catalogued_entered name tree).namespaces] at hn
    exact (List.mem_filter.1 hn).2
  externals := by
    intro n hn
    rw [(catalogued_entered name tree).externals] at hn
    exact (List.mem_filter.1 hn).2
  named := by
    have hroot : (entered name tree).bares[0]? =
        some { detail := .scope .file {}, name := some name, span := spanOf tree } := by
      rw [bares_entered]
      rfl
    rw [getElem?_bares] at hroot
    obtain ⟨e, he, hbare⟩ := Option.map_eq_some_iff.1 hroot
    have hname : e.bare.name = some name := congrArg Entity.name hbare
    exact ⟨e, name, he, hname⟩

/-- The directives of a tree are queued as seen from the name of the file. -/
theorem queues_ofTree (name : String) (tree : Value) (contentHash : Option String)
    (mtime : Option Double) (size : Option Int) :
    Queues (ofTree name tree contentHash mtime size).1 name fun _ => .null := by
  let f : SourceFile := { outline := entered name tree, contentHash, mtime, size }
  have hname : f.name = name :=
    (upToLinks_ofTree name tree contentHash mtime size).name_eq.symm.trans
      (name_ofTree name tree contentHash mtime size)
  have hqueues : Queues (f.enqueueEach (f.outline.externals.map fun id => (id, .null))) f.name
      fun _ => .null := by
    refine queues_enqueueEach rfl ?_ ?_
    · intro q hq
      obtain ⟨id, -, rfl⟩ := List.mem_map.1 hq
      rfl
    · intro i inc hi
      have hexternal : f.outline.isExternal i = true := by
        rw [isExternal, Option.isSome_iff_exists]
        exact ⟨inc, hi⟩
      have hlisted : i ∈ f.outline.externals := by
        obtain ⟨e, he, -⟩ := Option.bind_eq_some_iff.1 hi
        have hlt : i < f.outline.size := get?_isSome_iff.1 (by simp [he])
        exact (catalogued_entered name tree).externals ▸
          List.mem_filter.2 ⟨List.mem_range.2 hlt, hexternal⟩
      exact ⟨(i, .null), List.mem_map.2 ⟨i, hlisted, rfl⟩, rfl⟩
  rw [hname] at hqueues
  rw [ofTree_fst]
  exact hqueues.close

theorem sound_ofTree (name : String) (tree : Value) (contentHash : Option String)
    (mtime : Option Double) (size : Option Int) :
    Sound (ofTree name tree contentHash mtime size).1 name where
  toSoundOutline :=
    SoundOutline.upToLinks (f := { outline := entered name tree, contentHash, mtime, size })
      (soundOutline_entered name tree) (upToLinks_ofTree name tree contentHash mtime size)
  detached := (upToLinks_ofTree name tree contentHash mtime size).detached
  queues := ⟨_, queues_ofTree name tree contentHash mtime size⟩

end SourceFile

namespace FileSnapshot

open SourceFile

/-- Where a directive of a snapshot led before. -/
def before (s : FileSnapshot) (i : Nat) : Value :=
  (s.inOrder[i]?.map fun e => e.payloadField "resolved").getD .null

section Accepted

variable {s : FileSnapshot}

theorem soundOutline_outline? {o : Outline} (h : s.outline? = .ok o) : SoundOutline o := by
  obtain ⟨hw, hr, -⟩ := outline?_spec h
  obtain ⟨e, he, hname⟩ := root_outline? h
  obtain ⟨root, others, o₁, o₂, home, namespaces, externals, -, -, -, -, -, hhome, hns, hex, rfl⟩ :=
    outline?_eq_ok.1 h
  exact ⟨hw, hr, ⟨home, rfl, (member?_eq_ok.1 hhome).2.2⟩,
    fun n hn => ((members?_eq_ok.1 hns).2 n hn).2, fun n hn => ((members?_eq_ok.1 hex).2 n hn).2,
    e, s.name, he, hname⟩

variable {f : SourceFile} (h : s.restore = .ok f)

include h

/-- The directives of a snapshot are queued as seen from its name and from where they led. -/
theorem queues_restore : Queues f s.name s.before := by
  obtain ⟨o, ho, rfl⟩ := restore_eq_ok.1 h
  obtain ⟨-, -, -, -, -, -, -, -, hcontiguous, -⟩ := outline?_eq_ok.1 ho
  have hid : ∀ (j : Nat) (e : EntitySnapshot), s.inOrder[j]? = some e → e.id.toNat = j := by
    intro j e he
    rw [id_of_isContiguous hcontiguous he]
    omega
  have hqueues : Queues ((s.unqueued o).enqueueEach s.lookups) (s.unqueued o).name s.before := by
    refine queues_enqueueEach rfl ?_ ?_
    · intro q hq
      obtain ⟨e, he, rfl⟩ := List.mem_map.1 hq
      obtain ⟨j, hj⟩ := List.mem_iff_getElem?.1 he
      simp only [before, hid j e hj, hj, Option.map_some, Option.getD_some]
    · intro i inc hi
      have hlt : i < s.inOrder.length := by
        rw [← size_outline? ho, ← get?_isSome_iff]
        obtain ⟨e, he, -⟩ := Option.bind_eq_some_iff.1 hi
        rw [Option.isSome_iff_exists]
        exact ⟨e, he⟩
      have hget : s.inOrder[i]? = some s.inOrder[i] := List.getElem?_eq_getElem hlt
      exact ⟨_, List.mem_map_of_mem (List.getElem_mem hlt), hid i _ hget⟩
  rw [name_unqueued ho] at hqueues
  exact hqueues.close

theorem sound_restore : Sound f s.name := by
  obtain ⟨o, ho, hf⟩ := upToLinks_restore h
  exact ⟨SoundOutline.upToLinks (f := s.unqueued o) (soundOutline_outline? ho) hf, hf.detached,
    s.before, queues_restore h⟩

end Accepted

end FileSnapshot

/-! ## Files in the making -/

namespace SourceFile

/-- The file was made under a name, and since then only renamed and linked. -/
inductive Made (origin : String) : SourceFile → Prop
  | parsed (tree : Value) (contentHash : Option String) (mtime : Option Double)
      (size : Option Int) : Made origin (ofTree origin tree contentHash mtime size).1
  | restored {s : FileSnapshot} {f : SourceFile} (hname : s.name = origin)
      (hf : s.restore = .ok f) : Made origin f
  | renamed {f : SourceFile} (hf : Made origin f) (name : String) : Made origin (f.rename name)
  | relinked {f : SourceFile} (hf : Made origin f)
      (resolve : Value → Except BadName (Option Nat)) : Made origin (f.relink resolve).1

theorem Made.sound {f : SourceFile} {origin : String} (h : Made origin f) : Sound f origin := by
  induction h with
  | parsed tree contentHash mtime size => exact sound_ofTree origin tree contentHash mtime size
  | restored hname hf => exact hname ▸ FileSnapshot.sound_restore hf
  | renamed _ name ih => exact ih.rename name
  | relinked _ resolve ih => exact ih.relink resolve

end SourceFile

end SymbolAtlas
