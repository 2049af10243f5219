import Mathlib
import SymbolAtlas.Proofs.Atlas.Session

/-!
# Linking the files of an atlas

Looking up the directives of one file after the other changes nothing but links, so every file is
looked up among the same names.  If all look-ups come to an end, every file has been linked once
(`Atlas.relinkEach_eq_ok`); they do if and only if none of the files has a name that cannot be
looked up (`Atlas.relinkEach_ok_iff`).
-/

namespace SymbolAtlas

namespace Registry

theorem site_relink (r : Registry) (n : Nat) : (r.relink n).1.toSite = r.toSite := by
  unfold Registry.relink
  split <;> rfl

theorem snd_relink {r : Registry} {n : Nat} {f : SourceFile} (h : r.files[n]? = some f) :
    (r.relink n).2 = (f.relink r.resolveCandidate).2 := by
  simp only [Registry.relink, h]

/-- What a candidate leads to depends on the site and on the entries alone. -/
theorem resolveCandidate_congr {r r' : Registry} (he : r'.entries = r.entries)
    (hs : r'.toSite = r.toSite) : r'.resolveCandidate = r.resolveCandidate := by
  have hget : r'.get? = r.get? := by
    funext name
    rw [get?, get?, he]
  funext candidate
  cases candidate with
  | str s => simp only [resolveCandidate, resolve, hget, hs]
  | _ => rfl

end Registry

namespace Atlas

/-- Nothing that look-ups depend on has changed. -/
structure SameBooks (a b : Atlas) : Prop where
  settings : b.settings = a.settings
  site : b.registry.toSite = a.registry.toSite
  entries : b.registry.entries = a.registry.entries
  replaced : b.registry.replaced = a.registry.replaced
  tally : b.registry.tally = a.registry.tally

theorem SameBooks.trans {a b c : Atlas} (h : SameBooks a b) (h' : SameBooks b c) : SameBooks a c :=
  ⟨h'.settings.trans h.settings, h'.site.trans h.site, h'.entries.trans h.entries,
    h'.replaced.trans h.replaced, h'.tally.trans h.tally⟩

theorem SameBooks.resolveCandidate {a b : Atlas} (h : SameBooks a b) :
    b.registry.resolveCandidate = a.registry.resolveCandidate :=
  Registry.resolveCandidate_congr h.entries h.site

section Relink

variable (a : Atlas) (n : Nat)

theorem snd_relink : (a.relink n).2 = (a.registry.relink n).2 := by
  unfold relink
  split
  · rename_i h
    rw [h]
  · rename_i h
    rw [h]

theorem settings_relink : (a.relink n).1.settings = a.settings := by
  unfold relink
  split <;> rfl

theorem sameBooks_relink : SameBooks a (a.relink n).1 where
  settings := a.settings_relink n
  site := by rw [registry_relink, Registry.site_relink]
  entries := by rw [registry_relink, Registry.entries_relink]
  replaced := by rw [registry_relink, Registry.replaced_relink]
  tally := by rw [registry_relink, Registry.tally_relink]

theorem file?_relink (m : Nat) :
    (a.relink n).1.file? m = (a.file? m).map fun f =>
      if n = m then (f.relink a.registry.resolveCandidate).1 else f := by
  rw [file?, registry_relink, Registry.files_relink]
  rfl

end Relink

theorem coherent_relinkEach {a b : Atlas} (ha : a.registry.Coherent) {ns : List Nat}
    {missed total : Nat} (h : a.relinkEach ns missed = (b, .ok total)) : b.registry.Coherent := by
  have hkept := registry_relinkEach_keeps (P := Registry.Coherent) (fun r n hr => hr.relink n) ns
    missed ha
  rwa [h] at hkept

/-- If all look-ups come to an end, every file has been linked. -/
theorem relinkEach_eq_ok {a b : Atlas} {ns : List Nat} (hd : ns.Nodup) {missed total : Nat}
    (h : a.relinkEach ns missed = (b, .ok total)) :
    SameBooks a b ∧ (∀ m, m ∉ ns → b.file? m = a.file? m) ∧
      ∀ m ∈ ns, ∀ f, a.file? m = some f →
        ∃ g k, f.relink a.registry.resolveCandidate = (g, .ok k) ∧ b.file? m = some g := by
  induction ns generalizing a missed with
  | nil =>
    cases h
    exact ⟨⟨rfl, rfl, rfl, rfl, rfl⟩, fun _ _ => rfl, fun m hm => by cases hm⟩
  | cons n rest ih =>
    obtain ⟨hn, hrest⟩ := List.nodup_cons.1 hd
    have hbooks := a.sameBooks_relink n
    have hfile := a.file?_relink n
    have hsnd := a.snd_relink n
    rw [relinkEach] at h
    split at h
    · rename_i a₁ more ha₁
      rw [ha₁] at hbooks hfile hsnd
      obtain ⟨hbooks', hothers, heach⟩ := ih hrest h
      refine ⟨hbooks.trans hbooks', ?_, ?_⟩
      · intro m hm
        rw [List.mem_cons, not_or] at hm
        rw [hothers m hm.2, hfile, Option.map_congr fun f _ => if_neg (Ne.symm hm.1),
          Option.map_id']
      · intro m hm f hf
        rcases List.mem_cons.1 hm with rfl | hm
        · rw [Registry.snd_relink hf] at hsnd
          refine ⟨_, more, Prod.ext rfl hsnd.symm, ?_⟩
          rw [hothers m hn, hfile, hf, Option.map_some, if_pos rfl]
        · have hne : n ≠ m := by
            rintro rfl
            exact hn hm
          rw [← hbooks.resolveCandidate]
          refine heach m hm f ?_
          rw [hfile, hf, Option.map_some, if_neg hne]
    · cases h

/-- A file that was linked can be linked again if and only if it could before. -/
theorem relink_relinked {r : Registry} {n m : Nat} {f : SourceFile} :
    (∃ k, ((if n = m then (f.relink r.resolveCandidate).1 else f).relink r.resolveCandidate).2 =
      .ok k) ↔ ∃ k, (f.relink r.resolveCandidate).2 = .ok k := by
  split
  · rw [SourceFile.relink_ok_iff, SourceFile.queue_relink, SourceFile.relink_ok_iff]
  · rfl

/-- The look-ups come to an end if and only if each of the files can be linked. -/
theorem relinkEach_ok_iff {a : Atlas} {ns : List Nat} {missed : Nat} :
    (∃ b total, a.relinkEach ns missed = (b, .ok total)) ↔
      ∀ m ∈ ns, ∀ f, a.file? m = some f →
        ∃ k, (f.relink a.registry.resolveCandidate).2 = .ok k := by
  induction ns generalizing a missed with
  | nil => simp [relinkEach]
  | cons n rest ih =>
    have hfirst : (∃ k, (a.relink n).2 = .ok k) ↔
        ∀ f, a.file? n = some f → ∃ k, (f.relink a.registry.resolveCandidate).2 = .ok k := by
      rw [snd_relink]
      cases hf : a.registry.files[n]? with
      | none => simp [Registry.relink, file?, hf]
      | some f => simp [Registry.snd_relink hf, file?, hf]
    have hrest : (∀ m ∈ rest, ∀ f, (a.relink n).1.file? m = some f →
        ∃ k, (f.relink (a.relink n).1.registry.resolveCandidate).2 = .ok k) ↔
        ∀ m ∈ rest, ∀ f, a.file? m = some f →
          ∃ k, (f.relink a.registry.resolveCandidate).2 = .ok k := by
      rw [(a.sameBooks_relink n).resolveCandidate]
      simp only [file?_relink, Option.map_eq_some_iff, forall_exists_index, and_imp,
        forall_apply_eq_imp_iff₂, relink_relinked]
    rw [List.forall_mem_cons, ← hfirst, ← hrest, relinkEach]
    split
    · rename_i b more hb
      rw [hb]
      simpa using ih
    · rename_i b e hb
      rw [hb]
      simp

end Atlas

end SymbolAtlas
