import Mathlib
import SymbolAtlas.Text.Path

/-!
# Proper paths

A path is proper if its root is one of the three that can be written and each part names
something.  What is read is proper, and so is every path that is derived from it; the text of a
proper path is not empty (`Path.Proper.render_ne`), and it is read as the same path
(`Path.Proper.parse_render`).
-/

namespace SymbolAtlas

namespace Path

/-- A part that names something: it is not empty, no single dot and holds no slash. -/
structure ProperPart (part : String) : Prop where
  ne_empty : part ≠ ""
  ne_dot : part ≠ "."
  no_slash : '/' ∉ part.toList

/-- The path can be written and read back. -/
structure Proper (p : Path) : Prop where
  root : p.root = "" ∨ p.root = "/" ∨ p.root = "//"
  parts : ∀ part ∈ p.parts, ProperPart part

/-! ## What is read is proper -/

theorem no_slash_of_mem_splitSlashes {s part : List Char} (h : part ∈ splitSlashes s) :
    '/' ∉ part := by
  induction s generalizing part with
  | nil =>
    rw [splitSlashes, List.mem_singleton] at h
    simp [h]
  | cons c rest ih =>
    rw [splitSlashes] at h
    split at h
    · rcases List.mem_cons.1 h with rfl | h
      · simp
      · exact ih h
    · rename_i hc
      split at h
      · rw [List.mem_singleton] at h
        simp [h, Ne.symm hc]
      · rename_i first more hrest
        rcases List.mem_cons.1 h with rfl | h
        · have hfirst : '/' ∉ first := ih (by rw [hrest]; exact List.mem_cons_self)
          simp [Ne.symm hc, hfirst]
        · exact ih (by rw [hrest]; exact List.mem_cons_of_mem _ h)

theorem properPart_of_mem_namedParts {s : List Char} {part : String} (h : part ∈ namedParts s) :
    ProperPart part := by
  obtain ⟨hmem, hnamed⟩ := List.mem_filter.1 h
  obtain ⟨chars, hchars, rfl⟩ := List.mem_map.1 hmem
  obtain ⟨hempty, hdot⟩ := of_decide_eq_true hnamed
  refine ⟨hempty, hdot, ?_⟩
  rw [String.toList_ofList]
  exact no_slash_of_mem_splitSlashes hchars

theorem proper_parse (text : String) : (parse text).Proper where
  root := by
    simp only [parse]
    unfold rootOf
    split
    · exact Or.inr (Or.inl rfl)
    · exact Or.inr (Or.inr rfl)
    · exact Or.inr (Or.inl rfl)
    · exact Or.inl rfl
  parts := fun _ hpart => properPart_of_mem_namedParts hpart

/-- Cancelling parts makes no new ones. -/
theorem mem_of_mem_cancel {rooted : Bool} {done : List String} {part p : String}
    (h : p ∈ cancel rooted done part) : p = part ∨ p ∈ done := by
  unfold cancel at h
  split at h
  · rcases List.mem_append.1 h with h | h
    · exact Or.inr h
    · exact Or.inl (List.mem_singleton.1 h)
  · split at h
    · split at h
      · rcases List.mem_append.1 h with h | h
        · exact Or.inr h
        · exact Or.inl (List.mem_singleton.1 h)
      · exact Or.inr (List.dropLast_subset _ h)
    · split at h
      · cases h
      · exact Or.inl (List.mem_singleton.1 h)

theorem mem_of_mem_normal {p : Path} {part : String} (h : part ∈ p.normal.parts) :
    part ∈ p.parts := by
  have hfold : ∀ (parts done : List String) {q : String},
      q ∈ parts.foldl (cancel p.isAbsolute) done → q ∈ parts ∨ q ∈ done := by
    intro parts
    induction parts with
    | nil => intro done q hq; exact Or.inr hq
    | cons first rest ih =>
      intro done q hq
      rcases ih _ hq with hq | hq
      · exact Or.inl (List.mem_cons_of_mem _ hq)
      · rcases mem_of_mem_cancel hq with rfl | hq
        · exact Or.inl List.mem_cons_self
        · exact Or.inr hq
  rcases hfold p.parts [] h with h | h
  · exact h
  · cases h

namespace Proper

variable {p : Path}

theorem normal (h : p.Proper) : p.normal.Proper where
  root := h.root
  parts := fun part hpart => h.parts part (mem_of_mem_normal hpart)

theorem resolved (h : p.Proper) : p.resolved.Proper where
  root := Or.inr (Or.inl rfl)
  parts := h.normal.parts

theorem below? {base relative : Path} (h : p.Proper) (hr : base.below? p = some relative) :
    relative.Proper := by
  unfold Path.below? at hr
  split at hr
  · cases hr
    exact ⟨Or.inl rfl, fun part hpart => h.parts part (List.mem_of_mem_drop hpart)⟩
  · cases hr

end Proper

/-! ## The text of a proper path -/

/-- The characters of parts with slashes between them. -/
def joined (parts : List String) : List Char :=
  ("/".intercalate parts).toList

@[simp] theorem joined_nil : joined [] = [] := by
  simp [joined]

@[simp] theorem joined_singleton (part : String) : joined [part] = part.toList := by
  simp [joined]

theorem joined_cons_cons (part next : String) (rest : List String) :
    joined (part :: next :: rest) = part.toList ++ '/' :: joined (next :: rest) := by
  simp [joined, String.intercalate_cons_cons]

theorem head?_joined {parts : List String} (h : ∀ part ∈ parts, ProperPart part) :
    (joined parts).head? ≠ some '/' := by
  have hpart : ∀ part, ProperPart part → ∀ rest : List Char,
      (part.toList ++ rest).head? ≠ some '/' := by
    intro part hproper rest hhead
    have hne : part.toList ≠ [] := by simpa using hproper.ne_empty
    obtain ⟨c, cs, hcs⟩ := List.exists_cons_of_ne_nil hne
    rw [hcs, List.cons_append, List.head?_cons, Option.some.injEq] at hhead
    exact hproper.no_slash (by rw [hcs, hhead]; exact List.mem_cons_self)
  match parts, h with
  | [], _ => simp
  | [part], h =>
    have := hpart part (h part List.mem_cons_self) []
    simpa using this
  | part :: next :: rest, h =>
    rw [joined_cons_cons]
    exact hpart part (h part List.mem_cons_self) _

theorem joined_ne_nil {parts : List String} (h : ∀ part ∈ parts, ProperPart part)
    (hne : parts ≠ []) : joined parts ≠ [] := by
  match parts, h, hne with
  | [part], h, _ =>
    rw [joined_singleton]
    simpa using (h part List.mem_cons_self).ne_empty
  | part :: next :: rest, _, _ =>
    rw [joined_cons_cons]
    simp

theorem toList_render (p : Path) :
    p.render.toList =
      if p.root = "" ∧ p.parts = [] then ['.'] else p.root.toList ++ joined p.parts := by
  unfold render
  split
  · rfl
  · rw [String.toList_append]
    rfl

theorem Proper.render_ne {p : Path} (h : p.Proper) : p.render ≠ "" := by
  intro hempty
  have htext := toList_render p
  rw [hempty] at htext
  split at htext
  · cases htext
  · rename_i hp
    have hnil : p.root.toList ++ joined p.parts = [] := htext.symm
    rw [List.append_eq_nil_iff] at hnil
    have hroot : p.root = "" := by simpa using hnil.1
    exact joined_ne_nil h.parts (fun hparts => hp ⟨hroot, hparts⟩) hnil.2

/-! ## Reading it back -/

theorem splitSlashes_of_no_slash {s : List Char} (h : '/' ∉ s) : splitSlashes s = [s] := by
  induction s with
  | nil => rfl
  | cons c rest ih =>
    rw [List.mem_cons, not_or] at h
    rw [splitSlashes, if_neg (Ne.symm h.1), ih h.2]

theorem splitSlashes_append {s : List Char} (h : '/' ∉ s) (t : List Char) :
    splitSlashes (s ++ '/' :: t) = s :: splitSlashes t := by
  induction s with
  | nil => rfl
  | cons c rest ih =>
    rw [List.mem_cons, not_or] at h
    rw [List.cons_append, splitSlashes, if_neg (Ne.symm h.1), ih h.2]

theorem namedParts_slash (s : List Char) : namedParts ('/' :: s) = namedParts s := by
  simp [namedParts, splitSlashes]

theorem namedParts_joined {parts : List String} (h : ∀ part ∈ parts, ProperPart part) :
    namedParts (joined parts) = parts := by
  match parts, h with
  | [], _ =>
    rw [joined_nil]
    rfl
  | [part], h =>
    obtain ⟨hempty, hdot, hslash⟩ := h part List.mem_cons_self
    rw [joined_singleton, namedParts, splitSlashes_of_no_slash hslash]
    simp [hempty, hdot]
  | part :: next :: rest, h =>
    obtain ⟨hpart, hrest⟩ := List.forall_mem_cons.1 h
    have htail := namedParts_joined hrest
    rw [namedParts] at htail ⊢
    rw [joined_cons_cons, splitSlashes_append hpart.no_slash, List.map_cons, String.ofList_toList,
      List.filter_cons_of_pos (by simp [hpart.ne_empty, hpart.ne_dot]), htail]

theorem rootOf_of_head? {s : List Char} (h : s.head? ≠ some '/') :
    rootOf s = "" ∧ rootOf ('/' :: s) = "/" ∧ rootOf ('/' :: '/' :: s) = "//" := by
  cases s with
  | nil => exact ⟨rfl, rfl, rfl⟩
  | cons c rest =>
    have hc : c ≠ '/' := by simpa using h
    refine ⟨?_, ?_, ?_⟩ <;> simp [rootOf, hc]

/-- What is written of a proper path is read as that path. -/
theorem Proper.parse_render {p : Path} (h : p.Proper) : parse p.render = p := by
  obtain ⟨root, parts⟩ := p
  have hparts := namedParts_joined h.parts
  obtain ⟨hnone, hone, htwo⟩ := rootOf_of_head? (head?_joined h.parts)
  have htext := toList_render ⟨root, parts⟩
  simp only [parse]
  rcases h.root with hr | hr | hr
  · cases hr
    split at htext
    · rename_i hempty
      rw [htext]
      obtain ⟨-, hnil⟩ := hempty
      cases hnil
      rfl
    · rw [htext]
      exact congrArg₂ Path.mk hnone hparts
  · cases hr
    rw [if_neg (by simp)] at htext
    have hslash : (Path.mk "/" parts).render.toList = '/' :: joined parts := by simpa using htext
    rw [hslash, hone, namedParts_slash, hparts]
  · cases hr
    rw [if_neg (by simp)] at htext
    have hslash : (Path.mk "//" parts).render.toList = '/' :: '/' :: joined parts := by
      simpa using htext
    rw [hslash, htwo, namedParts_slash, namedParts_slash, hparts]

end Path

end SymbolAtlas
