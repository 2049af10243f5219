import Mathlib
import SymbolAtlas.Snapshot
import SymbolAtlas.Proofs.Ledger

/-!
# Reading snapshots

Checks collect issues, so a check of several parts passes exactly if all parts do
(`Checked.ap_eq_ok`, `Checked.all_eq_ok`).  What is written of a snapshot is read back as it was
(`EntitySnapshot.check_toValue` and its companions), and the files of a snapshot that was read have
the names of the fields they were read from (`AtlasSnapshot.keys_files_of_check`).
-/

namespace SymbolAtlas

namespace Schema

namespace Checked

variable {α β : Type}

theorem ap_eq_ok {f : Checked (α → β)} {x : Checked α} {b : β} :
    ap f x = .ok b ↔ ∃ g a, f = .ok g ∧ x = .ok a ∧ g a = b := by
  cases f <;> cases x <;> simp [ap]

theorem under_eq_ok {step : Step} {x : Checked α} {a : α} : under step x = .ok a ↔ x = .ok a := by
  cases x <;> simp [under]

theorem all_eq_ok {check : α → Checked β} {as : List α} {bs : List β} :
    all check as = .ok bs ↔ List.Forall₂ (fun a b => check a = .ok b) as bs := by
  induction as generalizing bs with
  | nil => cases bs <;> simp [all]
  | cons a rest ih =>
    rw [all, ap_eq_ok]
    constructor
    · rintro ⟨g, tail, hg, htail, rfl⟩
      obtain ⟨k, b, hk, hb, rfl⟩ := ap_eq_ok.1 hg
      cases hk
      exact .cons hb (ih.1 htail)
    · intro h
      cases h with
      | cons hb htail =>
        exact ⟨_, _, ap_eq_ok.2 ⟨_, _, rfl, hb, rfl⟩, ih.2 htail, rfl⟩

end Checked

namespace Check

variable {α : Type} {inner : Check α}

theorem entries_eq_ok {fields : Ledger Value} {as : Ledger α} :
    entries inner fields = .ok as ↔
      List.Forall₂ (fun field a => field.1 = a.1 ∧ inner field.2 = .ok a.2) fields as := by
  rw [entries, Checked.all_eq_ok]
  refine ⟨fun h => h.imp ?_, fun h => h.imp ?_⟩
  · rintro ⟨k, v⟩ ⟨l, a⟩ hfield
    obtain ⟨g, b, hg, hb, heq⟩ := Checked.ap_eq_ok.1 hfield
    cases hg
    cases heq
    exact ⟨rfl, Checked.under_eq_ok.1 hb⟩
  · rintro ⟨k, v⟩ ⟨l, a⟩ ⟨rfl, ha⟩
    exact Checked.ap_eq_ok.2 ⟨_, _, rfl, Checked.under_eq_ok.2 ha, rfl⟩

theorem keys_of_entries {fields : Ledger Value} {as : Ledger α}
    (h : entries inner fields = .ok as) : as.keys = fields.keys := by
  have hall := entries_eq_ok.1 h
  clear h
  induction hall with
  | nil => rfl
  | cons hfield _ ih => exact congrArg₂ List.cons hfield.1.symm ih

theorem itemsFrom_map {w : α → Value} (i : Nat) {xs : List α}
    (h : ∀ x ∈ xs, inner (w x) = .ok x) : itemsFrom inner i (xs.map w) = .ok xs := by
  induction xs generalizing i with
  | nil => rfl
  | cons x rest ih =>
    obtain ⟨hx, hrest⟩ := List.forall_mem_cons.1 h
    rw [List.map_cons, itemsFrom, hx, ih (i + 1) hrest]
    rfl

/-- A list of values that all pass is read item by item. -/
theorem list_map {w : α → Value} {xs : List α} (h : ∀ x ∈ xs, inner (w x) = .ok x) :
    list inner (.list (xs.map w)) = .ok xs :=
  itemsFrom_map 0 h

/-- A table of values that all pass is read field by field. -/
theorem table_map {w : α → Value} {xs : Ledger α} (h : ∀ x ∈ xs, inner (w x.2) = .ok x.2) :
    table inner (.object (xs.map fun entry => (entry.1, w entry.2))) = .ok xs := by
  refine entries_eq_ok.2 ?_
  rw [List.forall₂_map_left_iff, List.forall₂_same]
  exact fun x hx => ⟨rfl, h x hx⟩

theorem int_list (ns : List Int) : list int (.list (ns.map Value.int)) = .ok ns :=
  list_map fun _ _ => rfl

theorem optional_text (s : Option String) :
    optional text (Value.ofText? s) = .ok s := by
  cases s <;> rfl

theorem optional_int (i : Option Int) : optional int ((i.map Value.int).getD .null) = .ok i := by
  cases i <;> rfl

theorem optional_double (x : Option Double) :
    optional double ((x.map Value.float).getD .null) = .ok x := by
  cases x <;> rfl

theorem optional_pair (p : Option (Int × Int)) :
    optional pair ((p.map fun r => Value.list [.int r.1, .int r.2]).getD .null) = .ok p := by
  cases p <;> rfl

theorem kind_tag (k : Kind) : kind (.str k.tag) = .ok k := by
  simp [kind]

end Check

end Schema

open Schema

/-! ## What is written is read back -/

namespace EntitySnapshot

theorem check_toValue (e : EntitySnapshot) : check e.toValue = .ok e := by
  obtain ⟨id, kind, name, parent, range, doc, lists, payload⟩ := e
  have hlists : Check.table (Check.list Check.int) (.object (lists.map fun entry =>
      (entry.1, .list (entry.2.map Value.int)))) = .ok lists :=
    Check.table_map (w := fun ns => .list (ns.map Value.int)) fun x _ => Check.int_list x.2
  simp [check, toValue, Check.sectionNamed, ofFields, required, defaulting, Ledger.get?_cons,
    Check.int, Check.object, Check.kind_tag, Check.optional_text, Check.optional_int,
    Check.optional_pair, hlists, Checked.under, Checked.ap]

end EntitySnapshot

namespace FileSnapshot

theorem check_toValue (f : FileSnapshot) : check f.toValue = .ok f := by
  obtain ⟨name, contentHash, mtime, size, home, namespaces, externals, entities⟩ := f
  have hentities : Check.list EntitySnapshot.check (.list (entities.map EntitySnapshot.toValue)) =
      .ok entities :=
    Check.list_map fun e _ => e.check_toValue
  simp [check, toValue, Check.sectionNamed, ofFields, required, defaulting, Ledger.get?_cons,
    Check.int, Check.text, Check.int_list, Check.optional_text, Check.optional_int,
    Check.optional_double, hentities, Checked.under, Checked.ap]

end FileSnapshot

namespace AtlasSnapshot

theorem check_toValue (c : AtlasSnapshot) : check c.toValue = .ok c := by
  obtain ⟨directory, version, files⟩ := c
  have hfiles : Check.table FileSnapshot.check (.object (files.map fun entry =>
      (entry.1, entry.2.toValue))) = .ok files :=
    Check.table_map fun x _ => x.2.check_toValue
  simp [check, toValue, Check.sectionNamed, ofFields, required, defaulting, Ledger.get?_cons,
    Check.int, Check.text, hfiles, Checked.under, Checked.ap]

/-- The files of a snapshot have the names under which they stand in the data. -/
theorem keys_files_of_check {data : Value} {c : AtlasSnapshot} (h : check data = .ok c) :
    c.files = [] ∨
      ∃ files, data.field? "files" = some (.object files) ∧ c.files.keys = Ledger.keys files := by
  unfold check Check.sectionNamed at h
  split at h
  · rename_i fields
    obtain ⟨g, files, hg, hfiles, rfl⟩ := Checked.ap_eq_ok.1 h
    obtain ⟨g', version, hg', -, rfl⟩ := Checked.ap_eq_ok.1 hg
    obtain ⟨_, directory, ⟨⟩, -, rfl⟩ := Checked.ap_eq_ok.1 hg'
    unfold defaulting at hfiles
    split at hfiles
    · rename_i v hv
      have htable := Checked.under_eq_ok.1 hfiles
      cases v with
      | object fs => exact Or.inr ⟨fs, hv, Check.keys_of_entries htable⟩
      | _ => cases htable
    · cases hfiles
      exact Or.inl rfl
  · cases h

end AtlasSnapshot

end SymbolAtlas
