import Mathlib
import SymbolAtlas.Schema.Shape
import SymbolAtlas.Proofs.Ledger

/-!
# Values in the form of a shape

A value fits a shape if it has the form that a lawful validator brings values into
(`Shape.fits_of_valid`), and one that fits stays as it is (`Shape.valid_of_fits`), provided that
the rules of the shape leave alone what they made themselves and that its fields fall back on
values that fit (`Shape.IsSound`).  Only rules raise anything (`Shape.exists_rule_of_raised`).
-/

namespace SymbolAtlas.Schema

/-! ## Parts and wholes -/

namespace Validated

variable {α β : Type}

/-- The issues that stand against a value. -/
def issues : Validated α → List Issue
  | invalid issues => issues
  | _ => []

/-- Something was raised. -/
def Raises (x : Validated α) : Prop := ∃ r, x = .raised r

@[simp] theorem not_raises_valid (a : α) : ¬ (valid a).Raises := by simp [Raises]

@[simp] theorem not_raises_invalid (issues : List Issue) :
    ¬ (invalid issues : Validated α).Raises := by
  simp [Raises]

@[simp] theorem raises_raised (r : Raised) : (raised r : Validated α).Raises := ⟨r, rfl⟩

theorem map_eq_valid {f : α → β} {x : Validated α} {b : β} :
    x.map f = .valid b ↔ ∃ a, x = .valid a ∧ f a = b := by
  cases x <;> simp [map]

theorem map_eq_raised {f : α → β} {x : Validated α} {r : Raised} :
    x.map f = .raised r ↔ x = .raised r := by
  cases x <;> simp [map]

@[simp] theorem raises_map {f : α → β} {x : Validated α} : (x.map f).Raises ↔ x.Raises := by
  cases x <;> simp [map]

@[simp] theorem issues_map {f : α → β} (x : Validated α) : (x.map f).issues = x.issues := by
  cases x <;> rfl

theorem under_eq_valid {step : Step} {x : Validated α} {a : α} :
    x.under step = .valid a ↔ x = .valid a := by
  cases x <;> simp [under]

theorem under_eq_raised {step : Step} {x : Validated α} {r : Raised} :
    x.under step = .raised r ↔ x = .raised r := by
  cases x <;> simp [under]

@[simp] theorem raises_under {step : Step} {x : Validated α} :
    (x.under step).Raises ↔ x.Raises := by
  cases x <;> simp [under]

@[simp] theorem issues_under {step : Step} (x : Validated α) :
    (x.under step).issues = x.issues.map (Issue.under step) := by
  cases x <;> rfl

theorem ruledBy_eq_valid {rule : Value → Ruling} {input w : Value} {x : Validated Value} :
    x.ruledBy rule input = .valid w ↔ ∃ v, x = .valid v ∧ rule v = .accepted w := by
  cases x with
  | valid v => cases hrule : rule v <;> simp [ruledBy, hrule]
  | _ => simp [ruledBy]

theorem ruledBy_eq_raised {rule : Value → Ruling} {input : Value} {x : Validated Value}
    {r : Raised} :
    x.ruledBy rule input = .raised r ↔
      x = .raised r ∨ ∃ v, x = .valid v ∧ rule v = .raised r := by
  cases x with
  | valid v => cases hrule : rule v <;> simp [ruledBy, hrule]
  | _ => simp [ruledBy]

theorem closing_eq_valid {extras : List Issue} {x : Validated α} {a : α} :
    x.closing extras = .valid a ↔ x = .valid a ∧ extras = [] := by
  cases x <;> cases extras <;> simp [closing]

@[simp] theorem closing_nil (x : Validated α) : x.closing [] = x := by
  cases x <;> simp [closing]

theorem closing_eq_raised {extras : List Issue} {x : Validated α} {r : Raised} :
    x.closing extras = .raised r ↔ x = .raised r := by
  cases x <;> cases extras <;> simp [closing]

@[simp] theorem raises_closing {extras : List Issue} {x : Validated α} :
    (x.closing extras).Raises ↔ x.Raises := by
  cases x <;> cases extras <;> simp [closing]

/-! ### Gathering -/

theorem gather_eq_valid {xs : List (Validated α)} {as : List α} :
    gather xs = .valid as ↔ List.Forall₂ (fun x a => x = .valid a) xs as := by
  induction xs generalizing as with
  | nil => cases as <;> simp [gather]
  | cons x rest ih =>
    cases x with
    | valid a =>
      rw [gather, map_eq_valid]
      constructor
      · rintro ⟨bs, hrest, rfl⟩
        exact .cons rfl (ih.1 hrest)
      · rintro (_ | ⟨⟨⟩, hrest⟩)
        exact ⟨_, ih.2 hrest, rfl⟩
    | invalid issues =>
      have hno : gather (.invalid issues :: rest) ≠ .valid as := by
        rw [gather]
        split <;> simp
      exact ⟨fun h => absurd h hno, fun h => by cases h; contradiction⟩
    | raised r => exact ⟨fun h => by simp [gather] at h, fun h => by cases h; contradiction⟩

/-- What a whole raises is raised by a part. -/
theorem mem_of_gather {xs : List (Validated α)} {r : Raised} (h : gather xs = .raised r) :
    .raised r ∈ xs := by
  induction xs with
  | nil => cases h
  | cons x rest ih =>
    cases x with
    | valid a => exact List.mem_cons_of_mem _ (ih (map_eq_raised.1 h))
    | invalid issues =>
      rw [gather] at h
      split at h
      · cases h
      · cases h
      · rename_i hrest
        cases h
        exact List.mem_cons_of_mem _ (ih hrest)
    | raised r' =>
      cases h
      exact List.mem_cons_self

/-- A whole raises something exactly if a part does. -/
theorem raises_gather {xs : List (Validated α)} : (gather xs).Raises ↔ ∃ x ∈ xs, x.Raises := by
  induction xs with
  | nil => simp [gather]
  | cons x rest ih =>
    cases x with
    | valid a => simp [gather, ih]
    | raised r => simp [gather]
    | invalid issues =>
      rw [gather]
      cases hrest : gather rest <;> simpa [hrest] using ih

theorem issues_gather {xs : List (Validated α)} (h : ∀ x ∈ xs, ¬ x.Raises) :
    (gather xs).issues = xs.flatMap issues := by
  induction xs with
  | nil => rfl
  | cons x rest ih =>
    obtain ⟨hx, hrest⟩ := List.forall_mem_cons.1 h
    rw [List.flatMap_cons, ← ih hrest]
    cases x with
    | valid a => exact issues_map _
    | raised r => exact absurd (raises_raised r) hx
    | invalid issues =>
      rw [gather]
      cases hgather : gather rest with
      | raised r =>
        obtain ⟨y, hy, hraises⟩ := raises_gather.1 ⟨r, hgather⟩
        exact absurd hraises (hrest y hy)
      | _ => simp [Validated.issues]

/-- A field with its name comes to a value if what is given for it does, or if nothing is. -/
theorem field_eq_valid {validate : Validator} {given : Ledger Value} {f : Slot Shape}
    {entry : String × Value} :
    field validate given f = .valid entry ↔
      entry.1 = f.key ∧
        match given.get? f.key with
        | some v => validate f.shape v = .valid entry.2
        | none => entry.2 = f.fallback := by
  obtain ⟨key, w⟩ := entry
  rw [field]
  cases given.get? f.key with
  | none => simp [Prod.ext_iff, eq_comm]
  | some v => simp [map_eq_valid, under_eq_valid, Prod.ext_iff, and_comm, eq_comm]

theorem field_eq_raised {validate : Validator} {given : Ledger Value} {f : Slot Shape}
    {r : Raised} :
    field validate given f = .raised r ↔
      ∃ v, given.get? f.key = some v ∧ validate f.shape v = .raised r := by
  rw [field]
  cases given.get? f.key with
  | none => simp
  | some v => simp [map_eq_raised, under_eq_raised]

theorem raises_field {validate : Validator} {given : Ledger Value} {f : Slot Shape} :
    (field validate given f).Raises ↔
      ∃ v, given.get? f.key = some v ∧ (validate f.shape v).Raises := by
  rw [field]
  cases given.get? f.key <;> simp

/-- Every field of a whole is there with its name. -/
theorem exists_get?_of_gather {validate : Validator} {given entries : Ledger Value}
    {fields : List (Slot Shape)} (hnodup : (fields.map Slot.key).Nodup)
    (h : gather (fields.map (field validate given)) = .valid entries) {f : Slot Shape}
    (hf : f ∈ fields) :
    ∃ w, entries.get? f.key = some w ∧ field validate given f = .valid (f.key, w) := by
  have hall := gather_eq_valid.1 h
  rw [List.forall₂_map_left_iff] at hall
  have hkeys : entries.keys = fields.map Slot.key := by
    clear hnodup h hf
    induction hall with
    | nil => rfl
    | cons hentry _ ih => exact congrArg₂ List.cons (field_eq_valid.1 hentry).1 ih
  obtain ⟨⟨key, w⟩, hentry, hfield⟩ := forall₂_mem_right hall.flip hf
  obtain rfl : key = f.key := (field_eq_valid.1 hfield).1
  exact ⟨w, Ledger.get?_of_mem (hkeys ▸ hnodup) hentry, hfield⟩

end Validated

open Validated

namespace Shape

/-! ## Induction over shapes -/

mutual

/-- Induction over shapes, with the hypothesis for every field. -/
theorem induction {motive : Shape → Prop} (atom : ∀ a, motive (.atom a))
    (optional : ∀ inner, motive inner → motive (.optional inner))
    (list : ∀ inner, motive inner → motive (.list inner))
    (ruled : ∀ inner rule, motive inner → motive (.ruled inner rule))
    (model : ∀ word closed fields, (∀ f ∈ fields, motive f.shape) →
      motive (.model word closed fields)) :
    ∀ shape, motive shape
  | .atom a => atom a
  | .optional inner => optional inner (induction atom optional list ruled model inner)
  | .list inner => list inner (induction atom optional list ruled model inner)
  | .ruled inner rule => ruled inner rule (induction atom optional list ruled model inner)
  | .model word closed fields =>
    model word closed fields (fieldsInduction atom optional list ruled model fields)
termination_by structural shape => shape

theorem fieldsInduction {motive : Shape → Prop} (atom : ∀ a, motive (.atom a))
    (optional : ∀ inner, motive inner → motive (.optional inner))
    (list : ∀ inner, motive inner → motive (.list inner))
    (ruled : ∀ inner rule, motive inner → motive (.ruled inner rule))
    (model : ∀ word closed fields, (∀ f ∈ fields, motive f.shape) →
      motive (.model word closed fields)) :
    ∀ fields : List (Slot Shape), ∀ f ∈ fields, motive f.shape
  | [], _, h => nomatch h
  | ⟨key, shape, fallback⟩ :: rest, f, h => by
    rcases List.mem_cons.1 h with rfl | h
    · exact induction atom optional list ruled model shape
    · exact fieldsInduction atom optional list ruled model rest f h
termination_by structural fields => fields

end

/-! ## Fitting and sound -/

mutual

/-- A value has the form of a shape: an object has exactly the known fields, in order. -/
def Fits : Shape → Value → Prop
  | .atom a, v => a.Holds v
  | .optional inner, v => v = .null ∨ inner.Fits v
  | .list inner, v => ∃ items, v = .list items ∧ ∀ item ∈ items, inner.Fits item
  | .ruled inner rule, v => inner.Fits v ∧ rule v = .accepted v
  | .model _ _ fields, v => ∃ entries, v = .object entries ∧ FieldsFit fields entries
termination_by structural shape => shape

/-- Entries have the form of fields, one by one. -/
def FieldsFit : List (Slot Shape) → Ledger Value → Prop
  | [], entries => entries = []
  | ⟨key, shape, _⟩ :: rest, entries =>
    ∃ v more, entries = (key, v) :: more ∧ shape.Fits v ∧ FieldsFit rest more
termination_by structural fields => fields

end

mutual

/-- Rules leave alone what they made, and fields have names of their own and fall back on values
that fit. -/
def IsSound : Shape → Prop
  | .atom _ => True
  | .optional inner => inner.IsSound
  | .list inner => inner.IsSound
  | .ruled inner rule => inner.IsSound ∧
    ∀ v w, inner.Fits v → rule v = .accepted w → inner.Fits w ∧ rule w = .accepted w
  | .model _ _ fields => (fields.map Slot.key).Nodup ∧ FieldsAreSound fields
termination_by structural shape => shape

/-- The shapes of fields are sound, and the fields fall back on values that fit. -/
def FieldsAreSound : List (Slot Shape) → Prop
  | [] => True
  | ⟨_, shape, fallback⟩ :: rest => shape.IsSound ∧ shape.Fits fallback ∧ FieldsAreSound rest
termination_by structural fields => fields

end

mutual

/-- The rules that a value of a shape and its parts have to meet. -/
def rules : Shape → List (Value → Ruling)
  | .atom _ => []
  | .optional inner => inner.rules
  | .list inner => inner.rules
  | .ruled inner rule => rule :: inner.rules
  | .model _ _ fields => fieldRules fields
termination_by structural shape => shape

/-- The rules that the values of fields have to meet. -/
def fieldRules : List (Slot Shape) → List (Value → Ruling)
  | [] => []
  | ⟨_, shape, _⟩ :: rest => shape.rules ++ fieldRules rest
termination_by structural fields => fields

end

theorem mem_fieldRules {fields : List (Slot Shape)} {rule : Value → Ruling} :
    rule ∈ fieldRules fields ↔ ∃ f ∈ fields, rule ∈ f.shape.rules := by
  induction fields with
  | nil => simp [fieldRules]
  | cons f rest ih => simp [fieldRules, ih]

theorem fieldsFit_iff {fields : List (Slot Shape)} {entries : Ledger Value} :
    FieldsFit fields entries ↔
      List.Forall₂ (fun f entry => entry.1 = f.key ∧ f.shape.Fits entry.2) fields entries := by
  induction fields generalizing entries with
  | nil => simp [FieldsFit]
  | cons f rest ih =>
    obtain ⟨key, shape, fallback⟩ := f
    rw [FieldsFit, List.forall₂_cons_left_iff]
    constructor
    · rintro ⟨v, more, rfl, hv, hmore⟩
      exact ⟨_, _, ⟨rfl, hv⟩, ih.1 hmore, rfl⟩
    · rintro ⟨⟨key', v⟩, more, ⟨rfl, hv⟩, hmore, rfl⟩
      exact ⟨v, more, rfl, hv, ih.2 hmore⟩

theorem fieldsAreSound_iff {fields : List (Slot Shape)} :
    FieldsAreSound fields ↔ ∀ f ∈ fields, f.shape.IsSound ∧ f.shape.Fits f.fallback := by
  induction fields with
  | nil => simp [FieldsAreSound]
  | cons f rest ih => simp [FieldsAreSound, ih, and_assoc]

theorem isSound_model {word : String} {closed : Bool} {fields : List (Slot Shape)}
    (hkeys : (fields.map Slot.key).Nodup)
    (hfields : ∀ f ∈ fields, f.shape.IsSound ∧ f.shape.Fits f.fallback) :
    (model word closed fields).IsSound :=
  ⟨hkeys, fieldsAreSound_iff.2 hfields⟩

/-- An object of the defaults fits. -/
theorem fits_defaults {word : String} {closed : Bool} {fields : List (Slot Shape)}
    (h : ∀ f ∈ fields, f.shape.Fits f.fallback) :
    (model word closed fields).Fits (.object (fields.map fun f => (f.key, f.fallback))) := by
  refine ⟨_, rfl, fieldsFit_iff.2 ?_⟩
  rw [List.forall₂_map_right_iff, List.forall₂_same]
  exact fun f hf => ⟨rfl, h f hf⟩

theorem keys_of_fieldsFit {fields : List (Slot Shape)} {entries : Ledger Value}
    (h : FieldsFit fields entries) : entries.keys = fields.map Slot.key := by
  induction fields generalizing entries with
  | nil =>
    cases h
    rfl
  | cons f rest ih =>
    obtain ⟨v, more, rfl, -, hmore⟩ := h
    exact congrArg (f.key :: ·) (ih hmore)

theorem extras_eq_nil {closed : Bool} {fields : List (Slot Shape)} {given : Ledger Value}
    (h : ∀ key ∈ given.keys, key ∈ fields.map Slot.key) : extras closed fields given = [] := by
  unfold extras extraIssues
  split
  · rw [List.map_eq_nil_iff, List.filter_eq_nil_iff]
    intro entry hentry
    simpa using h entry.1 (List.mem_map_of_mem hentry)
  · rfl

/-! ## What lawful validators do -/

section Lawful

variable {validate : Validator}

/-- What is brought into form has the form of the shape. -/
theorem fits_of_valid (h : validate.Lawful) {shape : Shape} (hsound : shape.IsSound) {v w : Value}
    (hvalid : validate shape v = .valid w) : shape.Fits w := by
  induction shape using induction generalizing v w with
  | atom a => exact h.holds_of_atom a v w hvalid
  | optional inner ih =>
    by_cases hnull : v = .null
    · subst hnull
      rw [h.optional_null] at hvalid
      cases hvalid
      exact .inl rfl
    · rw [h.optional_other inner v hnull] at hvalid
      exact .inr (ih hsound hvalid)
  | list inner ih =>
    by_cases hlist : ∃ items, v = .list items
    · obtain ⟨items, rfl⟩ := hlist
      rw [h.list_items, map_eq_valid] at hvalid
      obtain ⟨ws, hitems, rfl⟩ := hvalid
      refine ⟨ws, rfl, fun w hw => ?_⟩
      obtain ⟨x, hx, hvalid⟩ := forall₂_mem_right (gather_eq_valid.1 hitems) hw
      obtain ⟨i, hi, rfl⟩ := List.mem_mapIdx.1 hx
      exact ih hsound (under_eq_valid.1 hvalid)
    · obtain ⟨issues, hissues⟩ := h.list_other inner v fun items hv => hlist ⟨items, hv⟩
      rw [hissues] at hvalid
      cases hvalid
  | ruled inner rule ih =>
    rw [h.ruled, ruledBy_eq_valid] at hvalid
    obtain ⟨u, hu, hrule⟩ := hvalid
    exact hsound.2 u w (ih hsound.1 hu) hrule
  | model word closed fields ih =>
    by_cases hobject : ∃ given, v = .object given
    · obtain ⟨given, rfl⟩ := hobject
      rw [h.model_object, map_eq_valid] at hvalid
      obtain ⟨entries, hentries, rfl⟩ := hvalid
      have hall := gather_eq_valid.1 (closing_eq_valid.1 hentries).1
      rw [List.forall₂_map_left_iff] at hall
      refine ⟨entries, rfl, fieldsFit_iff.2 ?_⟩
      have hfields := fieldsAreSound_iff.1 hsound.2
      refine forall₂_imp_of_mem hall fun f hf entry _ hentry => ?_
      obtain ⟨hkey, hvalue⟩ := field_eq_valid.1 hentry
      refine ⟨hkey, ?_⟩
      split at hvalue
      · exact ih f hf (hfields f hf).1 hvalue
      · rw [hvalue]
        exact (hfields f hf).2
    · obtain ⟨issues, hissues⟩ :=
        h.model_other word closed fields v fun given hv => hobject ⟨given, hv⟩
      rw [hissues] at hvalid
      cases hvalid

/-- What fits stays as it is. -/
theorem valid_of_fits (h : validate.Lawful) {shape : Shape} (hsound : shape.IsSound) {v : Value}
    (hfits : shape.Fits v) : validate shape v = .valid v := by
  induction shape using induction generalizing v with
  | atom a => exact h.atom_of_holds a v hfits
  | optional inner ih =>
    by_cases hnull : v = .null
    · rw [hnull]
      exact h.optional_null inner
    · rw [h.optional_other inner v hnull]
      exact ih hsound (hfits.resolve_left hnull)
  | list inner ih =>
    obtain ⟨items, rfl, hitems⟩ := hfits
    rw [h.list_items, map_eq_valid]
    refine ⟨items, gather_eq_valid.2 ?_, rfl⟩
    rw [List.forall₂_iff_get]
    refine ⟨List.length_mapIdx, fun i hi hi' => ?_⟩
    simp only [List.get_eq_getElem, List.getElem_mapIdx, under_eq_valid]
    exact ih hsound (hitems _ (List.getElem_mem hi'))
  | ruled inner rule ih =>
    rw [h.ruled, ruledBy_eq_valid]
    exact ⟨v, ih hsound.1 hfits.1, hfits.2⟩
  | model word closed fields ih =>
    obtain ⟨entries, rfl, hentries⟩ := hfits
    have hkeys := keys_of_fieldsFit hentries
    have hnodup : Ledger.keys entries |>.Nodup := hkeys ▸ hsound.1
    rw [h.model_object, map_eq_valid]
    refine ⟨entries, closing_eq_valid.2 ⟨gather_eq_valid.2 ?_, ?_⟩, rfl⟩
    · rw [List.forall₂_map_left_iff]
      refine forall₂_imp_of_mem (fieldsFit_iff.1 hentries) fun f hf entry hentry hfit => ?_
      rw [field_eq_valid, ← hfit.1, Ledger.get?_of_mem hnodup hentry]
      exact ⟨rfl, ih f hf (fieldsAreSound_iff.1 hsound.2 f hf).1 hfit.2⟩
    · exact extras_eq_nil fun key hkey => hkeys ▸ hkey

/-! ### What is raised -/

theorem raises_list (h : validate.Lawful) {inner : Shape} {v : Value} :
    (validate (.list inner) v).Raises ↔
      ∃ items, v = .list items ∧ ∃ item ∈ items, (validate inner item).Raises := by
  by_cases hlist : ∃ items, v = .list items
  · obtain ⟨items, rfl⟩ := hlist
    rw [h.list_items, raises_map, Validated.items, raises_gather]
    constructor
    · rintro ⟨x, hx, hraises⟩
      obtain ⟨i, hi, rfl⟩ := List.mem_mapIdx.1 hx
      exact ⟨items, rfl, _, List.getElem_mem hi, raises_under.1 hraises⟩
    · rintro ⟨_, ⟨⟩, item, hitem, hraises⟩
      obtain ⟨i, hi, rfl⟩ := List.mem_iff_getElem.1 hitem
      exact ⟨_, List.mem_mapIdx.2 ⟨i, hi, rfl⟩, raises_under.2 hraises⟩
  · obtain ⟨issues, hissues⟩ := h.list_other inner v fun items hv => hlist ⟨items, hv⟩
    rw [hissues]
    refine ⟨fun hraises => absurd hraises (not_raises_invalid issues), ?_⟩
    exact fun ⟨items, hv, _⟩ => absurd ⟨items, hv⟩ hlist

theorem raises_model (h : validate.Lawful) {word : String} {closed : Bool}
    {fields : List (Slot Shape)} {v : Value} :
    (validate (.model word closed fields) v).Raises ↔
      ∃ f ∈ fields, ∃ u, v.field? f.key = some u ∧ (validate f.shape u).Raises := by
  by_cases hobject : ∃ given, v = .object given
  · obtain ⟨given, rfl⟩ := hobject
    rw [h.model_object, raises_map, raises_closing, raises_gather]
    simp only [List.mem_map, exists_exists_and_eq_and, raises_field]
    rfl
  · obtain ⟨issues, hissues⟩ :=
      h.model_other word closed fields v fun given hv => hobject ⟨given, hv⟩
    rw [hissues]
    refine ⟨fun hraises => absurd hraises (not_raises_invalid issues), ?_⟩
    rintro ⟨f, -, u, hu, -⟩
    cases v with
    | object given => exact absurd ⟨given, rfl⟩ hobject
    | _ => cases hu

theorem raises_ruled (h : validate.Lawful) {inner : Shape} {rule : Value → Ruling} {v : Value} :
    (validate (.ruled inner rule) v).Raises ↔
      (validate inner v).Raises ∨ ∃ u r, validate inner v = .valid u ∧ rule u = .raised r := by
  simp only [Raises, h.ruled, ruledBy_eq_raised]
  constructor
  · rintro ⟨r, hr | ⟨u, hu, hr⟩⟩
    · exact .inl ⟨r, hr⟩
    · exact .inr ⟨u, r, hu, hr⟩
  · rintro (⟨r, hr⟩ | ⟨u, r, hu, hr⟩)
    · exact ⟨r, .inl hr⟩
    · exact ⟨r, .inr ⟨u, hu, hr⟩⟩

/-- Whatever is raised, a rule of the shape raises it. -/
theorem exists_rule_of_raised (h : validate.Lawful) {shape : Shape} {v : Value} {r : Raised}
    (hraised : validate shape v = .raised r) : ∃ rule ∈ shape.rules, ∃ u, rule u = .raised r := by
  induction shape using induction generalizing v with
  | atom a => exact absurd hraised (h.atom_calm a v r)
  | optional inner ih =>
    by_cases hnull : v = .null
    · rw [hnull, h.optional_null] at hraised
      cases hraised
    · rw [h.optional_other inner v hnull] at hraised
      exact ih hraised
  | list inner ih =>
    by_cases hlist : ∃ items, v = .list items
    · obtain ⟨items, rfl⟩ := hlist
      rw [h.list_items, map_eq_raised] at hraised
      obtain ⟨i, hi, hitem⟩ := List.mem_mapIdx.1 (mem_of_gather hraised)
      exact ih (under_eq_raised.1 hitem)
    · obtain ⟨issues, hissues⟩ := h.list_other inner v fun items hv => hlist ⟨items, hv⟩
      rw [hissues] at hraised
      cases hraised
  | ruled inner rule ih =>
    rw [h.ruled, ruledBy_eq_raised] at hraised
    rcases hraised with hraised | ⟨u, -, hu⟩
    · obtain ⟨rule', hrule', hu⟩ := ih hraised
      exact ⟨rule', List.mem_cons_of_mem _ hrule', hu⟩
    · exact ⟨rule, List.mem_cons_self, u, hu⟩
  | model word closed fields ih =>
    by_cases hobject : ∃ given, v = .object given
    · obtain ⟨given, rfl⟩ := hobject
      rw [h.model_object, map_eq_raised, closing_eq_raised] at hraised
      obtain ⟨f, hf, hfield⟩ := List.mem_map.1 (mem_of_gather hraised)
      obtain ⟨u, -, hu⟩ := field_eq_raised.1 hfield
      obtain ⟨rule, hrule, hraises⟩ := ih f hf hu
      exact ⟨rule, mem_fieldRules.2 ⟨f, hf, hrule⟩, hraises⟩
    · obtain ⟨issues, hissues⟩ :=
        h.model_other word closed fields v fun given hv => hobject ⟨given, hv⟩
      rw [hissues] at hraised
      cases hraised

theorem not_raises_of_rules (h : validate.Lawful) {shape : Shape}
    (hrules : ∀ rule ∈ shape.rules, ∀ u r, rule u ≠ .raised r) (v : Value) :
    ¬ (validate shape v).Raises := by
  rintro ⟨r, hr⟩
  obtain ⟨rule, hrule, u, hu⟩ := exists_rule_of_raised h hr
  exact hrules rule hrule u r hu

end Lawful

end Shape

/-! ## A lawful validator -/

namespace Validated

theorem ofChecked_eq_valid {α : Type} {write : α → Value} {x : Checked α} {w : Value} :
    ofChecked write x = .valid w ↔ ∃ a, x = .ok a ∧ write a = w := by
  cases x <;> simp [ofChecked]

theorem gather_ne_invalid {α : Type} {xs : List (Validated α)} (h : ∀ x ∈ xs, x ≠ .invalid []) :
    gather xs ≠ .invalid [] := by
  induction xs with
  | nil => nofun
  | cons x rest ih =>
    obtain ⟨hx, hrest⟩ := List.forall_mem_cons.1 h
    cases x with
    | valid a =>
      rw [gather]
      cases hgather : gather rest with
      | invalid issues =>
        rintro ⟨⟩
        exact ih hrest hgather
      | _ => nofun
    | raised r => nofun
    | invalid issues =>
      have hissues : issues ≠ [] := fun hnil => hx (congrArg _ hnil)
      rw [gather]
      split <;> simp [hissues]

theorem closing_ne_invalid {α : Type} {x : Validated α} (h : x ≠ .invalid [])
    (extras : List Issue) : x.closing extras ≠ .invalid [] := by
  cases x with
  | valid a => cases extras <;> simp [closing]
  | invalid issues =>
    simp only [closing, ne_eq, invalid.injEq, List.append_eq_nil_iff, not_and]
    exact fun hnil => absurd (congrArg _ hnil) h
  | raised r => nofun

theorem map_ne_invalid {α β : Type} {x : Validated α} (h : x ≠ .invalid []) (f : α → β) :
    x.map f ≠ .invalid [] := by
  cases x with
  | invalid issues => simpa [map] using h
  | _ => nofun

theorem under_ne_invalid {α : Type} {x : Validated α} (h : x ≠ .invalid []) (step : Step) :
    x.under step ≠ .invalid [] := by
  cases x with
  | invalid issues => simpa [under] using h
  | _ => nofun

end Validated

namespace Check

theorem int_ne_error (v : Value) : int v ≠ .error [] := by
  unfold int
  split
  · nofun
  · nofun
  · split <;> nofun
  · split <;> nofun
  · nofun

theorem boolNumber_ne_error (i : Int) (v : Value) : boolNumber i v ≠ .error [] := by
  unfold boolNumber
  split
  · nofun
  · split <;> nofun

theorem bool_ne_error (v : Value) : bool v ≠ .error [] := by
  unfold bool
  split
  · nofun
  · exact boolNumber_ne_error _ _
  · split
    · exact boolNumber_ne_error _ _
    · nofun
  · split <;> nofun
  · nofun

end Check

namespace Atom

theorem read_of_holds (a : Atom) (v : Value) (h : a.Holds v) : a.read v = .valid v := by
  cases a with
  | literal words =>
    obtain ⟨s, hs, rfl⟩ := h
    simp [read, Check.literal, hs, ofChecked]
  | _ =>
    obtain ⟨x, rfl⟩ := h
    rfl

theorem holds_of_read (a : Atom) (v w : Value) (h : a.read v = .valid w) : a.Holds w := by
  cases a with
  | literal words =>
    obtain ⟨s, hs, rfl⟩ := ofChecked_eq_valid.1 h
    cases v with
    | str t =>
      rw [Check.literal] at hs
      split at hs
      · rename_i hmem
        cases hs
        exact ⟨_, by simpa using hmem, rfl⟩
      · cases hs
    | _ => cases hs
  | _ =>
    obtain ⟨x, -, rfl⟩ := ofChecked_eq_valid.1 h
    exact ⟨x, rfl⟩

theorem read_ne_invalid (a : Atom) (v : Value) : a.read v ≠ .invalid [] := by
  have hchecked : ∀ {α : Type} (write : α → Value) {x : Checked α}, x ≠ .error [] →
      ofChecked write x ≠ .invalid [] := by
    intro α write x hx
    cases x with
    | ok a => nofun
    | error issues => simpa [ofChecked] using hx
  cases a with
  | int => exact hchecked _ (Check.int_ne_error v)
  | bool => exact hchecked _ (Check.bool_ne_error v)
  | text => exact hchecked _ (by cases v <;> nofun)
  | literal words =>
    refine hchecked _ ?_
    cases v with
    | str s =>
      rw [Check.literal]
      split <;> nofun
    | _ => nofun

theorem read_ne_raised (a : Atom) (v : Value) (r : Raised) : a.read v ≠ .raised r := by
  have hchecked : ∀ {α : Type} (write : α → Value) (x : Checked α),
      ofChecked write x ≠ .raised r := by
    intro α write x
    cases x <;> nofun
  cases a <;> exact hchecked _ _

end Atom

namespace Shape

theorem readFields_eq_map (given : Ledger Value) (fields : List (Slot Shape)) :
    readFields given fields = fields.map (field read given) := by
  induction fields with
  | nil => rfl
  | cons f rest ih =>
    rw [readFields, ih]
    rfl

theorem read_ne_invalid (shape : Shape) (v : Value) : shape.read v ≠ .invalid [] := by
  induction shape using induction generalizing v with
  | atom a => exact a.read_ne_invalid v
  | optional inner ih =>
    cases v with
    | null => nofun
    | _ => exact ih _
  | list inner ih =>
    cases v with
    | list items =>
      refine map_ne_invalid (gather_ne_invalid fun x hx => ?_) _
      obtain ⟨i, hi, rfl⟩ := List.mem_mapIdx.1 hx
      exact under_ne_invalid (ih _) _
    | _ => nofun
  | ruled inner rule ih =>
    rw [read]
    cases hinner : inner.read v with
    | valid w =>
      rw [ruledBy]
      split <;> nofun
    | invalid issues => exact fun h => ih v (hinner.trans h)
    | raised r => nofun
  | model word closed fields ih =>
    cases v with
    | object given =>
      refine map_ne_invalid (closing_ne_invalid (gather_ne_invalid fun x hx => ?_) _) _
      rw [readFields_eq_map] at hx
      obtain ⟨f, hf, rfl⟩ := List.mem_map.1 hx
      rw [field]
      split
      · exact map_ne_invalid (under_ne_invalid (ih f hf _) _) _
      · nofun
    | _ => nofun

/-- Reading is lawful. -/
theorem read_lawful : Validator.Lawful read where
  explains := read_ne_invalid
  atom_of_holds := Atom.read_of_holds
  holds_of_atom := Atom.holds_of_read
  eq_of_text v w h := by
    cases v with
    | str s =>
      cases h
      rfl
    | _ => cases h
  atom_calm := Atom.read_ne_raised
  optional_null _ := rfl
  optional_other _ v hv := by
    cases v with
    | null => exact absurd rfl hv
    | _ => rfl
  list_items _ _ := rfl
  list_other _ v hv := by
    cases v with
    | list items => exact absurd rfl (hv items)
    | _ => exact ⟨_, rfl⟩
  ruled _ _ _ := rfl
  model_object word closed fields given := by rw [← readFields_eq_map, read]
  model_other _ _ _ v hv := by
    cases v with
    | object given => exact absurd rfl (hv given)
    | _ => exact ⟨_, rfl⟩

end Shape

end SymbolAtlas.Schema
