import Mathlib
import SymbolAtlas.Settings.Sources
import SymbolAtlas.Proofs.Schema.Shape

/-!
# Settings key by key

A key is a named field of a section.  Fields that are sorted into sections are read key by key: the
issues are those of the keys, in the order in which these are declared (`Settings.issues_layered`),
and what is read holds for every key what that key comes to (`Settings.resolve_of_layered`).
-/

namespace SymbolAtlas.Settings

open Schema Validated

/-- The keys of all sections. -/
inductive Key where
  | level
  | outputs
  | extensions
  | excludeDirs
  | encoding
  | cacheByFileHash
  | maxFileSizeMb
  | maxConcurrentParses
  | queryDefault
  | eventQueueSize
  deriving DecidableEq, Repr

namespace Key

/-- Every key, in the order of declaration. -/
def all : List Key :=
  [level, outputs, extensions, excludeDirs, encoding, cacheByFileHash, maxFileSizeMb,
    maxConcurrentParses, queryDefault, eventQueueSize]

/-- The section that a key belongs to. -/
def sectionName : Key → String
  | level | outputs => "logging"
  | queryDefault | eventQueueSize => "limits"
  | _ => "index"

/-- The name of a key within its section. -/
def name : Key → String
  | level => "level"
  | outputs => "outputs"
  | extensions => "extensions"
  | excludeDirs => "exclude_dirs"
  | encoding => "encoding"
  | cacheByFileHash => "cache_by_file_hash"
  | maxFileSizeMb => "max_file_size_mb"
  | maxConcurrentParses => "max_concurrent_parses"
  | queryDefault => "query_default"
  | eventQueueSize => "event_queue_size"

/-- The shape of what a key holds. -/
def shape (host : Host) : Key → Shape
  | level => LogLevel.shape
  | outputs => .list (LogOutput.shape host)
  | extensions | excludeDirs => .list (.atom .text)
  | encoding => .ruled (.atom .text) (Ruling.onText (IndexSettings.encodingRule host.codecs))
  | cacheByFileHash => .atom .bool
  | maxFileSizeMb | eventQueueSize => .atom .int
  | maxConcurrentParses => .ruled (.atom .int) (Ruling.onInt IndexSettings.concurrencyRule)
  | queryDefault => .ruled (.atom .int) (Ruling.onInt LimitSettings.queryRule)

/-- What settings hold for a key, as a value. -/
def of (s : Settings) : Key → Value
  | level => .str s.logging.level.name
  | outputs => .list (s.logging.outputs.map LogOutput.toValue)
  | extensions => Value.ofTexts s.index.extensions
  | excludeDirs => Value.ofTexts s.index.excludeDirs
  | encoding => .str s.index.encoding
  | cacheByFileHash => .bool s.index.cacheByFileHash
  | maxFileSizeMb => .int s.index.maxFileSizeMb
  | maxConcurrentParses => .int s.index.maxConcurrentParses
  | queryDefault => .int s.limits.queryDefault
  | eventQueueSize => .int s.limits.eventQueueSize

/-- A key as a field of its section. -/
def field (host : Host) (k : Key) : Slot Shape := ⟨k.name, k.shape host, k.of {}⟩

/-- What a key comes to: the value that is set for it in its proper form, the default if none is. -/
def resolve (lib : Library) (k : Key) : Option Value → Validated Value
  | some v => lib.validate (k.shape lib.toHost) v
  | none => .valid (k.of {})

/-- An issue with the value of a key, seen from outside. -/
def placed (k : Key) (issue : Issue) : Issue :=
  (issue.under (.key k.name)).under (.key k.sectionName)

theorem mem_all (k : Key) : k ∈ all := by
  cases k <;> decide

instance : Fintype Key where
  elems := all.toFinset
  complete k := List.mem_toFinset.2 (mem_all k)

theorem sectionName_mem (k : Key) : k.sectionName ∈ sectionNames := by
  cases k <;> decide

end Key

/-- The keys of a section. -/
def sectionKeys (name : String) : List Key := Key.all.filter fun k => k.sectionName = name

/-- The word for a section. -/
def sectionWord (name : String) : String :=
  match name with
  | "logging" => "LoggingConfig"
  | "index" => "IndexConfig"
  | _ => "LimitsConfig"

/-- A section as a field, key by key. -/
def sectionField (host : Host) (name : String) : Slot Shape where
  key := name
  shape := .model (sectionWord name) false ((sectionKeys name).map (Key.field host))
  fallback := .object ((sectionKeys name).map fun k => (k.name, k.of {}))

theorem sections_eq (host : Host) : sections host = sectionNames.map (sectionField host) := rfl

theorem all_eq_flatMap : Key.all = sectionNames.flatMap sectionKeys := rfl

theorem Key.mem_sectionKeys (k : Key) : k ∈ sectionKeys k.sectionName :=
  List.mem_filter.2 ⟨k.mem_all, decide_eq_true rfl⟩

theorem nodup_sectionKeys (host : Host) (name : String) :
    (((sectionKeys name).map (Key.field host)).map Slot.key).Nodup := by
  rw [List.map_map]
  exact (by decide : (Key.all.map Key.name).Nodup).sublist (List.filter_sublist.map _)

theorem sectionName_of_mem {name : String} {k : Key} (h : k ∈ sectionKeys name) :
    k.sectionName = name := by
  simpa using (List.mem_filter.1 h).2

/-! ## Fields sorted into sections -/

/-- What fields set for a key. -/
def given (fields : Ledger Value) (k : Key) : Option Value :=
  (fields.get? k.sectionName).bind (·.field? k.name)

/-- An object whose names are distinct. -/
def IsTable (v : Value) : Prop :=
  ∃ inner : Ledger Value, v = .object inner ∧ inner.keys.Nodup

instance : DecidablePred IsTable := fun v =>
  match v with
  | .object inner => decidable_of_iff (Ledger.keys inner).Nodup
      ⟨fun h => ⟨inner, rfl, h⟩, by rintro ⟨_, ⟨⟩, h⟩; exact h⟩
  | .null | .bool _ | .int _ | .float _ | .str _ | .list _ => isFalse (by rintro ⟨_, ⟨⟩, -⟩)

/-- Fields that are sorted into the known sections, each an object that sets no key to an object. -/
@[mk_iff]
structure IsLayer (fields : Ledger Value) : Prop where
  distinct : fields.keys.Nodup
  known : ∀ name ∈ fields.keys, name ∈ sectionNames
  sections : ∀ entry ∈ fields, IsTable entry.2
  plain : ∀ k, ∀ v ∈ given fields k, v.isObject = false

instance (fields : Ledger Value) : Decidable (IsLayer fields) :=
  decidable_of_iff _ (isLayer_iff fields).symm

/-- The fields of a section, none if it is absent. -/
def sectionOf (fields : Ledger Value) (name : String) : Ledger Value :=
  match fields.get? name with
  | some (.object inner) => inner
  | _ => []

theorem IsLayer.isTable {fields : Ledger Value} (h : IsLayer fields) {name : String} {v : Value}
    (hv : fields.get? name = some v) : IsTable v :=
  h.sections (name, v) (Ledger.mem_of_get? hv)

theorem IsLayer.get?_sectionOf {fields : Ledger Value} (h : IsLayer fields) (k : Key) :
    (sectionOf fields k.sectionName).get? k.name = given fields k := by
  rw [sectionOf, given]
  cases hget : fields.get? k.sectionName with
  | none => rfl
  | some v =>
    obtain ⟨inner, rfl, -⟩ := h.isTable hget
    rfl

/-! ## Reading -/

section Read

variable {lib : Library} {fields inner : Ledger Value} {name : String}

theorem field_key (inner : Ledger Value) (k : Key) :
    field lib.validate inner (k.field lib.toHost) =
      ((k.resolve lib (inner.get? k.name)).under (.key k.name)).map fun w => (k.name, w) := by
  rw [field]
  change (match inner.get? k.name with | some v => _ | none => _) = _
  cases inner.get? k.name <;> rfl

variable (h : lib.validate.Lawful)
include h

theorem validate_section (name : String) (inner : Ledger Value) :
    lib.validate (sectionField lib.toHost name).shape (.object inner) =
      (gather ((sectionKeys name).map fun k =>
        field lib.validate inner (k.field lib.toHost))).map .object := by
  rw [sectionField, h.model_object, List.map_map]
  exact congrArg _ (closing_nil _)

/-- Nothing is read as the defaults. -/
theorem validate_section_nil (name : String) :
    lib.validate (sectionField lib.toHost name).shape (.object []) =
      .valid (sectionField lib.toHost name).fallback := by
  rw [validate_section h, map_eq_valid]
  refine ⟨_, gather_eq_valid.2 ?_, rfl⟩
  rw [List.forall₂_map_left_iff, List.forall₂_map_right_iff, List.forall₂_same]
  exact fun k _ => rfl

/-- A section that is absent is read like an empty one. -/
theorem IsLayer.field_section (hlayer : IsLayer fields) (name : String) :
    field lib.validate fields (sectionField lib.toHost name) =
      ((lib.validate (sectionField lib.toHost name).shape
        (.object (sectionOf fields name))).under (.key name)).map fun w => (name, w) := by
  rw [field, sectionOf]
  change (match fields.get? name with | some v => _ | none => _) = _
  cases hget : fields.get? name with
  | none =>
    simp only [validate_section_nil h]
    rfl
  | some v =>
    obtain ⟨inner, rfl, -⟩ := hlayer.isTable hget
    rfl

theorem IsLayer.validate_layered (hlayer : IsLayer fields) :
    lib.validate (layeredShape lib.toHost) (.object fields) =
      (gather (sectionNames.map fun name =>
        field lib.validate fields (sectionField lib.toHost name))).map .object := by
  have hextras : Shape.extras true (sectionNames.map (sectionField lib.toHost)) fields = [] :=
    Shape.extras_eq_nil hlayer.known
  rw [layeredShape, sections_eq, h.model_object, hextras, closing_nil, List.map_map]
  rfl

/-! ### The issues -/

theorem raises_section {inner : Ledger Value} :
    (lib.validate (sectionField lib.toHost name).shape (.object inner)).Raises ↔
      ∃ k ∈ sectionKeys name, (k.resolve lib (inner.get? k.name)).Raises := by
  rw [validate_section h, raises_map, raises_gather]
  simp only [List.mem_map, exists_exists_and_eq_and, field_key, raises_map, raises_under]

theorem issues_section {inner : Ledger Value}
    (hcalm : ∀ k ∈ sectionKeys name, ¬ (k.resolve lib (inner.get? k.name)).Raises) :
    (lib.validate (sectionField lib.toHost name).shape (.object inner)).issues =
      (sectionKeys name).flatMap fun k =>
        (k.resolve lib (inner.get? k.name)).issues.map (Issue.under (.key k.name)) := by
  rw [validate_section h, issues_map, issues_gather, List.flatMap_map]
  · simp only [field_key, issues_map, issues_under]
  · intro x hx
    obtain ⟨k, hk, rfl⟩ := List.mem_map.1 hx
    rw [field_key, raises_map, raises_under]
    exact hcalm k hk

section Calm

variable (hlayer : IsLayer fields) (hcalm : ∀ k : Key, ¬ (k.resolve lib (given fields k)).Raises)
include hlayer hcalm

omit h in
theorem IsLayer.calm_inner (name : String) :
    ∀ k ∈ sectionKeys name, ¬ (k.resolve lib ((sectionOf fields name).get? k.name)).Raises := by
  intro k hk
  obtain rfl := sectionName_of_mem hk
  rw [hlayer.get?_sectionOf]
  exact hcalm k

theorem IsLayer.not_raises_field (name : String) :
    ¬ (field lib.validate fields (sectionField lib.toHost name)).Raises := by
  rw [hlayer.field_section h, raises_map, raises_under, raises_section h]
  rintro ⟨k, hk, hraises⟩
  exact hlayer.calm_inner hcalm name k hk hraises

theorem IsLayer.not_raises_layered :
    ¬ (lib.validate (layeredShape lib.toHost) (.object fields)).Raises := by
  rw [hlayer.validate_layered h, raises_map, raises_gather]
  rintro ⟨x, hx, hraises⟩
  obtain ⟨name, -, rfl⟩ := List.mem_map.1 hx
  exact hlayer.not_raises_field h hcalm name hraises

/-- The issues of sorted fields are those of the keys. -/
theorem IsLayer.issues_layered :
    (lib.validate (layeredShape lib.toHost) (.object fields)).issues =
      Key.all.flatMap fun k => (k.resolve lib (given fields k)).issues.map k.placed := by
  have hsection : ∀ name, (field lib.validate fields (sectionField lib.toHost name)).issues =
      (sectionKeys name).flatMap fun k =>
        (k.resolve lib (given fields k)).issues.map k.placed := by
    intro name
    rw [hlayer.field_section h, issues_map, issues_under,
      issues_section h (hlayer.calm_inner hcalm name), List.map_flatMap]
    refine List.flatMap_congr fun k hk => ?_
    obtain rfl := sectionName_of_mem hk
    rw [hlayer.get?_sectionOf, List.map_map]
    rfl
  rw [hlayer.validate_layered h, issues_map, issues_gather, List.flatMap_map, all_eq_flatMap,
    List.flatMap_assoc]
  · simp only [hsection]
  · intro x hx
    obtain ⟨name, -, rfl⟩ := List.mem_map.1 hx
    exact hlayer.not_raises_field h hcalm name

end Calm

/-! ### The values -/

/-- What is read of sorted fields holds for every key what that key comes to. -/
theorem IsLayer.resolve_of_layered (hlayer : IsLayer fields) {w : Value}
    (hread : lib.validate (layeredShape lib.toHost) (.object fields) = .valid w) :
    ∃ entries, w = .object entries ∧
      ∀ k : Key, ∃ v, given entries k = some v ∧ k.resolve lib (given fields k) = .valid v := by
  rw [hlayer.validate_layered h, map_eq_valid] at hread
  obtain ⟨entries, hentries, rfl⟩ := hread
  refine ⟨entries, rfl, fun k => ?_⟩
  have hnames : ((sectionNames.map (sectionField lib.toHost)).map Slot.key).Nodup := by
    rw [List.map_map]
    exact (by decide : sectionNames.Nodup)
  obtain ⟨u, hu, hfield⟩ := exists_get?_of_gather hnames (by rwa [List.map_map])
    (List.mem_map_of_mem k.sectionName_mem)
  rw [hlayer.field_section h, map_eq_valid] at hfield
  obtain ⟨_, hsection, ⟨⟩⟩ := hfield
  rw [under_eq_valid, validate_section h, map_eq_valid] at hsection
  obtain ⟨inner, hinner, rfl⟩ := hsection
  obtain ⟨v, hv, hfield⟩ := exists_get?_of_gather (nodup_sectionKeys _ _) (by rwa [List.map_map])
    (List.mem_map_of_mem k.mem_sectionKeys)
  rw [field_key, map_eq_valid] at hfield
  obtain ⟨_, hvalue, ⟨⟩⟩ := hfield
  rw [under_eq_valid, hlayer.get?_sectionOf] at hvalue
  refine ⟨v, ?_, hvalue⟩
  have hsection : Ledger.get? entries k.sectionName = some (.object inner) := hu
  rw [given, hsection]
  exact hv

end Read

end SymbolAtlas.Settings
