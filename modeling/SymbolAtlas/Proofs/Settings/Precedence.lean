import Mathlib
import SymbolAtlas.Proofs.Settings.Faults

/-!
# Which source a setting comes from

Layers that are laid over each other give a key what the upper one gives it, or else what the lower
one does (`Settings.given_overlay`); sections are merged and never replaced.  So every key is
settled by the first of its sources that sets it, and loading reads what the keys come to
(`Settings.load_by_key`).
-/

namespace SymbolAtlas.Settings

open Schema Validated

/-! ## Layers over layers -/

section Layers

variable {lower upper : Ledger Value}

theorem given_overlay (hlower : IsLayer lower) (hupper : IsLayer upper) (k : Key) :
    given (Value.overlay lower upper) k = (given upper k).or (given lower k) := by
  have hplain := hupper.plain k
  rw [given] at hplain
  rw [given, given, given, Value.get?_overlay hupper.distinct]
  cases habove : upper.get? k.sectionName with
  | none => rfl
  | some above =>
    obtain ⟨inner, rfl, hinner⟩ := hupper.isTable habove
    rw [habove] at hplain
    cases hbelow : lower.get? k.sectionName with
    | none => exact Option.or_none.symm
    | some below =>
      -- both layers have the section, and it is merged field by field
      obtain ⟨outer, rfl, -⟩ := hlower.isTable hbelow
      change (Value.overlay outer inner).get? k.name =
        (Ledger.get? inner k.name).or (Ledger.get? outer k.name)
      rw [Value.get?_overlay hinner]
      cases hvalue : Ledger.get? inner k.name with
      | none => rfl
      | some v => simp [Value.laidOn_of_not_object (hplain v hvalue)]

theorem IsLayer.overlay (hlower : IsLayer lower) (hupper : IsLayer upper) :
    IsLayer (Value.overlay lower upper) := by
  constructor
  · exact Value.nodup_keys_overlay hlower.distinct upper
  · intro name hname
    rcases (Value.mem_keys_overlay hupper.distinct).1 hname with hname | hname
    · exact hlower.known name hname
    · exact hupper.known name hname
  · rintro ⟨name, v⟩ hentry
    have hv := Ledger.get?_of_mem (Value.nodup_keys_overlay hlower.distinct upper) hentry
    rw [Value.get?_overlay hupper.distinct] at hv
    cases habove : upper.get? name with
    | none =>
      rw [habove] at hv
      exact hlower.isTable hv
    | some above =>
      obtain ⟨inner, rfl, hinner⟩ := hupper.isTable habove
      rw [habove] at hv
      cases hbelow : lower.get? name with
      | none =>
        rw [hbelow] at hv
        cases hv
        exact ⟨inner, rfl, hinner⟩
      | some below =>
        obtain ⟨outer, rfl, houter⟩ := hlower.isTable hbelow
        rw [hbelow] at hv
        cases hv
        exact ⟨_, rfl, Value.nodup_keys_overlay houter inner⟩
  · intro k v hv
    rw [Option.mem_def, given_overlay hlower hupper, Option.or_eq_some_iff] at hv
    rcases hv with hv | ⟨-, hv⟩
    · exact hupper.plain k v hv
    · exact hlower.plain k v hv

end Layers

/-! ## What the keys come to -/

section Keys

variable {lib : Library} {fields : Ledger Value} (h : lib.validate.Lawful)
include h

theorem Key.not_raises_resolve {k : Key} {set : Option Value}
    (hhomes : k = .outputs → ∀ outputs, set = some outputs →
      ¬ OutputsNameStranger lib.homes outputs) : ¬ (k.resolve lib set).Raises := by
  cases set with
  | none => exact not_raises_valid _
  | some v =>
    cases k with
    | outputs => exact mt (LoggingSettings.raises_outputs h).1 (hhomes rfl v rfl)
    | encoding =>
      refine Shape.not_raises_of_rules h ?_ v
      simpa [Key.shape, Shape.rules] using
        Ruling.onText_ne_raised (IndexSettings.encodingRule_ne_raised lib.codecs)
    | maxConcurrentParses =>
      refine Shape.not_raises_of_rules h ?_ v
      simpa [Key.shape, Shape.rules] using
        Ruling.onInt_ne_raised IndexSettings.concurrencyRule_ne_raised
    | queryDefault =>
      refine Shape.not_raises_of_rules h ?_ v
      simpa [Key.shape, Shape.rules] using Ruling.onInt_ne_raised LimitSettings.queryRule_ne_raised
    | _ => exact Shape.not_raises_of_rules h (by simp [Key.shape, LogLevel.shape, Shape.rules]) v

/-- The issue that comes first is that of the first key with issues. -/
theorem IsLayer.head?_issues (hlayer : IsLayer fields)
    (hcalm : ∀ k : Key, ¬ (k.resolve lib (given fields k)).Raises) {before after : List Key}
    {k : Key} (hall : Key.all = before ++ k :: after)
    (hbefore : ∀ b ∈ before, ∃ v, b.resolve lib (given fields b) = .valid v) {issue : Issue}
    {rest : List Issue} (hk : k.resolve lib (given fields k) = .invalid (issue :: rest)) :
    (lib.validate (layeredShape lib.toHost) (.object fields)).issues.head? =
      some (k.placed issue) := by
  have hnone : ∀ b ∈ before, (b.resolve lib (given fields b)).issues.map b.placed = [] := by
    intro b hb
    obtain ⟨v, hv⟩ := hbefore b hb
    rw [hv]
    rfl
  rw [hlayer.issues_layered h hcalm, hall, List.flatMap_append, List.flatMap_eq_nil_iff.2 hnone,
    List.nil_append, List.flatMap_cons, hk]
  rfl

end Keys

theorem given_toValue (s : Settings) (k : Key) {fields : Ledger Value}
    (h : s.toValue = .object fields) : given fields k = some (k.of s) := by
  cases h
  cases k <;> rfl

/-! ## The effective value of a key -/

theorem Document.fields_of_mapping {lib : Library} {bytes : List UInt8} {fields : Ledger Value}
    (path : String) (h : lib.document bytes = .mapping fields) :
    (Document.content bytes).fields lib path = .ok fields := by
  rw [Document.fields, h]

section Sources

variable (lib : Library) (s : Sources)

/-- Sources that can be told apart key by key: documents that hold these fields, plain layers and a
plain environment. -/
structure Sources.IsPlain (global repository : Ledger Value) : Prop where
  globalFields : s.globalDocument.fields lib s.globalPath = .ok global
  repositoryFields : s.repositoryDocument.fields lib s.repositoryPath = .ok repository
  globalLayer : IsLayer global
  repositoryLayer : IsLayer repository
  directLayer : IsLayer s.direct
  environment : IsPlainEnvironment lib.json (settingVariables s.environment)

/-- The value of a key in the first source that sets it: what is passed directly, the key's own
variable, the JSON of its section, the repository, the global document. -/
def Sources.effective (global repository : Ledger Value) (k : Key) : Option Value :=
  let vars := settingVariables s.environment
  (given s.direct k).or <| (byVariable lib.json vars k).or <| (bySection lib.json vars k).or <|
    (given repository k).or (given global k)

/-- What a key comes to. -/
def Sources.resolved (global repository : Ledger Value) (k : Key) : Validated Value :=
  k.resolve lib (s.effective lib global repository k)

end Sources

section Load

variable {lib : Library} {s : Sources} {global repository fields : Ledger Value}

theorem IsLayer.passesFields (h : IsLayer s.direct) : s.PassesFields := by
  intro key hkey
  have hname : ∀ name ∈ sectionNames, name.toList.head? ≠ some '_' := by decide
  exact hname key (h.known key hkey)

theorem Sources.IsPlain.exists_layered (hlib : lib.Lawful)
    (h : s.IsPlain lib global repository) :
    ∃ fields, s.layered lib = .ok fields ∧ IsLayer fields ∧
      ∀ k, given fields k = s.effective lib global repository k := by
  obtain ⟨environment, henvironment, hlayer, hgiven⟩ := hlib.plainVariables _ h.environment
  have hfiles := h.globalLayer.overlay h.repositoryLayer
  have hothers := hlayer.overlay h.directLayer
  refine ⟨Value.overlay (Value.overlay global repository) (Value.overlay environment s.direct),
    ?_, hfiles.overlay hothers, fun k => ?_⟩
  · rw [Sources.layered, Sources.documents, h.globalFields, h.repositoryFields, henvironment,
      hlib.passed s.direct h.directLayer.passesFields, ← hlib.merge]
    rfl
  · rw [given_overlay hfiles hothers, given_overlay h.globalLayer h.repositoryLayer,
      given_overlay hlayer h.directLayer, hgiven, effective, Option.or_assoc, Option.or_assoc]

section Layered

variable (hlib : lib.Lawful) (hlayered : s.layered lib = .ok fields) (hlayer : IsLayer fields)
  (hcalm : ∀ k : Key, ¬ (k.resolve lib (given fields k)).Raises)
include hlib hlayered hlayer hcalm

theorem load_of_accepted (hall : ∀ k : Key, ∃ v, k.resolve lib (given fields k) = .valid v) :
    ∃ settings : Settings, load lib s = .ok settings.toValue ∧
      ∀ k : Key, k.resolve lib (given fields k) = .valid (k.of settings) := by
  have hnone : (lib.validate (layeredShape lib.toHost) (.object fields)).issues = [] := by
    rw [hlayer.issues_layered hlib.validator hcalm, List.flatMap_eq_nil_iff]
    intro k _
    obtain ⟨v, hv⟩ := hall k
    rw [hv]
    rfl
  rw [load_eq_readLayers hlib, readLayers_of_layered hlayered]
  cases hread : lib.validate (layeredShape lib.toHost) (.object fields) with
  | raised r =>
    exact absurd ⟨r, hread⟩ (hlayer.not_raises_layered hlib.validator hcalm)
  | invalid issues =>
    rw [hread] at hnone
    cases hnone
    exact absurd hread (hlib.validator.explains _ _)
  | valid w =>
    obtain ⟨settings, rfl⟩ := exists_of_fits (Shape.fits_of_valid hlib.validator
      (isSound_layeredShape hlib.defaultEncoding) hread)
    refine ⟨settings, rfl, fun k => ?_⟩
    obtain ⟨entries, hentries, hkeys⟩ := hlayer.resolve_of_layered hlib.validator hread
    obtain ⟨v, hv, hresolve⟩ := hkeys k
    rw [given_toValue settings k hentries] at hv
    cases hv
    exact hresolve

theorem load_of_refused {before after : List Key} {k : Key} (hall : Key.all = before ++ k :: after)
    (hbefore : ∀ b ∈ before, ∃ v, b.resolve lib (given fields b) = .valid v) {issues : List Issue}
    (hk : k.resolve lib (given fields k) = .invalid issues) :
    ∃ issue rest, issues = issue :: rest ∧ load lib s = .error (faultOf (k.placed issue)) := by
  cases issues with
  | nil =>
    cases hset : given fields k with
    | none =>
      rw [hset] at hk
      cases hk
    | some v =>
      rw [hset] at hk
      exact absurd hk (hlib.validator.explains _ _)
  | cons issue rest =>
    have hfirst := hlayer.head?_issues hlib.validator hcalm hall hbefore hk
    refine ⟨issue, rest, rfl, ?_⟩
    rw [load_eq_readLayers hlib, readLayers_of_layered hlayered]
    cases hread : lib.validate (layeredShape lib.toHost) (.object fields) with
    | raised r =>
      exact absurd ⟨r, hread⟩ (hlayer.not_raises_layered hlib.validator hcalm)
    | valid w =>
      rw [hread] at hfirst
      cases hfirst
    | invalid issues =>
      rw [hread] at hfirst
      cases issues with
      | nil => cases hfirst
      | cons first rest =>
        cases hfirst
        rfl

end Layered

end Load

/-! Sources that overlap: the environment sets one limit by a variable of its own and both by the
JSON of their section, above the documents and below what is passed directly.
-/

/-- What the global document of `overlapping` sets. -/
def sampleGlobal : Ledger Value :=
  [("limits", .object [("query_default", .int 10), ("event_queue_size", .int 10)]),
   ("logging", .object [("level", .str "DEBUG")])]

/-- The global document of `overlapping`. -/
def sampleGlobalText : String :=
  "limits:\n  query_default: 10\n  event_queue_size: 10\nlogging:\n  level: DEBUG\n"

/-- What the document of the repository sets in `overlapping`. -/
def sampleRepository : Ledger Value :=
  [("index", .object [("encoding", .str "ascii")]),
   ("limits", .object [("query_default", .int 20)])]

/-- The document of the repository in `overlapping`. -/
def sampleRepositoryText : String :=
  "index:\n  encoding: ascii\nlimits:\n  query_default: 20\n"

def overlapping (direct : Ledger Value) : Sources where
  globalPath := "/home/user/.config/symindex/config.yaml"
  globalDocument := .content sampleGlobalText.toUTF8.toList
  repositoryPath := "/srv/.symindex/config.yaml"
  repositoryDocument := .content sampleRepositoryText.toUTF8.toList
  environment := [("SYMINDEX__LIMITS__QUERY_DEFAULT", "40"),
    ("SYMINDEX__LIMITS", "\x7b\"query_default\": 30, \"event_queue_size\": 30\x7d")]
  direct := direct

theorem isPlain_overlapping {direct : Ledger Value} (h : IsLayer direct) :
    (overlapping direct).IsPlain lonely sampleGlobal sampleRepository where
  globalFields := Document.fields_of_mapping _ (by decide +kernel :
    readDocument sampleGlobalText.toUTF8.toList = .mapping sampleGlobal)
  repositoryFields := Document.fields_of_mapping _ (by decide +kernel :
    readDocument sampleRepositoryText.toUTF8.toList = .mapping sampleRepository)
  globalLayer := by decide +kernel
  repositoryLayer := by decide +kernel
  directLayer := h
  environment := by
    change IsPlainEnvironment Json.read? (settingVariables (overlapping []).environment)
    decide +kernel

/-- The value that came of something, if any. -/
def value? {α : Type} : Validated α → Option α
  | .valid a => some a
  | _ => none

theorem eq_valid_of_value? {α : Type} {x : Validated α} {a : α} (h : value? x = some a) :
    x = .valid a := by
  cases x <;> cases h
  rfl

/-- Overlapping sources with an encoding that is passed directly. -/
def withEncoding (encoding : Value) : Sources :=
  overlapping [("index", .object [("encoding", encoding)])]

theorem effective_withEncoding (encoding : Value) :
    (withEncoding encoding).effective lonely sampleGlobal sampleRepository .encoding =
      some encoding := rfl

/-- The keys before the encoding do not depend on it, and what they come to is accepted. -/
theorem accepted_withEncoding (encoding : Value) :
    ∀ b ∈ [Key.level, .outputs, .extensions, .excludeDirs],
      ∃ v, (withEncoding encoding).resolved lonely sampleGlobal sampleRepository b = .valid v := by
  intro b hb
  have hsame : (withEncoding encoding).resolved lonely sampleGlobal sampleRepository b =
      (withEncoding .null).resolved lonely sampleGlobal sampleRepository b := by
    simp only [List.mem_cons, List.not_mem_nil, or_false] at hb
    rcases hb with rfl | rfl | rfl | rfl <;> rfl
  have hnull : ∀ b ∈ [Key.level, .outputs, .extensions, .excludeDirs],
      (value? ((withEncoding .null).resolved lonely sampleGlobal sampleRepository b)).isSome =
        true := by
    decide +kernel
  rw [hsame]
  exact (Option.isSome_iff_exists.1 (hnull b hb)).imp fun _ => eq_valid_of_value?

theorem outputs_withEncoding (encoding : Value) (outputs : Value)
    (h : (withEncoding encoding).effective lonely sampleGlobal sampleRepository .outputs =
      some outputs) : ¬ OutputsNameStranger lonely.homes outputs := by
  have hnone : (withEncoding .null).effective lonely sampleGlobal sampleRepository .outputs =
      none := by
    decide +kernel
  rw [show (withEncoding encoding).effective lonely sampleGlobal sampleRepository .outputs =
    (withEncoding .null).effective lonely sampleGlobal sampleRepository .outputs from rfl,
    hnone] at h
  cases h

theorem isPlain_longEncoding :
    (withEncoding longNumber).IsPlain lonely sampleGlobal sampleRepository :=
  isPlain_overlapping (by decide +kernel)

theorem resolved_longEncoding :
    (withEncoding longNumber).resolved lonely sampleGlobal sampleRepository .encoding =
      .invalid [⟨[], .stringType, longNumber⟩] := by
  rw [Sources.resolved, effective_withEncoding]
  rfl

end SymbolAtlas.Settings
