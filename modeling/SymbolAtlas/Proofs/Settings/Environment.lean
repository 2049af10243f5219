import Mathlib
import SymbolAtlas.Settings.Common
import SymbolAtlas.Proofs.Value.Overlay
import SymbolAtlas.Proofs.Settings.Keys

/-!
# The environment key by key

An environment is plain if its variables can be told apart key by key.  Then a key has the value of
its own variable, or what the JSON of its section gives it if it has none; that is one of the things
that a library is relied on for (`Settings.Library.Lawful`).  The library to work with is lawful
(`Settings.Library.common_lawful`).
-/

namespace SymbolAtlas

namespace Settings

/-! ## Plain environments -/

/-- The text of the last variable whose name has these parts. -/
def lastText? (vars : List (List String × String)) (parts : List String) : Option String :=
  (vars.reverse.find? fun entry => entry.1 = parts).map (·.2)

/-- The texts of the variables below a section can be read. -/
def AreWellFormed (json : String → Option Value) (name : String)
    (vars : List (List String × String)) : Prop :=
  ∀ entry ∈ vars, entry.1.head? = some name → entry.1.tail ≠ [] →
    (variableValue? json name entry.1.tail entry.2).isSome = true

instance (json : String → Option Value) (name : String) (vars : List (List String × String)) :
    Decidable (AreWellFormed json name vars) :=
  inferInstanceAs (Decidable (∀ entry ∈ vars, _))

/-- The value of a key's own variable. -/
def byVariable (json : String → Option Value) (vars : List (List String × String))
    (k : Key) : Option Value :=
  (lastText? vars [k.sectionName, k.name]).bind (variableValue? json k.sectionName [k.name])

/-- The value that the JSON of a section gives a key. -/
def bySection (json : String → Option Value) (vars : List (List String × String))
    (k : Key) : Option Value :=
  ((lastText? vars [k.sectionName]).bind json).bind (·.field? k.name)

/-- Variables that can be told apart key by key: the text of a section is the JSON of an object, all
that has to be JSON is, no variable reaches into a key, and no key is given an object. -/
@[mk_iff]
structure IsPlainEnvironment (json : String → Option Value)
    (vars : List (List String × String)) : Prop where
  objects : ∀ name ∈ sectionNames, ∀ text ∈ lastText? vars [name],
    (json text).any Value.isObject = true
  wellFormed : ∀ name ∈ sectionNames, AreWellFormed json name vars
  shallow : ∀ entry ∈ vars, ∀ k : Key, [k.sectionName, k.name] <+: entry.1 → entry.1.length ≤ 2
  plainVariables : ∀ k, ∀ v ∈ byVariable json vars k, v.isObject = false
  plainSections : ∀ k, ∀ v ∈ bySection json vars k, v.isObject = false

instance (json : String → Option Value) (vars : List (List String × String)) :
    Decidable (IsPlainEnvironment json vars) :=
  decidable_of_iff _ (isPlainEnvironment_iff json vars).symm

/-! ## Lawful libraries -/

/-- What a library is relied on for. -/
structure Library.Lawful (lib : Library) : Prop where
  validator : lib.validate.Lawful
  /-- The default encoding is installed. -/
  defaultEncoding : lib.codecs.lookup ({} : IndexSettings).encoding = .ok ()
  /-- Direct arguments are fields, unless their names start with an underscore. -/
  passed : ∀ direct : Ledger Value, (∀ key ∈ direct.keys, key.toList.head? ≠ some '_') →
    lib.passed direct = .ok direct
  /-- Layers are laid over each other field by field. -/
  merge : ∀ top middle bottom,
    lib.merge [top, middle, bottom] = Value.overlay bottom (Value.overlay middle top)
  /-- Variables that do not concern settings set nothing. -/
  noVariables : ∀ environment, settingVariables environment = [] →
    lib.environment environment = .ok []
  /-- The variable of a key counts before what the JSON of its section gives it. -/
  plainVariables : ∀ environment, IsPlainEnvironment lib.json (settingVariables environment) →
    ∃ fields, lib.environment environment = .ok fields ∧ IsLayer fields ∧
      ∀ k, given fields k = (byVariable lib.json (settingVariables environment) k).or
        (bySection lib.json (settingVariables environment) k)

end Settings

/-! ## The library to work with

JSON objects have distinct names.
-/

namespace Json

theorem readNumber_ne_object {s rest : List Char} {fields : Ledger Value} :
    readNumber s ≠ some (.object fields, rest) := by
  intro h
  unfold readNumber at h
  simp only at h
  split at h
  · cases h
  · split_ifs at h <;> cases h

theorem readItems_ne_object (fuel : Nat) {s rest : List Char} {acc : List Value}
    {fields : Ledger Value} : readItems fuel s acc ≠ some (.object fields, rest) := by
  intro h
  induction fuel generalizing s acc with
  | zero => cases h
  | succ fuel ih =>
    unfold readItems at h
    split at h
    · cases h
    · split at h
      · exact ih h
      · cases h
      · cases h

theorem nodup_of_readFields (fuel : Nat) {s rest : List Char} {acc fields : Ledger Value}
    (hacc : acc.keys.Nodup) (h : readFields fuel s acc = some (.object fields, rest)) :
    fields.keys.Nodup := by
  induction fuel generalizing s acc with
  | zero => cases h
  | succ fuel ih =>
    unfold readFields at h
    split at h
    · split at h
      · cases h
      · split at h
        · split at h
          · cases h
          · split at h
            · exact ih (Ledger.nodup_keys_set hacc _ _) h
            · cases h
              exact Ledger.nodup_keys_set hacc _ _
            · cases h
        · cases h
    · cases h

theorem nodup_of_readValue (fuel : Nat) {s rest : List Char} {fields : Ledger Value}
    (h : readValue fuel s = some (.object fields, rest)) : fields.keys.Nodup := by
  have hnil : Ledger.keys ([] : Ledger Value) |>.Nodup := List.nodup_nil
  cases fuel with
  | zero => cases h
  | succ fuel =>
    unfold readValue at h
    split at h
    · split at h
      · cases h
        exact hnil
      · exact nodup_of_readFields fuel hnil h
    · split at h
      · cases h
      · exact absurd h (readItems_ne_object fuel)
    · rw [Option.map_eq_some_iff] at h
      obtain ⟨⟨text, after⟩, -, heq⟩ := h
      cases heq
    · cases h
    · cases h
    · cases h
    · exact absurd h readNumber_ne_object

theorem nodup_of_read? {text : String} {fields : Ledger Value}
    (h : read? text = some (.object fields)) : fields.keys.Nodup := by
  simp only [read?] at h
  split at h
  · rename_i v rest hread
    split at h
    · cases h
      exact nodup_of_readValue _ hread
    · cases h
  · cases h

end Json

namespace Settings

section Common

variable {json : String → Option Value} {vars : List (List String × String)} {name key : String}
  {fields acc : Ledger Value}

/-! ## Single variables -/

theorem lastText?_cons (entry : List String × String) (parts : List String) :
    lastText? (entry :: vars) parts =
      (lastText? vars parts).or (if entry.1 = parts then some entry.2 else none) := by
  rw [lastText?, List.reverse_cons, List.find?_append, Option.map_or, ← lastText?]
  congr 1
  by_cases h : entry.1 = parts <;> simp [h]

theorem mem_of_lastText? {parts : List String} {text : String}
    (h : lastText? vars parts = some text) : (parts, text) ∈ vars := by
  obtain ⟨⟨parts', text'⟩, hfind, rfl⟩ := Option.map_eq_some_iff.1 h
  have hparts : parts' = parts := by simpa using List.find?_some hfind
  subst hparts
  exact List.mem_reverse.1 (List.mem_of_find?_eq_some hfind)

theorem get?_enter_self (v : Value) : (enter fields [key] v).get? key = some v :=
  Ledger.get?_set_self _ _ _

theorem get?_enter_of_ne {first : String} (h : key ≠ first) (more : List String) (v : Value) :
    (enter fields (first :: more) v).get? key = fields.get? key := by
  cases more with
  | nil => exact Ledger.get?_set_of_ne _ _ h
  | cons part more =>
    simp only [enter]
    split
    · exact Ledger.get?_set_of_ne _ _ h
    · exact Ledger.get?_set_of_ne _ _ h
    · rfl

theorem nodup_keys_enter (h : fields.keys.Nodup) (path : List String) (v : Value) :
    (enter fields path v).keys.Nodup := by
  unfold enter
  split
  · exact h
  · exact Ledger.nodup_keys_set h _ _
  · split
    · exact Ledger.nodup_keys_set h _ _
    · exact Ledger.nodup_keys_set h _ _
    · exact h

theorem sectionVariables_below {path : List String} {text : String} {v : Value} (hpath : path ≠ [])
    (hv : variableValue? json name path text = some v) :
    sectionVariables json name ((name :: path, text) :: vars) acc =
      sectionVariables json name vars (enter acc path v) := by
  rw [sectionVariables]
  simp [hpath, hv]

theorem sectionVariables_aside {parts : List String} {text : String}
    (h : ∀ path, parts = name :: path → path = []) :
    sectionVariables json name ((parts, text) :: vars) acc =
      sectionVariables json name vars acc := by
  cases parts with
  | nil => rfl
  | cons first path =>
    rw [sectionVariables]
    by_cases hfirst : first = name
    · simp [h path (by rw [hfirst])]
    · simp [hfirst]

theorem AreWellFormed.exists_value (h : AreWellFormed json name vars) {path : List String}
    {text : String} (hmem : (name :: path, text) ∈ vars) (hpath : path ≠ []) :
    ∃ v, variableValue? json name path text = some v :=
  Option.isSome_iff_exists.1 (h _ hmem rfl hpath)

/-- A field that no variable reaches into has the value of the last variable of its name. -/
theorem exists_sectionVariables (hacc : acc.keys.Nodup) (hvars : AreWellFormed json name vars) :
    ∃ fields, sectionVariables json name vars acc = .ok fields ∧ fields.keys.Nodup ∧
      ∀ key, (∀ entry ∈ vars, ∀ part more, entry.1 ≠ name :: key :: part :: more) →
        fields.get? key =
          ((lastText? vars [name, key]).bind (variableValue? json name [key])).or
            (acc.get? key) := by
  induction vars generalizing acc with
  | nil => exact ⟨acc, rfl, hacc, fun key _ => rfl⟩
  | cons entry rest ih =>
    obtain ⟨parts, text⟩ := entry
    have hrest : AreWellFormed json name rest := fun entry hentry =>
      hvars entry (List.mem_cons_of_mem _ hentry)
    by_cases hparts : ∃ path, parts = name :: path ∧ path ≠ []
    · obtain ⟨path, rfl, hpath⟩ := hparts
      obtain ⟨v, hv⟩ := hvars.exists_value List.mem_cons_self hpath
      obtain ⟨fields, hfields, hnodup, hget⟩ := ih (nodup_keys_enter hacc path v) hrest
      refine ⟨fields, ?_, hnodup, fun key hkey => ?_⟩
      · rw [sectionVariables_below hpath hv, hfields]
      · rw [hget key fun entry hentry => hkey entry (List.mem_cons_of_mem _ hentry), lastText?_cons]
        -- a variable of the key itself counts unless a later one does
        by_cases hself : path = [key]
        · subst hself
          rw [if_pos rfl, get?_enter_self]
          cases hlast : lastText? rest [name, key] with
          | none => simp [hv]
          | some last =>
            obtain ⟨w, hw⟩ := hrest.exists_value (mem_of_lastText? hlast) hpath
            simp [hw]
        · obtain ⟨first, more, rfl⟩ := List.exists_cons_of_ne_nil hpath
          -- and no other variable reaches the key
          have hfirst : key ≠ first := by
            rintro rfl
            cases more with
            | nil => exact hself rfl
            | cons part more => exact hkey _ List.mem_cons_self part more rfl
          rw [get?_enter_of_ne hfirst, if_neg (by simpa using hself), Option.or_none]
    · have haside : ∀ path, parts = name :: path → path = [] :=
        fun path hpath => by_contra fun hne => hparts ⟨path, hpath, hne⟩
      obtain ⟨fields, hfields, hnodup, hget⟩ := ih hacc hrest
      refine ⟨fields, ?_, hnodup, fun key hkey => ?_⟩
      · rw [sectionVariables_aside haside, hfields]
      · rw [hget key fun entry hentry => hkey entry (List.mem_cons_of_mem _ hentry), lastText?_cons,
          if_neg fun hself => hparts ⟨[key], hself, by simp⟩, Option.or_none]

/-! ## Sections -/

theorem IsPlainEnvironment.exists_object (h : IsPlainEnvironment json vars)
    (hname : name ∈ sectionNames) {text : String} (htext : lastText? vars [name] = some text) :
    ∃ whole, json text = some (.object whole) := by
  have hobject := h.objects name hname text htext
  cases hread : json text with
  | none => simp [hread] at hobject
  | some v =>
    cases v with
    | object whole => exact ⟨whole, rfl⟩
    | _ => simp [hread, Value.isObject] at hobject

theorem IsPlainEnvironment.not_below (h : IsPlainEnvironment json vars) (k : Key) :
    ∀ entry ∈ vars, ∀ part more, entry.1 ≠ k.sectionName :: k.name :: part :: more := by
  intro entry hentry part more heq
  have hlength := h.shallow entry hentry k (heq ▸ ⟨part :: more, rfl⟩)
  simp [heq] at hlength

theorem sectionFromEnvironment_of_none (htext : lastText? vars [name] = none)
    (hfields : sectionVariables json name vars [] = .ok fields) :
    sectionFromEnvironment json vars name =
      .ok (if fields.isEmpty then none else some (.object fields)) := by
  rw [sectionFromEnvironment, Option.map_eq_none_iff.1 htext, hfields]
  cases fields <;> rfl

theorem sectionFromEnvironment_of_object {text : String} {whole : Ledger Value}
    (htext : lastText? vars [name] = some text) (hwhole : json text = some (.object whole))
    (hfields : sectionVariables json name vars [] = .ok fields) :
    sectionFromEnvironment json vars name = .ok (some (.object (Value.overlay whole fields))) := by
  obtain ⟨entry, hfind, rfl⟩ := Option.map_eq_some_iff.1 htext
  rw [sectionFromEnvironment, hfind]
  simp only [hwhole, hfields]

/-- The variables below a section make an object in which every key has the value of its own. -/
theorem IsPlainEnvironment.exists_variables (h : IsPlainEnvironment json vars)
    (hname : name ∈ sectionNames) :
    ∃ fields : Ledger Value, sectionVariables json name vars [] = .ok fields ∧ fields.keys.Nodup ∧
      ∀ k : Key, k.sectionName = name → fields.get? k.name = byVariable json vars k := by
  have hempty : Ledger.keys ([] : Ledger Value) |>.Nodup := List.nodup_nil
  obtain ⟨fields, hfields, hnodup, hget⟩ := exists_sectionVariables hempty (h.wellFormed name hname)
  refine ⟨fields, hfields, hnodup, ?_⟩
  rintro k rfl
  rw [hget k.name (h.not_below k), byVariable]
  exact Option.or_none

theorem IsPlainEnvironment.exists_section (h : IsPlainEnvironment json vars)
    (hjson : ∀ text (fields : Ledger Value), json text = some (.object fields) →
      fields.keys.Nodup)
    (hname : name ∈ sectionNames) :
    ∃ set, sectionFromEnvironment json vars name = .ok set ∧ (∀ v ∈ set, IsTable v) ∧
      ∀ k : Key, k.sectionName = name →
        (set.bind fun v => v.field? k.name) =
          (byVariable json vars k).or (bySection json vars k) := by
  obtain ⟨fields, hfields, hnodup, hown⟩ := h.exists_variables hname
  cases htext : lastText? vars [name] with
  | none =>
    have hwhole : ∀ k : Key, k.sectionName = name → bySection json vars k = none := by
      rintro k rfl
      rw [bySection, htext]
      rfl
    refine ⟨_, sectionFromEnvironment_of_none htext hfields, ?_, fun k hk => ?_⟩
    · intro v hv
      split at hv
      · cases hv
      · cases hv
        exact ⟨fields, rfl, hnodup⟩
    · rw [hwhole k hk, ← hown k hk, Option.or_none]
      cases fields <;> rfl
  | some text =>
    obtain ⟨whole, hwhole⟩ := h.exists_object hname htext
    refine ⟨_, sectionFromEnvironment_of_object htext hwhole hfields, ?_, fun k hk => ?_⟩
    · rintro v ⟨⟩
      exact ⟨_, rfl, Value.nodup_keys_overlay (hjson _ _ hwhole) fields⟩
    · have hsection : bySection json vars k = Ledger.get? whole k.name := by
        rw [bySection, hk, htext, Option.bind_some, hwhole]
        rfl
      rw [Option.bind_some, Value.field?, Value.get?_overlay hnodup, hown k hk, hsection]
      cases hvariable : byVariable json vars k with
      | none => rfl
      | some v => simp [Value.laidOn_of_not_object (h.plainVariables k v hvariable)]

/-! ## The layer of the environment -/

theorem exists_fromEnvironment {names : List String} (hnames : names.Nodup)
    (h : ∀ name ∈ names, ∃ set, sectionFromEnvironment json vars name = .ok set) :
    ∃ fields, fromEnvironment json vars names = .ok fields ∧ fields.keys.Sublist names ∧
      ∀ name ∈ names, sectionFromEnvironment json vars name = .ok (fields.get? name) := by
  induction names with
  | nil => exact ⟨[], rfl, List.Sublist.refl _, nofun⟩
  | cons name rest ih =>
    rw [List.nodup_cons] at hnames
    obtain ⟨set, hset⟩ := h name List.mem_cons_self
    obtain ⟨fields, hfields, hkeys, hget⟩ :=
      ih hnames.2 fun other hother => h other (List.mem_cons_of_mem _ hother)
    have hne : ∀ other ∈ rest, name ≠ other := by
      rintro other hother rfl
      exact hnames.1 hother
    rw [fromEnvironment, hset, hfields]
    cases set with
    | none =>
      refine ⟨fields, rfl, hkeys.cons name, ?_⟩
      rw [List.forall_mem_cons]
      refine ⟨?_, hget⟩
      rw [hset, Ledger.get?_eq_none_iff.2 fun hmem => hnames.1 (hkeys.subset hmem)]
    | some v =>
      refine ⟨(name, v) :: fields, rfl, hkeys.cons_cons name, ?_⟩
      rw [List.forall_mem_cons]
      refine ⟨?_, fun other hother => ?_⟩
      · rw [hset, Ledger.get?_cons, if_pos rfl]
      · rw [hget other hother, Ledger.get?_cons, if_neg (hne other hother)]

/-- A plain environment makes a layer, in which a key has the value of its own variable or else what
the JSON of its section gives it. -/
theorem IsPlainEnvironment.exists_layer (h : IsPlainEnvironment json vars)
    (hjson : ∀ text (fields : Ledger Value), json text = some (.object fields) →
      fields.keys.Nodup) :
    ∃ fields, fromEnvironment json vars sectionNames = .ok fields ∧ IsLayer fields ∧
      ∀ k, given fields k = (byVariable json vars k).or (bySection json vars k) := by
  obtain ⟨fields, hfields, hkeys, hget⟩ := exists_fromEnvironment (by decide) fun name hname =>
    (h.exists_section hjson hname).imp fun _ hset => hset.1
  have hsection : ∀ name ∈ sectionNames,
      (∀ v ∈ fields.get? name, IsTable v) ∧
      ∀ k : Key, k.sectionName = name →
        given fields k = (byVariable json vars k).or (bySection json vars k) := by
    intro name hname
    obtain ⟨set, hset, hobject, hkey⟩ := h.exists_section hjson hname
    rw [hget name hname] at hset
    cases hset
    refine ⟨hobject, ?_⟩
    rintro k rfl
    exact hkey k rfl
  have hgiven : ∀ k, given fields k = (byVariable json vars k).or (bySection json vars k) :=
    fun k => (hsection _ k.sectionName_mem).2 k rfl
  refine ⟨fields, hfields, ?_, hgiven⟩
  constructor
  · exact hkeys.nodup (by decide)
  · exact fun name hname => hkeys.subset hname
  · rintro ⟨name, v⟩ hentry
    have hname : name ∈ fields.keys := List.mem_map_of_mem hentry
    apply (hsection name (hkeys.subset hname)).1
    exact Ledger.get?_of_mem (hkeys.nodup (by decide)) hentry
  · intro k v hv
    rw [Option.mem_def, hgiven, Option.or_eq_some_iff] at hv
    rcases hv with hv | ⟨-, hv⟩
    · exact h.plainVariables k v hv
    · exact h.plainSections k v hv

end Common

/-- The library to work with is lawful wherever the default encoding is known. -/
theorem Library.common_lawful {host : Host}
    (h : host.codecs.lookup ({} : IndexSettings).encoding = .ok ()) :
    (Library.common host).Lawful where
  validator := Schema.Shape.read_lawful
  defaultEncoding := h
  passed direct hdirect := by
    refine congrArg Except.ok (List.filter_eq_self.2 fun entry hentry => ?_)
    simpa using hdirect entry.1 (List.mem_map_of_mem hentry)
  merge _ _ _ := rfl
  noVariables environment hnone := by
    change fromEnvironment Json.read? (settingVariables environment) sectionNames = .ok []
    rw [hnone]
    rfl
  plainVariables _ hplain := hplain.exists_layer fun _ _ => Json.nodup_of_read?

end Settings

end SymbolAtlas
