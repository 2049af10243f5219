import Mathlib
import SymbolAtlas.Proofs.Text.Path
import SymbolAtlas.Proofs.Settings.Environment

/-!
# Settings in canonical form

Validating is lenient, but what it gives is canonical: destinations are written out, and every
further rule holds of what it made itself.  So the shapes of settings are sound
(`Settings.isSound_shape`), and validating, writing and validating once more comes to nothing new
(`Settings.reads_what_it_writes`).
-/

namespace SymbolAtlas

open Schema

/-! ## Destinations -/

theorem Path.Proper.join {base p : Path} (hbase : base.Proper) (hp : p.Proper) :
    (base.join p).Proper := by
  unfold Path.join
  split
  · exact hp
  · refine ⟨hbase.root, fun part hpart => ?_⟩
    rcases List.mem_append.1 hpart with hpart | hpart
    · exact hbase.parts part hpart
    · exact hp.parts part hpart

section Destinations

variable {homes : Homes}

theorem expandHome_of_isAbsolute {path : Path} (h : path.isAbsolute = true) :
    expandHome homes path = .ok path := by
  unfold expandHome
  split
  · rename_i hroot _
    rw [Path.isAbsolute, hroot] at h
    cases h
  · rfl

theorem proper_of_expandHome {path expanded : Path} (hpath : path.Proper)
    (h : expandHome homes path = .ok expanded) : expanded.Proper := by
  unfold expandHome at h
  split at h
  · rename_i first rest _ hparts
    have hrest : Path.Proper ⟨"", rest⟩ :=
      ⟨.inl rfl, fun part hpart => hpath.parts part (hparts ▸ List.mem_cons_of_mem _ hpart)⟩
    split at h
    · split at h
      · cases h
      · split at h
        · cases h
          exact (Path.proper_parse _).join hrest
        · cases h
    · cases h
      exact hpath
  · cases h
    exact hpath

/-- A destination that was brought into canonical form is in canonical form. -/
theorem canonicalDestination_canonical {text path : String}
    (h : canonicalDestination homes text = .ok path) :
    canonicalDestination homes path = .ok path := by
  unfold canonicalDestination at h
  split at h
  · rename_i hstream
    cases h
    rw [canonicalDestination, if_pos hstream]
  · split at h
    · cases h
    · rename_i expanded hexpanded
      split at h
      · rename_i habsolute
        cases h
        have hproper := proper_of_expandHome (Path.proper_parse text) hexpanded
        rw [canonicalDestination]
        split
        · rfl
        · rw [hproper.parse_render, expandHome_of_isAbsolute habsolute]
          exact if_pos habsolute
      · cases h

end Destinations

/-! ## Rules that leave alone what they made -/

namespace Schema

theorem Shape.isSound_onText {rule : String → Ruling}
    (h : ∀ s w, rule s = .accepted w → ∃ t, w = .str t ∧ rule t = .accepted (.str t)) :
    (Shape.ruled (.atom .text) (Ruling.onText rule)).IsSound := by
  refine ⟨trivial, ?_⟩
  rintro _ w ⟨s, rfl⟩ hrule
  obtain ⟨t, rfl, ht⟩ := h s w hrule
  exact ⟨⟨t, rfl⟩, ht⟩

theorem Shape.isSound_onInt {rule : Int → Ruling}
    (h : ∀ n w, rule n = .accepted w → ∃ m, w = .int m ∧ rule m = .accepted (.int m)) :
    (Shape.ruled (.atom .int) (Ruling.onInt rule)).IsSound := by
  refine ⟨trivial, ?_⟩
  rintro _ w ⟨n, rfl⟩ hrule
  obtain ⟨m, rfl, hm⟩ := h n w hrule
  exact ⟨⟨m, rfl⟩, hm⟩

theorem Ruling.gotNumber_ne_accepted (text : String) (n : Int) (w : Value) :
    gotNumber text n ≠ .accepted w := by
  unfold gotNumber
  split <;> nofun

end Schema

theorem LogOutput.destinationRule_eq_accepted {homes : Homes} {text : String} {w : Value} :
    destinationRule homes text = .accepted w ↔
      ∃ path, canonicalDestination homes text = .ok path ∧ w = .str path := by
  unfold destinationRule
  cases canonicalDestination homes text with
  | ok path => simp [eq_comm]
  | error fault => cases fault <;> simp

theorem LogOutput.destinationRule_stays {homes : Homes} (text : String) (w : Value)
    (h : destinationRule homes text = .accepted w) :
    ∃ path, w = .str path ∧ destinationRule homes path = .accepted (.str path) := by
  obtain ⟨path, hpath, rfl⟩ := destinationRule_eq_accepted.1 h
  exact ⟨path, rfl, destinationRule_eq_accepted.2 ⟨path, canonicalDestination_canonical hpath, rfl⟩⟩

theorem IndexSettings.encodingRule_stays {codecs : Codecs} (name : String) (w : Value)
    (h : encodingRule codecs name = .accepted w) :
    ∃ name', w = .str name' ∧ encodingRule codecs name' = .accepted (.str name') := by
  have hname : w = .str name := by
    unfold encodingRule at h
    split at h
    · cases h
      rfl
    · cases h
    · cases h
  exact ⟨name, hname, hname ▸ h⟩

theorem IndexSettings.concurrencyRule_stays (n : Int) (w : Value)
    (h : concurrencyRule n = .accepted w) :
    ∃ m, w = .int m ∧ concurrencyRule m = .accepted (.int m) := by
  have hn : w = .int n := by
    unfold concurrencyRule at h
    split at h
    · exact absurd h (Ruling.gotNumber_ne_accepted _ _ _)
    · cases h
      rfl
  exact ⟨n, hn, hn ▸ h⟩

theorem LimitSettings.queryRule_stays (n : Int) (w : Value) (h : queryRule n = .accepted w) :
    ∃ m, w = .int m ∧ queryRule m = .accepted (.int m) := by
  have hn : w = .int n := by
    unfold queryRule at h
    split at h
    · exact absurd h (Ruling.gotNumber_ne_accepted _ _ _)
    · cases h
      rfl
  exact ⟨n, hn, hn ▸ h⟩

/-! ## Sound shapes -/

namespace LogLevel

theorem name_mem (l : LogLevel) : l.name ∈ all.map name := by
  cases l <;> decide

theorem exists_of_fits {v : Value} (h : shape.Fits v) : ∃ l : LogLevel, v = .str l.name := by
  obtain ⟨s, hs, rfl⟩ := h
  obtain ⟨l, -, rfl⟩ := List.mem_map.1 hs
  exact ⟨l, rfl⟩

@[simp] theorem ofName?_name (l : LogLevel) : ofName? l.name = some l := by
  cases l <;> decide

end LogLevel

namespace LogFormat

theorem name_mem (f : LogFormat) : f.name ∈ all.map name := by
  cases f <;> decide

theorem exists_of_fits {v : Value} (h : shape.Fits v) : ∃ f : LogFormat, v = .str f.name := by
  obtain ⟨s, hs, rfl⟩ := h
  obtain ⟨f, -, rfl⟩ := List.mem_map.1 hs
  exact ⟨f, rfl⟩

@[simp] theorem ofName?_name (f : LogFormat) : ofName? f.name = some f := by
  cases f <;> decide

end LogFormat

section Sound

variable (host : Host)

theorem LogOutput.fields_sound :
    ∀ f ∈ fields host, f.shape.IsSound ∧ f.shape.Fits f.fallback := by
  have hstream : destinationRule host.homes "stderr" = .accepted (.str "stderr") := by
    simp [destinationRule, canonicalDestination]
  simp only [fields, List.forall_mem_cons, List.not_mem_nil, false_imp_iff, implies_true, and_true]
  refine ⟨⟨trivial, _, LogFormat.name_mem .console, rfl⟩, ⟨?_, ⟨_, rfl⟩, hstream⟩,
    ⟨trivial, .inl rfl⟩⟩
  exact Shape.isSound_onText destinationRule_stays

theorem LogOutput.isSound_shape : (shape host).IsSound :=
  Shape.isSound_model (by simp [fields]) (fields_sound host)

/-- An output that sets nothing is in canonical form. -/
theorem LogOutput.fits_default : (shape host).Fits (toValue {}) :=
  Shape.fits_defaults fun f hf => (fields_sound host f hf).2

namespace Settings

open Settings (Key)

theorem Key.isSound_shape (k : Key) : (k.shape host).IsSound := by
  cases k with
  | outputs => exact LogOutput.isSound_shape host
  | encoding => exact Shape.isSound_onText IndexSettings.encodingRule_stays
  | maxConcurrentParses => exact Shape.isSound_onInt IndexSettings.concurrencyRule_stays
  | queryDefault => exact Shape.isSound_onInt LimitSettings.queryRule_stays
  | _ => trivial

variable {host}

theorem Key.fits_default
    (h : host.codecs.lookup ({} : IndexSettings).encoding = .ok ()) (k : Key) :
    (k.shape host).Fits (k.of {}) := by
  cases k with
  | level => exact ⟨_, LogLevel.name_mem .info, rfl⟩
  | outputs => exact ⟨_, rfl, by simpa using LogOutput.fits_default host⟩
  | extensions | excludeDirs => exact ⟨_, rfl, by simp [Shape.Fits, Atom.Holds]⟩
  | encoding => exact ⟨⟨_, rfl⟩, by simp [Ruling.onText, IndexSettings.encodingRule, Key.of, h]⟩
  | maxConcurrentParses | queryDefault => exact ⟨⟨_, rfl⟩, rfl⟩
  | cacheByFileHash | maxFileSizeMb | eventQueueSize => exact ⟨_, rfl⟩

section Default

variable (h : host.codecs.lookup ({} : IndexSettings).encoding = .ok ())
include h

theorem fields_sound (name : String) : ∀ f ∈ (sectionKeys name).map (Key.field host),
    f.shape.IsSound ∧ f.shape.Fits f.fallback := by
  rw [List.forall_mem_map]
  exact fun k _ => ⟨k.isSound_shape host, k.fits_default h⟩

theorem sections_sound : ∀ f ∈ sections host, f.shape.IsSound ∧ f.shape.Fits f.fallback := by
  rw [sections_eq, List.forall_mem_map]
  intro name _
  refine ⟨Shape.isSound_model (nodup_sectionKeys _ _) (fields_sound h name), ?_⟩
  have hfits := @Shape.fits_defaults (sectionWord name) false _ fun f hf =>
    (fields_sound h name f hf).2
  rwa [List.map_map] at hfits

/-- The shapes of all sections are sound. -/
theorem isSound_shape : (shape host).IsSound :=
  Shape.isSound_model (by simp [sections]) (sections_sound h)

theorem isSound_layeredShape : (layeredShape host).IsSound := isSound_shape h

end Default

end Settings

end Sound

/-! ## Values and records -/

theorem mapM_map_some {α β : Type} {f : β → Option α} {g : α → β} (h : ∀ a, f (g a) = some a)
    (as : List α) : (as.map g).mapM f = some as := by
  induction as with
  | nil => rfl
  | cons a rest ih => simp [h, ih]

section Records

variable {host : Host} {v : Value}

theorem LogOutput.exists_of_fits (h : (shape host).Fits v) : ∃ o : LogOutput, o.toValue = v := by
  obtain ⟨_, rfl, _, _, rfl, hformat, _, _, rfl, ⟨⟨destination, rfl⟩, -⟩, level, _, rfl, hlevel,
    rfl⟩ := h
  obtain ⟨format, rfl⟩ := LogFormat.exists_of_fits hformat
  rcases hlevel with rfl | hlevel
  · exact ⟨⟨format, destination, none⟩, rfl⟩
  · obtain ⟨level, rfl⟩ := LogLevel.exists_of_fits hlevel
    exact ⟨⟨format, destination, some level⟩, rfl⟩

theorem LogOutput.ofValue?_toValue (o : LogOutput) : ofValue? o.toValue = some o := by
  obtain ⟨format, destination, _ | level⟩ := o <;>
    simp [ofValue?, toValue, Value.field, Value.field?, Ledger.get?_cons, Value.text?,
      Value.ofText?]

theorem exists_list_of_fits {α : Type} {inner : Shape} {toValue : α → Value}
    (hinner : ∀ {v}, inner.Fits v → ∃ a, toValue a = v) (h : (Shape.list inner).Fits v) :
    ∃ as : List α, .list (as.map toValue) = v := by
  obtain ⟨items, rfl, hitems⟩ := h
  have hrange : items ∈ Set.range (List.map toValue) := by
    rw [Set.range_list_map]
    exact fun item hitem => hinner (hitems item hitem)
  obtain ⟨as, rfl⟩ := hrange
  exact ⟨as, rfl⟩

theorem exists_texts_of_fits (h : (Shape.list (.atom .text)).Fits v) :
    ∃ texts, Value.ofTexts texts = v := by
  refine exists_list_of_fits (fun {v} hv => ?_) h
  obtain ⟨s, rfl⟩ := hv
  exact ⟨s, rfl⟩

@[simp] theorem Value.texts?_ofTexts (texts : List String) :
    (ofTexts texts).texts? = some texts :=
  @mapM_map_some String Value text? str (fun _ => rfl) texts

theorem LoggingSettings.exists_of_fits (h : (shape host).Fits v) :
    ∃ s : LoggingSettings, s.toValue = v := by
  obtain ⟨_, rfl, _, _, rfl, hlevel, _, _, rfl, houtputs, rfl⟩ := h
  obtain ⟨level, rfl⟩ := LogLevel.exists_of_fits hlevel
  obtain ⟨outputs, rfl⟩ := exists_list_of_fits LogOutput.exists_of_fits houtputs
  exact ⟨⟨level, outputs⟩, rfl⟩

theorem LoggingSettings.ofValue?_toValue (s : LoggingSettings) : ofValue? s.toValue = some s := by
  have houtputs := mapM_map_some LogOutput.ofValue?_toValue s.outputs
  simp [ofValue?, toValue, Value.field, Value.field?, Ledger.get?_cons, Value.text?, Value.items?,
    houtputs]

theorem IndexSettings.exists_of_fits (h : (shape host).Fits v) :
    ∃ s : IndexSettings, s.toValue = v := by
  obtain ⟨_, rfl, _, _, rfl, hextensions, _, _, rfl, hexcludeDirs, _, _, rfl, ⟨⟨encoding, rfl⟩, -⟩,
    _, _, rfl, ⟨byHash, rfl⟩, _, _, rfl, ⟨size, rfl⟩, _, _, rfl, ⟨⟨concurrency, rfl⟩, -⟩, rfl⟩ := h
  obtain ⟨extensions, rfl⟩ := exists_texts_of_fits hextensions
  obtain ⟨excludeDirs, rfl⟩ := exists_texts_of_fits hexcludeDirs
  exact ⟨⟨extensions, excludeDirs, encoding, byHash, size, concurrency⟩, rfl⟩

theorem IndexSettings.ofValue?_toValue (s : IndexSettings) : ofValue? s.toValue = some s := by
  simp [ofValue?, toValue, Value.field, Value.field?, Ledger.get?_cons, Value.text?, Value.bool?,
    Value.int?]

theorem LimitSettings.exists_of_fits (h : shape.Fits v) : ∃ s : LimitSettings, s.toValue = v := by
  obtain ⟨_, rfl, _, _, rfl, ⟨⟨query, rfl⟩, -⟩, _, _, rfl, ⟨size, rfl⟩, rfl⟩ := h
  exact ⟨⟨query, size⟩, rfl⟩

theorem LimitSettings.ofValue?_toValue (s : LimitSettings) : ofValue? s.toValue = some s := by
  simp [ofValue?, toValue, Value.field, Value.field?, Ledger.get?_cons, Value.int?]

theorem Settings.exists_of_fits (h : (shape host).Fits v) : ∃ s : Settings, s.toValue = v := by
  obtain ⟨_, rfl, _, _, rfl, hlogging, _, _, rfl, hindex, _, _, rfl, hlimits, rfl⟩ := h
  obtain ⟨logging, rfl⟩ := LoggingSettings.exists_of_fits hlogging
  obtain ⟨index, rfl⟩ := IndexSettings.exists_of_fits hindex
  obtain ⟨limits, rfl⟩ := LimitSettings.exists_of_fits hlimits
  exact ⟨⟨logging, index, limits⟩, rfl⟩

theorem Settings.ofValue?_toValue (s : Settings) : ofValue? s.toValue = some s := by
  simp [ofValue?, toValue, Value.field, Value.field?, Ledger.get?_cons,
    LoggingSettings.ofValue?_toValue, IndexSettings.ofValue?_toValue,
    LimitSettings.ofValue?_toValue]

end Records

/-! ## Reading what is written -/

namespace Settings

variable {lib : Library}

/-- Settings that were read from layers have the form of settings. -/
theorem fits_of_readLayers (h : lib.Lawful) {s : Sources} {v : Value}
    (hread : readLayers lib s = .ok v) : (shape lib.toHost).Fits v := by
  unfold readLayers at hread
  cases hlayers : s.layered lib with
  | error fault =>
    rw [hlayers] at hread
    cases hread
  | ok fields =>
    rw [hlayers] at hread
    simp only [bind, Except.bind] at hread
    split at hread
    · rename_i hvalid
      cases hread
      exact Shape.fits_of_valid h.validator (isSound_layeredShape h.defaultEncoding) hvalid
    · cases hread
    · cases hread

/-- Reading settings back changes nothing. -/
theorem load_eq_readLayers (h : lib.Lawful) (s : Sources) : load lib s = readLayers lib s := by
  rw [load]
  cases hread : readLayers lib s with
  | error fault => rfl
  | ok v =>
    have hvalid := Shape.valid_of_fits h.validator (isSound_shape h.defaultEncoding)
      (fits_of_readLayers h hread)
    simp only [bind, Except.bind, readBack, hvalid]

/-- Whatever is accepted under a shape stands for a record, and what is written of that record is
accepted as the same again. -/
def ReadsWhatItWrites {α : Type} (lib : Library) (shape : Shape) (ofValue? : Value → Option α)
    (toValue : α → Value) : Prop :=
  ∀ v w, lib.validate shape v = .valid w →
    ∃ a, ofValue? w = some a ∧ toValue a = w ∧ lib.validate shape (toValue a) = .valid (toValue a)

theorem ReadsWhatItWrites.again {α : Type} {shape : Shape} {ofValue? : Value → Option α}
    {toValue : α → Value} (h : ReadsWhatItWrites lib shape ofValue? toValue) {v w : Value}
    (hvalid : lib.validate shape v = .valid w) : lib.validate shape w = .valid w := by
  obtain ⟨a, -, rfl, hagain⟩ := h v w hvalid
  exact hagain

theorem readsWhatItWrites_of_sound {α : Type} (h : lib.validate.Lawful) {shape : Shape}
    (hsound : shape.IsSound) {ofValue? : Value → Option α} {toValue : α → Value}
    (hexists : ∀ {v}, shape.Fits v → ∃ a, toValue a = v)
    (hread : ∀ a, ofValue? (toValue a) = some a) :
    ReadsWhatItWrites lib shape ofValue? toValue := by
  intro v w hvalid
  have hfits := Shape.fits_of_valid h hsound hvalid
  obtain ⟨a, rfl⟩ := hexists hfits
  exact ⟨a, hread a, rfl, Shape.valid_of_fits h hsound hfits⟩

/-- Whatever a section accepts, and whatever all of them accept, is written in a form that is
accepted again and read as the same; so the settings that are loaded are those that were read from
the layers. -/
theorem reads_what_it_writes (h : lib.Lawful) :
    ReadsWhatItWrites lib (LogOutput.shape lib.toHost) LogOutput.ofValue? LogOutput.toValue ∧
    ReadsWhatItWrites lib (LoggingSettings.shape lib.toHost) LoggingSettings.ofValue?
      LoggingSettings.toValue ∧
    ReadsWhatItWrites lib (IndexSettings.shape lib.toHost) IndexSettings.ofValue?
      IndexSettings.toValue ∧
    ReadsWhatItWrites lib LimitSettings.shape LimitSettings.ofValue? LimitSettings.toValue ∧
    ReadsWhatItWrites lib (shape lib.toHost) ofValue? toValue ∧
    ∀ sources, load lib sources = readLayers lib sources := by
  have hvalidator := h.validator
  have hsections := sections_sound h.defaultEncoding
  simp only [sections, List.forall_mem_cons, List.not_mem_nil, false_imp_iff, implies_true,
    and_true] at hsections
  obtain ⟨⟨hlogging, -⟩, ⟨hindex, -⟩, ⟨hlimits, -⟩⟩ := hsections
  refine ⟨?_, ?_, ?_, ?_, ?_, load_eq_readLayers h⟩
  · exact readsWhatItWrites_of_sound hvalidator (LogOutput.isSound_shape _)
      LogOutput.exists_of_fits LogOutput.ofValue?_toValue
  · exact readsWhatItWrites_of_sound hvalidator hlogging LoggingSettings.exists_of_fits
      LoggingSettings.ofValue?_toValue
  · exact readsWhatItWrites_of_sound hvalidator hindex IndexSettings.exists_of_fits
      IndexSettings.ofValue?_toValue
  · exact readsWhatItWrites_of_sound hvalidator hlimits LimitSettings.exists_of_fits
      LimitSettings.ofValue?_toValue
  · exact readsWhatItWrites_of_sound hvalidator (isSound_shape h.defaultEncoding) exists_of_fits
      ofValue?_toValue

/-! Settings as somebody may write them: a home directory, doubled slashes, numbers and truth values
in words, a field that nobody reads; and what they are read as.
-/

/-- A machine on which everybody is at home in the same place. -/
def sharedHost : Host := ⟨fun _ => some "/home/user", .common⟩

def looseOutput : Value :=
  .object [("destination", .str "~//logs/./x.log"), ("level", .null)]

def looseLogging : Value :=
  .object [("outputs", .list [looseOutput, .object []]), ("level", .str "DEBUG")]

def looseIndex : Value :=
  .object [("cache_by_file_hash", .str "Yes"), ("max_concurrent_parses", .str " 4 ")]

def looseLimits : Value :=
  .object [("query_default", .float (Double.ofInt 50)), ("unread", .list [])]

def looseSettings : Value :=
  .object [("limits", looseLimits), ("logging", looseLogging), ("index", looseIndex)]

def strictOutput : LogOutput where
  destination := "/home/user/logs/x.log"

def strictSettings : Settings where
  logging := { level := .debug, outputs := [strictOutput, {}] }
  index := { cacheByFileHash := true, maxConcurrentParses := 4 }
  limits := { queryDefault := 50 }

theorem lookup_common : Codecs.common.lookup ({} : IndexSettings).encoding = .ok () := rfl

/-- Loose settings that are passed directly. -/
def looseSources : Sources where
  globalPath := "/home/user/.config/symindex/config.yaml"
  globalDocument := .absent
  repositoryPath := "/srv/.symindex/config.yaml"
  repositoryDocument := .absent
  environment := []
  direct := [("limits", looseLimits), ("logging", looseLogging), ("index", looseIndex)]

theorem reads_what_it_writes_loose :
    let lib := Library.common sharedHost
    lib.validate (LogOutput.shape sharedHost) looseOutput = .valid strictOutput.toValue ∧
    lib.validate (LogOutput.shape sharedHost) strictOutput.toValue =
      .valid strictOutput.toValue ∧
    lib.validate (LoggingSettings.shape sharedHost) strictSettings.logging.toValue =
      .valid strictSettings.logging.toValue ∧
    lib.validate (IndexSettings.shape sharedHost) strictSettings.index.toValue =
      .valid strictSettings.index.toValue ∧
    lib.validate LimitSettings.shape strictSettings.limits.toValue =
      .valid strictSettings.limits.toValue ∧
    lib.validate (shape sharedHost) strictSettings.toValue = .valid strictSettings.toValue ∧
    load lib looseSources = .ok strictSettings.toValue := by
  intro lib
  have houtput : lib.validate (LogOutput.shape sharedHost) looseOutput =
    .valid strictOutput.toValue := rfl
  have hlogging : lib.validate (LoggingSettings.shape sharedHost) looseLogging =
    .valid strictSettings.logging.toValue := rfl
  have hindex : lib.validate (IndexSettings.shape sharedHost) looseIndex =
    .valid strictSettings.index.toValue := rfl
  have hlimits : lib.validate LimitSettings.shape looseLimits =
    .valid strictSettings.limits.toValue := rfl
  have hsettings : lib.validate (shape sharedHost) looseSettings =
    .valid strictSettings.toValue := rfl
  have hlayers : readLayers lib looseSources = .ok strictSettings.toValue := rfl
  obtain ⟨ho, hl, hi, hm, hs, hload⟩ :=
    reads_what_it_writes (@Library.common_lawful sharedHost lookup_common)
  exact ⟨houtput, ho.again houtput, hl.again hlogging, hi.again hindex, hm.again hlimits,
    hs.again hsettings, (hload looseSources).trans hlayers⟩

end Settings

end SymbolAtlas
