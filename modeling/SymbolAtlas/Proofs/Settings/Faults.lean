import Mathlib
import SymbolAtlas.Proofs.Settings.Canonical

/-!
# How settings fail to load

Only a destination in the home directory of somebody unknown makes validating settings raise
something (`Settings.raises_layered`).  What else is raised comes from reading a document, or from
a refused value that cannot be written out; all other faults have a code (`Settings.load_faults`).
-/

namespace SymbolAtlas

open Schema

/-! ## Destinations of strangers -/

/-- A destination that starts in the home directory of somebody unknown. -/
def NamesStranger (homes : Homes) (destination : String) : Prop :=
  ∃ user rest, Path.parse destination = ⟨"", String.ofList ('~' :: user) :: rest⟩ ∧
    '\x00' ∉ user ∧ homes (String.ofList user) = none

/-- Some output that is listed has such a destination. -/
def OutputsNameStranger (homes : Homes) (outputs : Value) : Prop :=
  ∃ items output destination, outputs = .list items ∧ output ∈ items ∧
    output.field? "destination" = some (.str destination) ∧ NamesStranger homes destination

section Strangers

variable {homes : Homes}

theorem expandHome_eq_homeless {path : Path} :
    expandHome homes path = .error .homeless ↔
      ∃ user rest, path = ⟨"", String.ofList ('~' :: user) :: rest⟩ ∧ '\x00' ∉ user ∧
        homes (String.ofList user) = none := by
  constructor
  · intro h
    obtain ⟨root, parts⟩ := path
    unfold expandHome at h
    split at h
    · rename_i first rest hroot hparts
      split at h
      · rename_i user hfirst
        split at h
        · cases h
        · rename_i hnul
          split at h
          · cases h
          · rename_i hhome
            refine ⟨user, rest, ?_, by simpa using hnul, hhome⟩
            simp only at hroot hparts
            rw [hroot, hparts, ← hfirst, String.ofList_toList]
      · cases h
    · cases h
  · rintro ⟨user, rest, rfl, hnul, hhome⟩
    simp [expandHome, hnul, hhome]

theorem not_namesStranger_of_head {text : String}
    (h : ∀ first ∈ (Path.parse text).parts.head?, first.toList.head? ≠ some '~') :
    ¬ NamesStranger homes text := by
  rintro ⟨user, rest, hparse, -⟩
  refine h (String.ofList ('~' :: user)) ?_ ?_
  · rw [hparse]
    rfl
  · rw [String.toList_ofList]
    rfl

theorem canonicalDestination_eq_homeless {text : String} :
    canonicalDestination homes text = .error .homeless ↔ NamesStranger homes text := by
  unfold canonicalDestination
  split
  · rename_i hstream
    have hno : ¬ NamesStranger homes text := by
      simp only [Bool.or_eq_true, decide_eq_true_eq] at hstream
      apply not_namesStranger_of_head
      rcases hstream with rfl | rfl <;> decide
    exact ⟨nofun, fun h => absurd h hno⟩
  · rw [NamesStranger, ← expandHome_eq_homeless]
    cases expandHome homes (Path.parse text) with
    | error fault => simp
    | ok path =>
      simp only
      split <;> simp

theorem LogOutput.destinationRule_eq_raised {text : String} {r : Raised} :
    destinationRule homes text = .raised r ↔ r = .homeless ∧ NamesStranger homes text := by
  rw [← canonicalDestination_eq_homeless, destinationRule]
  cases canonicalDestination homes text with
  | ok path => simp
  | error fault => cases fault <;> simp [eq_comm]

end Strangers

/-! ## What validating raises -/

theorem Schema.Ruling.gotNumber_ne_raised (text : String) (n : Int) (r : Raised) :
    gotNumber text n ≠ .raised r := by
  unfold gotNumber
  split <;> nofun

theorem Schema.Ruling.onText_ne_raised {rule : String → Ruling} (h : ∀ s r, rule s ≠ .raised r)
    (v : Value) (r : Raised) : onText rule v ≠ .raised r := by
  cases v with
  | str s => exact h s r
  | _ => nofun

theorem Schema.Ruling.onInt_ne_raised {rule : Int → Ruling} (h : ∀ n r, rule n ≠ .raised r)
    (v : Value) (r : Raised) : onInt rule v ≠ .raised r := by
  cases v with
  | int n => exact h n r
  | _ => nofun

theorem IndexSettings.encodingRule_ne_raised (codecs : Codecs) (name : String) (r : Raised) :
    encodingRule codecs name ≠ .raised r := by
  unfold encodingRule
  split <;> nofun

theorem IndexSettings.concurrencyRule_ne_raised (n : Int) (r : Raised) :
    concurrencyRule n ≠ .raised r := by
  unfold concurrencyRule
  split
  · exact Ruling.gotNumber_ne_raised _ _ _
  · nofun

theorem LimitSettings.queryRule_ne_raised (n : Int) (r : Raised) : queryRule n ≠ .raised r := by
  unfold queryRule
  split
  · exact Ruling.gotNumber_ne_raised _ _ _
  · nofun

section Raises

variable {validate : Validator} {host : Host} {v : Value} (h : validate.Lawful)
include h

theorem LogOutput.raises_shape :
    (validate (shape host) v).Raises ↔
      ∃ text, v.field? "destination" = some (.str text) ∧ NamesStranger host.homes text := by
  have hlevel : ∀ u, ¬ (validate (.optional LogLevel.shape) u).Raises :=
    Shape.not_raises_of_rules h nofun
  have hformat : ∀ u, ¬ (validate LogFormat.shape u).Raises :=
    Shape.not_raises_of_rules h nofun
  have hdestination : ∀ u, (validate (.ruled (.atom .text)
      (Ruling.onText (destinationRule host.homes))) u).Raises ↔
        ∃ text, u = .str text ∧ NamesStranger host.homes text := by
    intro u
    rw [Shape.raises_ruled h]
    constructor
    · rintro (hatom | ⟨w, r, hvalid, hrule⟩)
      · exact absurd hatom (Shape.not_raises_of_rules h (by simp [Shape.rules]) u)
      · obtain rfl := h.eq_of_text u w hvalid
        obtain ⟨text, rfl⟩ := h.holds_of_atom _ _ _ hvalid
        exact ⟨text, rfl, (destinationRule_eq_raised.1 hrule).2⟩
    · rintro ⟨text, rfl, hstranger⟩
      exact .inr ⟨_, _, h.atom_of_holds .text _ ⟨text, rfl⟩,
        destinationRule_eq_raised.2 ⟨rfl, hstranger⟩⟩
  rw [shape, Shape.raises_model h]
  simp only [fields, List.exists_mem_cons_iff, List.not_mem_nil, false_and, exists_false, or_false,
    hlevel, hformat, and_false, false_or, hdestination]
  constructor
  · rintro ⟨_, hfield, text, rfl, hstranger⟩
    exact ⟨text, hfield, hstranger⟩
  · rintro ⟨text, hfield, hstranger⟩
    exact ⟨_, hfield, text, rfl, hstranger⟩

theorem LoggingSettings.raises_outputs :
    (validate (.list (LogOutput.shape host)) v).Raises ↔ OutputsNameStranger host.homes v := by
  simp only [Shape.raises_list h, LogOutput.raises_shape h, OutputsNameStranger]
  constructor
  · rintro ⟨items, rfl, output, houtput, text, hfield, hstranger⟩
    exact ⟨items, output, text, rfl, houtput, hfield, hstranger⟩
  · rintro ⟨items, output, text, rfl, houtput, hfield, hstranger⟩
    exact ⟨items, rfl, output, houtput, text, hfield, hstranger⟩

theorem LoggingSettings.raises_shape :
    (validate (shape host) v).Raises ↔
      ∃ outputs, v.field? "outputs" = some outputs ∧ OutputsNameStranger host.homes outputs := by
  have hlevel : ∀ u, ¬ (validate LogLevel.shape u).Raises := Shape.not_raises_of_rules h nofun
  rw [shape, Shape.raises_model h]
  simp only [List.exists_mem_cons_iff, List.not_mem_nil, false_and, exists_false, or_false,
    hlevel, and_false, false_or, raises_outputs h]

theorem IndexSettings.not_raises_shape : ¬ (validate (shape host) v).Raises := by
  refine Shape.not_raises_of_rules h ?_ v
  simp only [shape, Shape.rules, Shape.fieldRules, List.nil_append, List.append_nil,
    List.cons_append, List.forall_mem_cons, List.not_mem_nil, false_imp_iff, implies_true, and_true]
  exact ⟨Ruling.onText_ne_raised (encodingRule_ne_raised _),
    Ruling.onInt_ne_raised concurrencyRule_ne_raised⟩

theorem LimitSettings.not_raises_shape : ¬ (validate shape v).Raises := by
  refine Shape.not_raises_of_rules h ?_ v
  simp only [shape, Shape.rules, Shape.fieldRules, List.append_nil, List.forall_mem_cons,
    List.not_mem_nil, false_imp_iff, implies_true, and_true]
  exact Ruling.onInt_ne_raised queryRule_ne_raised

end Raises

namespace Settings

/-- Layered fields list an output in the home directory of somebody unknown. -/
def FieldsNameStranger (homes : Homes) (fields : Ledger Value) : Prop :=
  ∃ logging outputs, fields.get? "logging" = some logging ∧
    logging.field? "outputs" = some outputs ∧ OutputsNameStranger homes outputs

section Layers

variable {validate : Validator} {host : Host} {fields : Ledger Value} (h : validate.Lawful)
include h

theorem raises_layered :
    (validate (layeredShape host) (.object fields)).Raises ↔
      FieldsNameStranger host.homes fields := by
  rw [layeredShape, Shape.raises_model h]
  simp only [sections, List.exists_mem_cons_iff, List.not_mem_nil, false_and, exists_false,
    or_false, LoggingSettings.raises_shape h, IndexSettings.not_raises_shape h,
    LimitSettings.not_raises_shape h, and_false, FieldsNameStranger]
  constructor
  · rintro ⟨logging, hlogging, outputs, houtputs, hstranger⟩
    exact ⟨logging, outputs, hlogging, houtputs, hstranger⟩
  · rintro ⟨logging, outputs, hlogging, houtputs, hstranger⟩
    exact ⟨logging, hlogging, outputs, houtputs, hstranger⟩

/-- Nothing else is raised. -/
theorem eq_homeless_of_layered {v : Value} {r : Raised}
    (hraised : validate (layeredShape host) v = .raised r) : r = .homeless := by
  obtain ⟨rule, hrule, u, hu⟩ := Shape.exists_rule_of_raised h hraised
  simp only [layeredShape, sections, LoggingSettings.shape, LogOutput.shape, LogOutput.fields,
    IndexSettings.shape, LimitSettings.shape, LogLevel.shape, LogFormat.shape, Shape.rules,
    Shape.fieldRules, List.nil_append, List.append_nil, List.cons_append, List.mem_cons,
    List.not_mem_nil, or_false] at hrule
  rcases hrule with rfl | rfl | rfl | rfl
  · cases u with
    | str text => exact (LogOutput.destinationRule_eq_raised.1 hu).1
    | _ => cases hu
  · exact absurd hu (Ruling.onText_ne_raised (IndexSettings.encodingRule_ne_raised _) _ _)
  · exact absurd hu (Ruling.onInt_ne_raised IndexSettings.concurrencyRule_ne_raised _ _)
  · exact absurd hu (Ruling.onInt_ne_raised LimitSettings.queryRule_ne_raised _ _)

end Layers

/-! ## Loading -/

theorem faultOf_of_writable {issue : Issue} (h : issue.input.isWritable = true) :
    faultOf issue = .failed (.badSetting (".".intercalate (issue.place.map Step.display))
      issue.input issue.cause.message) := by
  rw [faultOf, Value.written, if_pos h]

theorem faultOf_of_not_writable {issue : Issue} (h : issue.input.isWritable = false) :
    faultOf issue = .raised .tooManyDigits := by
  simp [faultOf, Value.written, h]

section Loading

variable {lib : Library} {s : Sources} {fields : Ledger Value}

theorem readLayers_of_layered (hlayered : s.layered lib = .ok fields) :
    readLayers lib s =
      match lib.validate (layeredShape lib.toHost) (.object fields) with
      | .valid v => .ok v
      | .invalid issues => .error (faultOf (issues.headD default))
      | .raised r => .error (.raised r) := by
  rw [readLayers, hlayered]
  rfl

/-- What loading comes to once the layers are laid over each other. -/
theorem load_of_layered (h : lib.Lawful) (hlayered : s.layered lib = .ok fields) :
    (FieldsNameStranger lib.homes fields → load lib s = .error (.raised .homeless)) ∧
    (¬ FieldsNameStranger lib.homes fields →
      (∃ v, lib.validate (layeredShape lib.toHost) (.object fields) = .valid v ∧
        load lib s = .ok v) ∨
      ∃ issue rest, lib.validate (layeredShape lib.toHost) (.object fields) =
          .invalid (issue :: rest) ∧
        load lib s = .error (faultOf issue)) := by
  rw [load_eq_readLayers h, readLayers_of_layered hlayered, ← raises_layered h.validator]
  cases hread : lib.validate (layeredShape lib.toHost) (.object fields) with
  | valid v => exact ⟨fun hraises => absurd hraises (by simp), fun _ => .inl ⟨v, rfl, rfl⟩⟩
  | raised r =>
    rw [eq_homeless_of_layered h.validator hread]
    exact ⟨fun _ => rfl, fun hno => absurd (Validated.raises_raised _) hno⟩
  | invalid issues =>
    refine ⟨fun hraises => absurd hraises (by simp), fun _ => .inr ?_⟩
    cases issues with
    | nil => exact absurd hread (h.validator.explains _ _)
    | cons issue rest => exact ⟨issue, rest, rfl, rfl⟩

/-- What escapes as it was raised, instead of being reported as a failure. -/
inductive Sources.Escapes (lib : Library) (s : Sources) : Raised → Prop
  /-- Reading a document raises something; the global one is read first. -/
  | document {r : Raised} (h : s.documents lib = .error (.raised r)) : Escapes lib s r
  /-- An output is listed in the home directory of somebody unknown. -/
  | stranger {fields : Ledger Value} (hlayered : s.layered lib = .ok fields)
      (h : FieldsNameStranger lib.homes fields) : Escapes lib s .homeless
  /-- The first value that is refused cannot be written out. -/
  | number {fields : Ledger Value} {issue : Issue} {rest : List Issue}
      (hlayered : s.layered lib = .ok fields)
      (hread : lib.validate (layeredShape lib.toHost) (.object fields) = .invalid (issue :: rest))
      (h : issue.input.isWritable = false) : Escapes lib s .tooManyDigits

theorem load_of_documents {fault : LoadFault} (h : s.documents lib = .error fault) :
    load lib s = .error fault := by
  have hread : readLayers lib s = .error fault := by
    rw [readLayers, Sources.layered, h]
    rfl
  rw [load, hread]
  rfl

theorem Document.cases_of_fields {d : Document} {path : String} {fault : LoadFault}
    (h : d.fields lib path = .error fault) :
    (∃ r, fault = .raised r) ∨ ∃ failure, fault = .failed failure ∧
      failure.code = .configParseError := by
  unfold Document.fields at h
  split at h
  · cases h
  · split at h
    · cases h
    · cases h
      exact .inr ⟨_, rfl, rfl⟩
    · cases h
    · cases h
      exact .inr ⟨_, rfl, rfl⟩
    · cases h
      exact .inl ⟨_, rfl⟩

theorem Sources.cases_of_documents {fault : LoadFault} (h : s.documents lib = .error fault) :
    (∃ r, fault = .raised r) ∨ ∃ failure, fault = .failed failure ∧
      failure.code = .configParseError := by
  unfold documents at h
  cases hglobal : s.globalDocument.fields lib s.globalPath with
  | error fault' =>
    rw [hglobal] at h
    cases h
    exact Document.cases_of_fields hglobal
  | ok lower =>
    rw [hglobal] at h
    cases hrepository : s.repositoryDocument.fields lib s.repositoryPath with
    | error fault' =>
      rw [hrepository] at h
      cases h
      exact Document.cases_of_fields hrepository
    | ok upper =>
      rw [hrepository] at h
      cases h

/-- Direct arguments are fields. -/
def Sources.PassesFields (s : Sources) : Prop :=
  ∀ key ∈ Ledger.keys s.direct, key.toList.head? ≠ some '_'

/-- Without variables, the layers are the documents with what is passed directly over them. -/
theorem Sources.layered_of_documents (h : lib.Lawful) {documents : Ledger Value}
    (hdocuments : s.documents lib = .ok documents) (hpassed : s.PassesFields)
    (hnone : settingVariables s.environment = []) :
    s.layered lib = .ok (Value.overlay documents (Value.overlay [] s.direct)) := by
  rw [layered, hdocuments, h.passed s.direct hpassed, h.noVariables s.environment hnone,
    ← h.merge]
  rfl

/-- Without an environment, loading settings comes to settings or to a failure with a code of
configuration, unless something escapes; then that is what loading raises. -/
theorem load_faults (h : lib.Lawful) (hpassed : s.PassesFields)
    (hnone : settingVariables s.environment = []) :
    (∀ r, s.Escapes lib r → load lib s = .error (.raised r)) ∧
    ((∀ r, ¬ s.Escapes lib r) →
      (∃ settings : Settings, load lib s = .ok settings.toValue) ∨
        ∃ failure, load lib s = .error (.failed failure) ∧
          (failure.code = .configParseError ∨ failure.code = .configInvalidValue)) := by
  constructor
  · rintro _ (hdocuments | ⟨hlayered, hstranger⟩ | ⟨hlayered, hread, hlong⟩)
    · exact load_of_documents hdocuments
    · exact (load_of_layered h hlayered).1 hstranger
    · rw [load_eq_readLayers h, readLayers_of_layered hlayered, hread]
      exact congrArg Except.error (faultOf_of_not_writable hlong)
  · intro hno
    cases hdocuments : s.documents lib with
    | error fault =>
      obtain ⟨r, rfl⟩ | ⟨failure, rfl, hcode⟩ := Sources.cases_of_documents hdocuments
      · exact absurd (.document hdocuments) (hno r)
      · exact .inr ⟨failure, load_of_documents hdocuments, .inl hcode⟩
    | ok documents =>
      have hlayered := Sources.layered_of_documents h hdocuments hpassed hnone
      have hnone : ¬ FieldsNameStranger lib.homes _ :=
        fun hstranger => hno _ (.stranger hlayered hstranger)
      obtain ⟨v, hread, hload⟩ | ⟨issue, rest, hread, hload⟩ :=
        (load_of_layered h hlayered).2 hnone
      · obtain ⟨settings, rfl⟩ := exists_of_fits (Shape.fits_of_valid h.validator
          (isSound_layeredShape h.defaultEncoding) hread)
        exact .inl ⟨settings, hload⟩
      · have hwritable : issue.input.isWritable = true := by
          rw [← Bool.not_eq_false]
          exact fun hlong => hno _ (.number hlayered hread hlong)
        rw [faultOf_of_writable hwritable] at hload
        exact .inr ⟨_, hload, .inr rfl⟩

end Loading

/-- A library on a machine on which only whoever runs the program has a home. -/
def lonely : Library :=
  .common ⟨fun user => if user = "" then some "/home/user" else none, .common⟩

/-- The fields of the section on logging with one destination. -/
def loggingFields (destination : Value) : Ledger Value :=
  [("outputs", .list [.object [("destination", destination)]])]

/-- The settings of a repository that logs to one destination. -/
def loggingTo (destination : Value) : Sources where
  globalPath := "/home/user/.config/symindex/config.yaml"
  globalDocument := .absent
  repositoryPath := "/srv/.symindex/config.yaml"
  repositoryDocument := .absent
  environment := []
  direct := [("logging", .object (loggingFields destination))]

/-- A repository whose document is not written in UTF-8. -/
def undecodable : Sources :=
  { loggingTo .null with repositoryDocument := .content [0xFF, 0xFE], direct := [] }

/-- What reading that document raises. -/
def badByte : Raised where
  kind := "UnicodeDecodeError"
  message := "'utf-8' codec can't decode byte 0xff in position 0: invalid start byte"

/-- A number with one digit more than can be written out. -/
def longNumber : Value := .int (10 ^ Value.longestNumber)

theorem readDocument_undecodable : readDocument [0xFF, 0xFE] = .raised badByte := by
  have hstrict : Utf8.strict 0 [0xFF, 0xFE] [] = .error ⟨0, 1, .badStart⟩ := by
    rw [Utf8.strict]
    rfl
  simp only [readDocument, Encoding.decode, Encoding.decodeUtf8, hstrict]
  rfl

theorem passesFields_loggingTo (destination : Value) : (loggingTo destination).PassesFields :=
  (by decide : ∀ key ∈ ["logging"], key.toList.head? ≠ some '_')

theorem lonely_lawful : lonely.Lawful := Library.common_lawful lookup_common

theorem layered_loggingTo (destination : Value) :
    (loggingTo destination).layered lonely =
      .ok [("logging", .object (loggingFields destination))] :=
  Sources.layered_of_documents lonely_lawful rfl (passesFields_loggingTo _) rfl

/-- Nobody of that name has a home. -/
theorem fieldsNameStranger_loggingTo :
    FieldsNameStranger lonely.homes
      [("logging", .object (loggingFields (.str "~nosuchuser42/x.log")))] := by
  have hstranger : NamesStranger lonely.homes "~nosuchuser42/x.log" :=
    ⟨"nosuchuser42".toList, ["x.log"], by decide, by decide, by decide⟩
  exact ⟨_, _, rfl, rfl, _, _, _, rfl, List.mem_singleton_self _, rfl, hstranger⟩

theorem load_faults_sample :
    load lonely (loggingTo (.str "~nosuchuser42/x.log")) = .error (.raised .homeless) ∧
    load lonely (loggingTo longNumber) = .error (.raised .tooManyDigits) ∧
    load lonely undecodable = .error (.raised badByte) ∧
    ∃ failure, load lonely (loggingTo (.str "x.log")) = .error (.failed failure) ∧
      (failure.code = .configParseError ∨ failure.code = .configInvalidValue) := by
  have hlawful := lonely_lawful
  refine ⟨?_, ?_, ?_, ?_⟩
  · exact (load_faults hlawful (passesFields_loggingTo _) rfl).1 _
      (.stranger (layered_loggingTo _) fieldsNameStranger_loggingTo)
  · have hlong : longNumber.isWritable = false := by decide +kernel
    exact (load_faults hlawful (passesFields_loggingTo _) rfl).1 _
      (.number (layered_loggingTo _) rfl hlong)
  · have hdocuments : undecodable.documents lonely = .error (.raised badByte) := by
      simp only [Sources.documents, undecodable, loggingTo, Document.fields, lonely, Library.common,
        readDocument_undecodable]
      rfl
    have hpassed : undecodable.PassesFields := fun key hkey => nomatch hkey
    exact (load_faults hlawful hpassed rfl).1 _ (.document hdocuments)
  · have hrefused : lonely.validate (layeredShape lonely.toHost)
        (.object [("logging", .object (loggingFields (.str "x.log")))]) =
        .invalid [⟨[.key "logging", .key "outputs", .index 0, .key "destination"],
          .ruleBroken "File destination must be absolute path: x.log", .str "x.log"⟩] := rfl
    have hno : ∀ r, ¬ (loggingTo (.str "x.log")).Escapes lonely r := by
      rintro _ (⟨⟨⟩⟩ | ⟨hlayered, hstranger⟩ | ⟨hlayered, hread, hlong⟩)
      all_goals
        rw [layered_loggingTo] at hlayered
        cases hlayered
      · exact absurd ((raises_layered hlawful.validator).2 hstranger) (by
          rw [hrefused]
          exact Validated.not_raises_invalid _)
      · rw [hrefused] at hread
        cases hread
        cases hlong
    obtain ⟨settings, hload⟩ | hfailed := (load_faults hlawful (passesFields_loggingTo _) rfl).2 hno
    · rw [load_eq_readLayers hlawful, readLayers_of_layered (layered_loggingTo _),
        hrefused] at hload
      cases hload
    · exact hfailed

/-- What is raised escapes. -/
theorem load_escapes :
    ¬ ((∃ v, load lonely (loggingTo (.str "~nosuchuser42/x.log")) = .ok v) ∨
      ∃ failure, load lonely (loggingTo (.str "~nosuchuser42/x.log")) =
        .error (.failed failure)) := by
  rw [(load_of_layered lonely_lawful (layered_loggingTo _)).1 fieldsNameStranger_loggingTo]
  rintro (⟨v, h⟩ | ⟨failure, h⟩)
  · cases h
  · cases h

end Settings

end SymbolAtlas
