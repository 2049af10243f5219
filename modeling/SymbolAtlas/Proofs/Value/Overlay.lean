import Mathlib
import SymbolAtlas.Value.Overlay
import SymbolAtlas.Proofs.Ledger

/-!
# What an overlay holds

A field that the upper object does not set is what it was in the lower one; one that it sets is laid
over what was there (`Value.get?_overlay`).  Names stay distinct, and those of the lower object stay
in front (`Value.keys_overlay`).

Two objects under one name are laid over each other in turn.  So the same holds at the end of every
path of names (`Value.at?_laidOn`, `Value.at?_laidOn_of_none`), and what an overlay comes to can be
said path by path, without following how it is made (`Value.overlay_by_path`).
-/

namespace SymbolAtlas

namespace Value

variable {lower upper : Ledger Value} {key : String}

/-- A value laid over what a field held before, if anything. -/
def laidOn (below : Option Value) (above : Value) : Value :=
  match below with
  | some below => laidOver below above
  | none => above

theorem overlay_cons (above : Value) (rest : Ledger Value) :
    overlay lower ((key, above) :: rest) =
      overlay (lower.set key (laidOn (lower.get? key) above)) rest :=
  rfl

theorem laidOver_of_not_object {above : Value} (h : above.isObject = false) (below : Value) :
    laidOver below above = above := by
  cases above with
  | object fields => cases h
  | _ => rfl

theorem laidOn_of_not_object {above : Value} (h : above.isObject = false) (below : Option Value) :
    laidOn below above = above := by
  cases below with
  | none => rfl
  | some below => exact laidOver_of_not_object h below

theorem get?_overlay (h : upper.keys.Nodup) (key : String) :
    (overlay lower upper).get? key =
      ((upper.get? key).map (laidOn (lower.get? key))).or (lower.get? key) := by
  induction upper generalizing lower with
  | nil => rfl
  | cons entry rest ih =>
    obtain ⟨k, above⟩ := entry
    rw [Ledger.keys, List.map_cons, List.nodup_cons] at h
    rw [overlay_cons, ih h.2, Ledger.get?_cons]
    by_cases hk : k = key
    · subst hk
      -- names are distinct, so the rest does not come back to this one
      have hrest : Ledger.get? rest k = none := Ledger.get?_eq_none_iff.2 h.1
      simp [hrest]
    · rw [Ledger.get?_set_of_ne _ _ (Ne.symm hk), if_neg hk]

theorem nodup_keys_overlay (h : lower.keys.Nodup) (upper : Ledger Value) :
    (overlay lower upper).keys.Nodup := by
  induction upper generalizing lower with
  | nil => exact h
  | cons entry rest ih => exact ih (Ledger.nodup_keys_set h _ _)

/-- An overlay has the names of both objects. -/
theorem mem_keys_overlay (h : upper.keys.Nodup) :
    key ∈ (overlay lower upper).keys ↔ key ∈ lower.keys ∨ key ∈ upper.keys := by
  simp only [Ledger.mem_keys_iff, get?_overlay h]
  cases lower.get? key <;> cases upper.get? key <;> simp

/-! ## Where the fields stand -/

/-- The names of the lower object keep their order; those that only the upper one has follow. -/
theorem keys_overlay (h : upper.keys.Nodup) (lower : Ledger Value) :
    (overlay lower upper).keys = lower.keys ++ upper.keys.filter (· ∉ lower.keys) := by
  induction upper generalizing lower with
  | nil => exact (List.append_nil _).symm
  | cons entry rest ih =>
    obtain ⟨k, above⟩ := entry
    rw [Ledger.keys, List.map_cons, List.nodup_cons] at h
    rw [overlay_cons, ih h.2, Ledger.keys_set]
    change _ = lower.keys ++ (k :: Ledger.keys rest).filter (· ∉ lower.keys)
    by_cases hk : k ∈ lower.keys
    · rw [if_pos hk, List.filter_cons_of_neg (by simpa using hk)]
    · have hrest : (Ledger.keys rest).filter (· ∉ lower.keys ++ [k]) =
          (Ledger.keys rest).filter (· ∉ lower.keys) := by
        refine List.filter_congr fun name hname => ?_
        have hne : name ≠ k := fun heq => h.1 (heq ▸ hname)
        simp [hne]
      rw [if_neg hk, List.filter_cons_of_pos (by simpa using hk), hrest, List.append_assoc,
        List.singleton_append]

/-- Fields that are all new are put behind those that are there. -/
theorem overlay_of_disjoint (h : upper.keys.Nodup)
    (hnew : ∀ key ∈ upper.keys, lower.get? key = none) :
    overlay lower upper = lower ++ upper := by
  induction upper generalizing lower with
  | nil => exact (List.append_nil _).symm
  | cons entry rest ih =>
    obtain ⟨k, above⟩ := entry
    rw [Ledger.keys, List.map_cons, List.nodup_cons] at h
    have hk : lower.get? k = none := hnew k List.mem_cons_self
    have hrest : ∀ key ∈ Ledger.keys rest, (lower.set k above).get? key = none := by
      intro key hkey
      have hne : key ≠ k := fun heq => h.1 (heq ▸ hkey)
      rw [Ledger.get?_set_of_ne _ _ hne]
      exact hnew key (List.mem_cons_of_mem _ hkey)
    rw [overlay_cons, hk, laidOn, ih h.2 hrest, Ledger.set_of_get?_eq_none hk, List.append_assoc,
      List.singleton_append]

theorem overlay_nil_left (h : upper.keys.Nodup) : overlay [] upper = upper :=
  overlay_of_disjoint h fun _ _ => rfl

/-- Fields that leave alone what they are laid over leave the object alone. -/
theorem overlay_of_unchanged
    (h : ∀ entry ∈ upper, ∃ below, lower.get? entry.1 = some below ∧
      laidOver below entry.2 = below) :
    overlay lower upper = lower := by
  induction upper with
  | nil => rfl
  | cons entry rest ih =>
    obtain ⟨k, above⟩ := entry
    obtain ⟨below, hbelow, hsame⟩ := h (k, above) List.mem_cons_self
    rw [overlay_cons, hbelow, laidOn, hsame, Ledger.set_of_get? hbelow]
    exact ih fun entry hentry => h entry (List.mem_cons_of_mem _ hentry)

/-! ## Objects within objects -/

mutual

/-- Every object that is reached through objects has distinct names. -/
def Distinct : Value → Prop
  | .object fields => (Ledger.keys fields).Nodup ∧ FieldsDistinct fields
  | _ => True
termination_by structural v => v

/-- The names are distinct within every field. -/
def FieldsDistinct : List (String × Value) → Prop
  | [] => True
  | (_, v) :: rest => v.Distinct ∧ FieldsDistinct rest
termination_by structural fields => fields

end

theorem FieldsDistinct.of_mem {fields : Ledger Value} (h : FieldsDistinct fields)
    {entry : String × Value} (hentry : entry ∈ fields) : entry.2.Distinct := by
  induction fields with
  | nil => cases hentry
  | cons first rest ih =>
    obtain ⟨name, v⟩ := first
    rw [FieldsDistinct] at h
    rcases List.mem_cons.1 hentry with rfl | hentry
    · exact h.1
    · exact ih h.2 hentry

theorem Distinct.keys {fields : Ledger Value} (h : (object fields).Distinct) :
    fields.keys.Nodup := by
  rw [Distinct] at h
  exact h.1

theorem Distinct.of_mem {fields : Ledger Value} (h : (object fields).Distinct)
    {entry : String × Value} (hentry : entry ∈ fields) : entry.2.Distinct := by
  rw [Distinct] at h
  exact h.2.of_mem hentry

theorem Distinct.of_get? {fields : Ledger Value} (h : (object fields).Distinct) {v : Value}
    (hv : fields.get? key = some v) : v.Distinct :=
  h.of_mem (Ledger.mem_of_get? hv)

mutual

/-- Induction over objects within objects; everything else is a leaf. -/
theorem objectInduction {motive : Value → Prop}
    (plain : ∀ v, v.isObject = false → motive v)
    (object : ∀ fields, (∀ entry ∈ fields, motive entry.2) → motive (.object fields)) :
    ∀ v, motive v
  | .object fields => object fields (fieldsInduction plain object fields)
  | .null | .bool _ | .int _ | .float _ | .str _ | .list _ => plain _ rfl
termination_by structural v => v

theorem fieldsInduction {motive : Value → Prop}
    (plain : ∀ v, v.isObject = false → motive v)
    (object : ∀ fields, (∀ entry ∈ fields, motive entry.2) → motive (.object fields)) :
    ∀ fields : List (String × Value), ∀ entry ∈ fields, motive entry.2
  | [], _, h => nomatch h
  | (_, v) :: rest, entry, h => by
    rcases List.mem_cons.1 h with rfl | h
    · exact objectInduction plain object v
    · exact fieldsInduction plain object rest entry h
termination_by structural fields => fields

end

/-- The fields of an object; none if there is no object. -/
def fieldsOf : Option Value → Ledger Value
  | some (.object fields) => fields
  | _ => []

theorem fieldsOf_eq_nil {below : Option Value} (h : ∀ fields, below ≠ some (.object fields)) :
    fieldsOf below = [] := by
  rw [fieldsOf]
  exact h

/-- An object that is laid over anything else is laid over no fields. -/
theorem laidOn_object (h : upper.keys.Nodup) (below : Option Value) :
    laidOn below (.object upper) = .object (overlay (fieldsOf below) upper) := by
  cases below with
  | none => exact congrArg object (overlay_nil_left h).symm
  | some below =>
    cases below with
    | object fields => rfl
    | _ => exact congrArg object (overlay_nil_left h).symm

/-- Laying a value once more over what it was laid over changes nothing. -/
theorem laidOver_laidOn {above : Value} (h : above.Distinct) (below : Option Value) :
    laidOver (laidOn below above) above = laidOn below above := by
  induction above using objectInduction generalizing below with
  | plain above hplain => rw [laidOver_of_not_object hplain, laidOn_of_not_object hplain]
  | object upper ih =>
    rw [laidOn_object h.keys]
    refine congrArg Value.object (overlay_of_unchanged fun entry hentry => ?_)
    have hget := Ledger.get?_of_mem h.keys hentry
    exact ⟨_, by rw [get?_overlay h.keys, hget]; rfl, ih entry hentry (h.of_mem hentry) _⟩

theorem overlay_overlay (h : (object upper).Distinct) (lower : Ledger Value) :
    overlay (overlay lower upper) upper = overlay lower upper :=
  object.inj (laidOver_laidOn h (some (.object lower)))

theorem overlay_self (h : (object upper).Distinct) : overlay upper upper = upper := by
  have hagain := overlay_overlay h []
  rwa [overlay_nil_left h.keys] at hagain

/-! ## What is at a path of names -/

/-- What is at the end of a path of names. -/
def at? : Value → List String → Option Value
  | v, [] => some v
  | v, key :: rest => (v.field? key).bind fun inner => inner.at? rest

@[simp] theorem at?_nil (v : Value) : v.at? [] = some v := rfl

theorem at?_cons (v : Value) (key : String) (rest : List String) :
    v.at? (key :: rest) = (v.field? key).bind (·.at? rest) := rfl

theorem Distinct.at? {v inner : Value} (h : v.Distinct) {path : List String}
    (hinner : v.at? path = some inner) : inner.Distinct := by
  induction path generalizing v with
  | nil =>
    cases hinner
    exact h
  | cons key rest ih =>
    cases v with
    | object fields =>
      obtain ⟨next, hnext, hinner⟩ := Option.bind_eq_some_iff.1 hinner
      exact ih (h.of_get? hnext) hinner
    | _ => cases hinner

/-- A path goes on below the fields of an object. -/
theorem bind_at?_cons (below : Option Value) (key : String) (rest : List String) :
    below.bind (·.at? (key :: rest)) = ((fieldsOf below).get? key).bind (·.at? rest) := by
  cases below with
  | none => rfl
  | some below => cases below <;> rfl

/-- What the upper value has at a path is laid over what the lower one has there. -/
theorem at?_laidOn {above v : Value} (h : above.Distinct) {path : List String}
    (hv : above.at? path = some v) (below : Option Value) :
    (laidOn below above).at? path = some (laidOn (below.bind (·.at? path)) v) := by
  induction path generalizing above below with
  | nil =>
    cases hv
    simp
  | cons key rest ih =>
    cases above with
    | object upper =>
      obtain ⟨next, hnext, hv⟩ := Option.bind_eq_some_iff.1 hv
      -- one step down in both values; a lower one that is no object counts as an empty one
      have hget : (overlay (fieldsOf below) upper).get? key =
          some (laidOn ((fieldsOf below).get? key) next) := by
        rw [get?_overlay h.keys, show Ledger.get? upper key = some next from hnext]
        rfl
      rw [laidOn_object h.keys, bind_at?_cons, at?_cons, field?, hget, Option.bind_some]
      exact ih (h.of_get? hnext) hv _
    | _ => cases hv

/-- A path that the upper value neither has nor cuts off leads to what the lower one has there. -/
theorem at?_laidOn_of_none {above : Value} (h : above.Distinct) {path : List String}
    (hnone : above.at? path = none)
    (hopen : ∀ start v, start <+: path → above.at? start = some v → v.isObject = true)
    (below : Option Value) : (laidOn below above).at? path = below.bind (·.at? path) := by
  induction path generalizing above below with
  | nil => cases hnone
  | cons key rest ih =>
    have habove : above.isObject = true := hopen [] above List.nil_prefix rfl
    cases above with
    | object upper =>
      rw [laidOn_object h.keys, bind_at?_cons, at?_cons, field?, get?_overlay h.keys]
      rw [at?_cons, field?] at hnone
      cases hnext : Ledger.get? upper key with
      -- the upper value ends here, and the rest of the way lies in the lower one alone
      | none => rfl
      | some next =>
        rw [hnext] at hnone
        refine ih (h.of_get? hnext) hnone (fun start v hstart hv => ?_) _
        refine hopen (key :: start) v (List.cons_prefix_cons.2 ⟨rfl, hstart⟩) ?_
        rw [at?_cons, field?, hnext]
        exact hv
    | _ => cases habove

theorem at?_overlay (h : (object upper).Distinct) {path : List String} {v : Value}
    (hv : (object upper).at? path = some v) (lower : Ledger Value) :
    (object (overlay lower upper)).at? path = some (laidOn ((object lower).at? path) v) :=
  at?_laidOn h hv (some (.object lower))

/-! ## The laws of an overlay -/

/-- What one object comes to once another is laid over it, said at the end of every path. -/
structure IsLaidOver (lower upper merged : Ledger Value) : Prop where
  /-- What is no object takes the place of whatever was there. -/
  replaced : ∀ path v, (object upper).at? path = some v → v.isObject = false →
    (object merged).at? path = some v
  /-- An object comes in as it is where there was none. -/
  entered : ∀ path above, (object upper).at? path = some (.object above) →
    (∀ below, (object lower).at? path ≠ some (.object below)) →
    (object merged).at? path = some (.object above)
  /-- Two objects at one path are laid over each other. -/
  joined : ∀ path below above, (object lower).at? path = some (.object below) →
    (object upper).at? path = some (.object above) →
    (object merged).at? path = some (.object (overlay below above))
  /-- A path that the upper object neither has nor cuts off leads where it led before, whatever the
  lower object has on the way. -/
  kept : ∀ path, (object upper).at? path = none →
    (∀ start v, start <+: path → (object upper).at? start = some v → v.isObject = true) →
    (object merged).at? path = (object lower).at? path
  /-- The names of the lower object keep their order; those that only the upper one has follow. -/
  keys : merged.keys = lower.keys ++ upper.keys.filter (· ∉ lower.keys)

theorem isLaidOver_overlay (h : (object upper).Distinct) (lower : Ledger Value) :
    IsLaidOver lower upper (overlay lower upper) where
  replaced path v hv hplain := by
    rw [at?_overlay h hv, laidOn_of_not_object hplain]
  entered path above habove hnone := by
    have hdistinct := (h.at? habove).keys
    rw [at?_overlay h habove, laidOn_object hdistinct, fieldsOf_eq_nil hnone,
      overlay_nil_left hdistinct]
  joined path below above hbelow habove := by
    rw [at?_overlay h habove, hbelow]
    rfl
  kept path hnone hopen := at?_laidOn_of_none h hnone hopen (some (.object lower))
  keys := keys_overlay h.keys lower

/-- An overlay is settled path by path.  So the empty object changes nothing on either side, and
neither does an object that is laid over itself or a second time over the same. -/
theorem overlay_by_path (h : (object upper).Distinct) (lower : Ledger Value) :
    IsLaidOver lower upper (overlay lower upper) ∧
      overlay lower [] = lower ∧ overlay [] upper = upper ∧ overlay upper upper = upper ∧
      overlay (overlay lower upper) upper = overlay lower upper :=
  ⟨isLaidOver_overlay h lower, rfl, overlay_nil_left h.keys, overlay_self h,
    overlay_overlay h lower⟩

/-- A configuration as it is shipped. -/
def shipped : Ledger Value :=
  [("logging", .object [("level", .str "INFO"),
      ("file", .object [("path", .str "a.log"), ("keep", .int 3)])]),
   ("index", .object [("encoding", .str "utf-8")]),
   ("limits", .int 10)]

/-- Changes to `shipped` that meet it in every way: a value or an object where there is a value, a
value where there is an object, an object within an object, and a new name. -/
def changed : Ledger Value :=
  [("cache", .null), ("limits", .object [("query", .int 5)]), ("index", .bool false),
   ("logging", .object [("file", .object [("path", .str "b.log")])])]

theorem overlay_by_path_shipped :
    (object changed).Distinct ∧
      (object (overlay shipped changed)).at? ["logging", "file", "path"] = some (.str "b.log") ∧
      (object (overlay shipped changed)).at? ["logging", "file", "keep"] = some (.int 3) ∧
      (object (overlay shipped changed)).at? ["limits"] = some (.object [("query", .int 5)]) ∧
      (object (overlay shipped changed)).at? ["index"] = some (.bool false) ∧
      (overlay shipped changed).keys = ["logging", "index", "limits", "cache"] ∧
      overlay (overlay shipped changed) changed = overlay shipped changed := by
  have hdistinct : (object changed).Distinct := by
    simp [changed, Distinct, FieldsDistinct, Ledger.keys]
  obtain ⟨hlaws, -, -, -, hagain⟩ := overlay_by_path hdistinct shipped
  refine ⟨hdistinct, ?_, ?_, ?_, ?_, ?_, hagain⟩
  · exact hlaws.replaced ["logging", "file", "path"] _ rfl rfl
  · refine hlaws.kept ["logging", "file", "keep"] rfl ?_
    intro start v hstart hv
    rw [← List.mem_inits] at hstart
    fin_cases hstart <;> cases hv <;> rfl
  · refine hlaws.entered ["limits"] _ rfl ?_
    intro below hbelow
    cases hbelow
  · exact hlaws.replaced ["index"] _ rfl rfl
  · rw [hlaws.keys]
    decide

end Value

end SymbolAtlas
