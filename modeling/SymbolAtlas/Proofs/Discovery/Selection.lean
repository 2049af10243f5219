import Mathlib
import SymbolAtlas.Proofs.Discovery.Growth
import SymbolAtlas.Proofs.Text.Path

/-!
# What discovery selects

A walk from a sub-path of a directory comes by every file that lies at that sub-path or below it,
unless a directory on the way down has an excluded name (`IsWalk.mem`).  It takes the files of a
directory before its sub-directories, both in the order of their names (`IsWalk.ordered`).
Discovery is one such walk after the other: it gives the names of the files that match, each where
it comes first (`Discovery.names_along_walks`).  It does so for all sub-paths that the disk can look
up at all; one that the disk refuses is an error.
-/

namespace SymbolAtlas

/-! ## Trees with distinct names -/

mutual

/-- Within every directory the names are distinct. -/
def DiskNode.Distinct : DiskNode → Prop
  | .file .. => True
  | .directory entries => (Ledger.keys entries).Nodup ∧ EntriesDistinct entries
termination_by structural node => node

/-- Below every entry the names are distinct. -/
def EntriesDistinct : List (String × DiskNode) → Prop
  | [] => True
  | (_, node) :: rest => node.Distinct ∧ EntriesDistinct rest
termination_by structural entries => entries

end

theorem EntriesDistinct.of_mem {entries : List (String × DiskNode)} (h : EntriesDistinct entries)
    {name : String} {node : DiskNode} (hmem : (name, node) ∈ entries) : node.Distinct := by
  induction entries with
  | nil => cases hmem
  | cons entry rest ih =>
    obtain ⟨other, first⟩ := entry
    rw [EntriesDistinct] at h
    rcases List.mem_cons.1 hmem with heq | hmem
    · cases heq
      exact h.1
    · exact ih h.2 hmem

theorem DiskNode.Distinct.of_get? {entries : List (String × DiskNode)}
    (h : (DiskNode.directory entries).Distinct) {name : String} {node : DiskNode}
    (hget : Ledger.get? entries name = some node) : node.Distinct := by
  rw [DiskNode.Distinct] at h
  exact h.2.of_mem (Ledger.mem_of_get? hget)

/-! ## What is at a path of names -/

/-- What is at the end of a path of names. -/
def DiskNode.at? : DiskNode → List String → Option DiskNode
  | node, [] => some node
  | .file .., _ :: _ => none
  | .directory entries, name :: rest => (Ledger.get? entries name).bind fun node => node.at? rest

namespace DiskNode

@[simp] theorem at?_nil (node : DiskNode) : node.at? [] = some node := by
  cases node <;> rfl

@[simp] theorem at?_directory_cons (entries : List (String × DiskNode)) (name : String)
    (rest : List String) :
    (directory entries).at? (name :: rest) = (Ledger.get? entries name).bind (·.at? rest) := rfl

theorem at?_append (node : DiskNode) (xs ys : List String) :
    node.at? (xs ++ ys) = (node.at? xs).bind (·.at? ys) := by
  induction xs generalizing node with
  | nil => simp
  | cons name rest ih =>
    cases node with
    | file content mtime => rfl
    | directory entries =>
      rw [List.cons_append, at?_directory_cons, at?_directory_cons, Option.bind_assoc]
      exact congrArg _ (funext fun child => ih child)

theorem at?_file_eq_some {content : List UInt8} {mtime : Double} {parts : List String}
    {node : DiskNode} :
    (file content mtime).at? parts = some node ↔ parts = [] ∧ node = file content mtime := by
  cases parts with
  | nil => simp [eq_comm]
  | cons name rest => simp [at?]

theorem Distinct.at? {node child : DiskNode} (h : node.Distinct) {parts : List String}
    (hchild : node.at? parts = some child) : child.Distinct := by
  induction parts generalizing node with
  | nil =>
    rw [at?_nil, Option.some.injEq] at hchild
    exact hchild ▸ h
  | cons name rest ih =>
    cases node with
    | file content mtime => cases hchild
    | directory entries =>
      obtain ⟨next, hnext, hchild⟩ := Option.bind_eq_some_iff.1 hchild
      exact ih (h.of_get? hnext) hchild

end DiskNode

namespace Disk

/-- What lies at a path of names below a directory; nothing if there is no such directory. -/
def below? (d : Disk) (directory : Path) (parts : List String) : Option DiskNode :=
  let start := if directory.isAbsolute then d.root else .directory []
  (descend start [] directory.parts).toOption.bind (·.at? parts)

theorem below?_append (d : Disk) (directory : Path) (xs ys : List String) :
    d.below? directory (xs ++ ys) = (d.below? directory xs).bind (·.at? ys) := by
  rw [below?, below?, Option.bind_assoc]
  exact congrArg _ (funext fun node => node.at?_append xs ys)

/-- Where no part leads upwards, going down is following names. -/
theorem toOption_descend {here : DiskNode} {above : List DiskNode} {parts : List String}
    (hup : ".." ∉ parts) (hshort : descend here above parts ≠ .error .nameTooLong) :
    (descend here above parts).toOption = here.at? parts := by
  induction parts generalizing here above with
  | nil => simp [descend, Except.toOption]
  | cons part rest ih =>
    rw [List.mem_cons, not_or] at hup
    cases here with
    | file content mtime => rfl
    | directory entries =>
      simp only [descend, if_neg (Ne.symm hup.1)] at hshort ⊢
      split at hshort
      · exact absurd rfl hshort
      · rename_i hpart
        rw [if_neg hpart, DiskNode.at?_directory_cons]
        cases hchild : Ledger.get? entries part with
        | none => rfl
        | some child =>
          rw [hchild] at hshort
          exact ih hup.2 hshort

/-- Going down in two stages, the second of which does not lead upwards. -/
theorem toOption_descend_append {here : DiskNode} {above : List DiskNode} {xs ys : List String}
    (hup : ".." ∉ ys) (hshort : descend here above (xs ++ ys) ≠ .error .nameTooLong) :
    (descend here above (xs ++ ys)).toOption =
      (descend here above xs).toOption.bind (·.at? ys) := by
  induction xs generalizing here above with
  | nil =>
    rw [List.nil_append, toOption_descend hup hshort]
    simp [descend, Except.toOption]
  | cons part rest ih =>
    cases here with
    | file content mtime => rfl
    | directory entries =>
      simp only [List.cons_append, descend] at hshort ⊢
      split
      · rename_i hpart
        rw [if_pos hpart] at hshort
        cases above with
        | nil => exact ih hshort
        | cons up more => exact ih hshort
      · rename_i hpart
        rw [if_neg hpart] at hshort
        split
        · rfl
        · rename_i hlength
          rw [if_neg hlength] at hshort
          cases hchild : Ledger.get? entries part with
          | none => rfl
          | some child =>
            rw [hchild] at hshort
            exact ih hshort

theorem distinct_descend {here node : DiskNode} {above : List DiskNode} {parts : List String}
    (hhere : here.Distinct) (habove : ∀ up ∈ above, up.Distinct)
    (h : descend here above parts = .ok node) : node.Distinct := by
  induction parts generalizing here above with
  | nil =>
    rw [descend] at h
    cases h
    exact hhere
  | cons part rest ih =>
    cases here with
    | file content mtime => cases h
    | directory entries =>
      simp only [descend] at h
      split at h
      · cases above with
        | nil => exact ih hhere habove h
        | cons up more =>
          obtain ⟨hup, hmore⟩ := List.forall_mem_cons.1 habove
          exact ih hup hmore h
      · split at h
        · cases h
        · split at h
          · rename_i child hchild
            exact ih (hhere.of_get? hchild) (List.forall_mem_cons.2 ⟨hhere, habove⟩) h
          · cases h

theorem distinct_below? {d : Disk} (hd : d.root.Distinct) {directory : Path} {parts : List String}
    {node : DiskNode} (h : d.below? directory parts = some node) : node.Distinct := by
  obtain ⟨tree, htree, hnode⟩ := Option.bind_eq_some_iff.1 h
  refine DiskNode.Distinct.at? ?_ hnode
  cases hdescend : descend (if directory.isAbsolute then d.root else .directory []) []
      directory.parts with
  | error fault =>
    rw [hdescend] at htree
    cases htree
  | ok found =>
    rw [hdescend] at htree
    cases htree
    refine distinct_descend ?_ (by simp) hdescend
    split
    · exact hd
    · simp [DiskNode.Distinct, EntriesDistinct, Ledger.keys]

/-- The disk refuses to look a path up: it holds a character that no path can hold, or it is too
long. -/
def Refuses (d : Disk) (path : Path) : Prop :=
  path.hasNul = true ∨ d.lookup path = .error .nameTooLong

/-- A sub-path without double dots is looked up by following its names from the directory. -/
theorem toOption_lookup_join {d : Disk} {directory : Path} {parts : List String}
    (hup : ".." ∉ parts)
    (hshort : d.lookup (directory.extend parts) ≠ .error .nameTooLong) :
    (d.lookup (directory.extend parts)).toOption = d.below? directory parts := by
  unfold lookup DiskNode.lookup at hshort ⊢
  split at hshort
  · exact absurd rfl hshort
  · rename_i hlength
    rw [if_neg hlength]
    exact toOption_descend_append hup hshort

theorem fault_of_descend {here : DiskNode} {above : List DiskNode} {parts : List String}
    {fault : DiskFault} (h : descend here above parts = .error fault) :
    fault = .missing ∨ fault = .notDirectory ∨ fault = .nameTooLong := by
  induction parts generalizing here above with
  | nil =>
    rw [descend] at h
    cases h
  | cons part rest ih =>
    cases here with
    | file content mtime =>
      rw [descend] at h
      cases h
      exact .inr (.inl rfl)
    | directory entries =>
      simp only [descend] at h
      split at h
      · split at h
        · exact ih h
        · exact ih h
      · split at h
        · cases h
          exact .inr (.inr rfl)
        · split at h
          · exact ih h
          · cases h
            exact .inl rfl

/-- A path in the tree of a disk cannot be looked up because nothing is there, or because it is too
long. -/
theorem fault_of_lookup {d : Disk} {path : Path} {fault : DiskFault}
    (h : d.lookup path = .error fault) :
    fault = .missing ∨ fault = .notDirectory ∨ fault = .nameTooLong := by
  unfold lookup DiskNode.lookup at h
  split at h
  · cases h
    exact .inr (.inr rfl)
  · exact fault_of_descend h

end Disk

namespace Discovery

/-! ## The order of a walk -/

/-- The order in which a walk comes by files: those of a directory come before what lies in its
sub-directories, both in the order of their names. -/
def Before : List String → List String → Prop
  | [a], [b] => a < b
  | [_], _ :: _ :: _ => True
  | a :: x :: xs, b :: y :: ys => a < b ∨ a = b ∧ Before (x :: xs) (y :: ys)
  | _, _ => False

theorem before_cons {name : String} {xs ys : List String} (hx : xs ≠ []) (hy : ys ≠ [])
    (h : Before xs ys) : Before (name :: xs) (name :: ys) := by
  cases xs with
  | nil => exact absurd rfl hx
  | cons x xs =>
    cases ys with
    | nil => exact absurd rfl hy
    | cons y ys => exact .inr ⟨rfl, h⟩

theorem before_of_lt {a b : String} {xs ys : List String} (hx : xs ≠ []) (hy : ys ≠ [])
    (h : a < b) : Before (a :: xs) (b :: ys) := by
  cases xs with
  | nil => exact absurd rfl hx
  | cons x xs =>
    cases ys with
    | nil => exact absurd rfl hy
    | cons y ys => exact .inl h

theorem before_file {a b : String} {ys : List String} (hy : ys ≠ []) : Before [a] (b :: ys) := by
  cases ys with
  | nil => exact absurd rfl hy
  | cons y ys => trivial

/-- Things with distinct names come in the strict order of their names. -/
theorem pairwise_sortByName {α : Type} {xs : List (String × α)} (h : (xs.map (·.1)).Nodup) :
    (sortByName xs).Pairwise fun a b => a.1 < b.1 := by
  have hperm : (sortByName xs).Perm xs := List.mergeSort_perm xs _
  have hdistinct : (sortByName xs).Pairwise fun a b => a.1 ≠ b.1 :=
    List.pairwise_map.1 ((hperm.map Prod.fst).nodup_iff.2 h)
  have hsorted : (sortByName xs).Pairwise fun a b => (!decide (b.1 < a.1)) = true := by
    refine List.pairwise_mergeSort ?_ ?_ xs
    · intro a b c hab hbc
      simp only [Bool.not_eq_true', decide_eq_false_iff_not, not_lt] at hab hbc ⊢
      exact hab.trans hbc
    · intro a b
      simp only [Bool.or_eq_true, Bool.not_eq_true', decide_eq_false_iff_not, not_lt]
      exact le_total a.1 b.1
  refine (hsorted.and hdistinct).imp ?_
  rintro a b ⟨hle, hne⟩
  simp only [Bool.not_eq_true', decide_eq_false_iff_not, not_lt] at hle
  exact lt_of_le_of_ne hle hne

section Below

variable {excluded : List String} {path : Path}

theorem names_filesOf_sublist (entries : List (String × DiskNode)) :
    ((filesOf entries).map (·.1)).Sublist (Ledger.keys entries) := by
  induction entries with
  | nil => exact List.Sublist.slnil
  | cons entry rest ih =>
    obtain ⟨name, node⟩ := entry
    cases node with
    | file content mtime => exact ih.cons_cons name
    | directory inner => exact ih.cons name

theorem names_branches_sublist (excluded : List String) (path : Path)
    (entries : List (String × DiskNode)) :
    ((branches excluded path entries).map (·.1)).Sublist (Ledger.keys entries) := by
  induction entries with
  | nil =>
    rw [branches.eq_def]
    exact List.Sublist.slnil
  | cons entry rest ih =>
    obtain ⟨name, node⟩ := entry
    rw [branches.eq_def]
    cases node with
    | file content mtime => exact ih.cons name
    | directory inner =>
      simp only
      split
      · exact ih.cons name
      · exact ih.cons_cons name

theorem ne_nil_of_mem_filesBelow {node : DiskNode} {parts : List String}
    (h : parts ∈ filesBelow excluded path node) : parts ≠ [] := by
  rintro rfl
  cases node with
  | file content mtime => cases h
  | directory entries =>
    obtain ⟨-, ⟨name, content, mtime, -, hparts⟩ | ⟨name, inner, rest, -, -, -, hparts⟩⟩ :=
      mem_filesBelow.1 h
    · cases hparts
    · cases hparts

theorem mem_filesOf {entries : List (String × DiskNode)} {name : String}
    {paths : List (List String)} (h : (name, paths) ∈ filesOf entries) : paths = [[name]] := by
  obtain ⟨⟨other, node⟩, -, heq⟩ := List.mem_filterMap.1 h
  cases node with
  | file content mtime =>
    cases heq
    rfl
  | directory inner => cases heq

theorem exists_cons_of_mem_branches {entries : List (String × DiskNode)}
    {branch : String × List (List String)} (h : branch ∈ branches excluded path entries)
    {parts : List String} (hparts : parts ∈ branch.2) :
    ∃ rest, rest ≠ [] ∧ parts = branch.1 :: rest := by
  obtain ⟨name, paths⟩ := branch
  obtain ⟨inner, -, -, rfl⟩ := mem_branches.1 h
  obtain ⟨rest, hrest, rfl⟩ := List.mem_map.1 hparts
  exact ⟨rest, ne_nil_of_mem_filesBelow hrest, rfl⟩

/-- The files below a place come in the order of a walk. -/
theorem pairwise_filesBelow (path : Path) (node : DiskNode) (h : node.Distinct) :
    (filesBelow excluded path node).Pairwise Before := by
  match node, h with
  | .file content mtime, _ =>
    rw [filesBelow]
    exact List.Pairwise.nil
  | .directory entries, h =>
    rw [DiskNode.Distinct] at h
    rw [filesBelow]
    split
    · exact List.Pairwise.nil
    have hfiles := pairwise_sortByName (h.1.sublist (names_filesOf_sublist entries))
    have hbranches := pairwise_sortByName
      (h.1.sublist (names_branches_sublist excluded path entries))
    have hfile : ∀ file ∈ sortByName (filesOf entries), file.2 = [[file.1]] := by
      rintro ⟨name, paths⟩ hmem
      exact mem_filesOf (List.mem_mergeSort.1 hmem)
    rw [List.pairwise_flatMap]
    refine ⟨?_, List.pairwise_append.2 ⟨?_, ?_, ?_⟩⟩
    · intro item hitem
      rcases List.mem_append.1 hitem with hitem | hitem
      · rw [hfile item hitem]
        exact List.pairwise_singleton _ _
      · obtain ⟨name, paths⟩ := item
        obtain ⟨inner, hentry, -, rfl⟩ := mem_branches.1 (List.mem_mergeSort.1 hitem)
        have hinner := pairwise_filesBelow (path.extend [name]) (.directory inner)
          (h.2.of_mem hentry)
        refine List.pairwise_map.2 (hinner.imp_of_mem fun {x y} hx hy hxy => ?_)
        exact before_cons (ne_nil_of_mem_filesBelow hx) (ne_nil_of_mem_filesBelow hy) hxy
    · refine hfiles.imp_of_mem fun {a b} ha hb hab x hx y hy => ?_
      rw [hfile a ha, List.mem_singleton] at hx
      rw [hfile b hb, List.mem_singleton] at hy
      rw [hx, hy]
      exact hab
    · refine hbranches.imp_of_mem fun {a b} ha hb hab x hx y hy => ?_
      obtain ⟨xs, hxs, rfl⟩ := exists_cons_of_mem_branches (List.mem_mergeSort.1 ha) hx
      obtain ⟨ys, hys, rfl⟩ := exists_cons_of_mem_branches (List.mem_mergeSort.1 hb) hy
      exact before_of_lt hxs hys hab
    · intro a ha b hb x hx y hy
      rw [hfile a ha, List.mem_singleton] at hx
      obtain ⟨ys, hys, rfl⟩ := exists_cons_of_mem_branches (List.mem_mergeSort.1 hb) hy
      rw [hx]
      exact before_file hys
termination_by sizeOf node
decreasing_by
  have hsmaller := List.sizeOf_lt_of_mem hentry
  simp only [Prod.mk.sizeOf_spec, DiskNode.directory.sizeOf_spec] at hsmaller ⊢
  omega

/-- The directories on the way down a path of names have paths that are short enough to be looked
up. -/
def Listed (path : Path) (parts : List String) : Prop :=
  ∀ dirs, dirs <+: parts → dirs ≠ parts → Disk.isTooLong (path.extend dirs) = false

theorem listed_nil (path : Path) : Listed path [] :=
  fun _ hdirs hne => absurd (List.prefix_nil.1 hdirs) hne

theorem listed_cons {part : String} {rest : List String} :
    Listed path (part :: rest) ↔
      Disk.isTooLong path = false ∧ Listed (path.extend [part]) rest := by
  constructor
  · intro h
    refine ⟨?_, fun dirs hdirs hne => ?_⟩
    · simpa using h [] List.nil_prefix (by simp)
    · simpa using h (part :: dirs) (List.cons_prefix_cons.2 ⟨rfl, hdirs⟩) (by simpa using hne)
  · rintro ⟨hpath, hrest⟩ dirs hdirs hne
    cases dirs with
    | nil => simpa using hpath
    | cons other dirs =>
      obtain ⟨rfl, hbelow⟩ := List.cons_prefix_cons.1 hdirs
      simpa using hrest dirs hbelow (by simpa using hne)

/-- The files below a place are those at the end of a path of names none of which, but for the
last, is excluded, through directories that can be listed. -/
theorem mem_filesBelow_iff {node : DiskNode} (h : node.Distinct) {parts : List String} :
    parts ∈ filesBelow excluded path node ↔ parts ≠ [] ∧
      (∃ content mtime, node.at? parts = some (.file content mtime)) ∧
      (∀ name ∈ parts.dropLast, name ∉ excluded) ∧ Listed path parts := by
  induction parts generalizing path node with
  | nil =>
    constructor
    · exact fun hmem => absurd rfl (ne_nil_of_mem_filesBelow hmem)
    · exact fun hne => absurd rfl hne.1
  | cons part rest ih =>
    cases node with
    | file content mtime => simp [filesBelow, DiskNode.at?]
    | directory entries =>
      have hkeys := h
      rw [DiskNode.Distinct] at hkeys
      rw [mem_filesBelow, listed_cons]
      constructor
      · rintro ⟨hlisted, ⟨name, content, mtime, hentry, hparts⟩ |
          ⟨name, inner, below, hentry, hincluded, hbelow, hparts⟩⟩
        · cases hparts
          refine ⟨by simp, ⟨content, mtime, ?_⟩, by simp, hlisted, listed_nil _⟩
          rw [DiskNode.at?_directory_cons, Ledger.get?_of_mem hkeys.1 hentry, Option.bind_some,
            DiskNode.at?_nil]
        · cases hparts
          have hget := Ledger.get?_of_mem hkeys.1 hentry
          obtain ⟨hne, ⟨content, mtime, hfile⟩, hnames, hrest⟩ := (ih (h.of_get? hget)).1 hbelow
          refine ⟨by simp, ⟨content, mtime, ?_⟩, ?_, hlisted, hrest⟩
          · rw [DiskNode.at?_directory_cons, hget, Option.bind_some, hfile]
          · rw [List.dropLast_cons_of_ne_nil hne, List.forall_mem_cons]
            exact ⟨by simpa using hincluded, hnames⟩
      · rintro ⟨-, ⟨content, mtime, hfile⟩, hnames, hlisted, hrest⟩
        refine ⟨hlisted, ?_⟩
        obtain ⟨child, hget, hfile⟩ := Option.bind_eq_some_iff.1 hfile
        have hentry := Ledger.mem_of_get? hget
        cases child with
        | file content' mtime' =>
          obtain ⟨rfl, -⟩ := DiskNode.at?_file_eq_some.1 hfile
          exact .inl ⟨part, content', mtime', hentry, rfl⟩
        | directory inner =>
          have hne : rest ≠ [] := by
            rintro rfl
            cases hfile
          rw [List.dropLast_cons_of_ne_nil hne, List.forall_mem_cons] at hnames
          refine .inr ⟨part, inner, rest, hentry, by simpa using hnames.1, ?_, rfl⟩
          exact (ih (h.of_get? hget)).2 ⟨hne, ⟨content, mtime, hfile⟩, hnames.2, hrest⟩

end Below

/-! ## Walks -/

/-- A path of names leads from a sub-path of a directory to a file, which is the sub-path itself if
there are no names, no directory that it enters has an excluded name, and each directory on the way
can be listed. -/
structure Reaches (d : Disk) (directory : Path) (excluded sub rest : List String) : Prop where
  isFile : ∃ content mtime, d.below? directory (sub ++ rest) = some (.file content mtime)
  included : ∀ name ∈ rest.dropLast, name ∉ excluded
  listed : Listed (directory.extend sub) rest

/-- The paths that a walk comes by when it starts at a sub-path of a directory, each seen from that
sub-path. -/
structure IsWalk (d : Disk) (directory : Path) (excluded sub : List String)
    (walk : List (List String)) : Prop where
  mem : ∀ rest, rest ∈ walk ↔ Reaches d directory excluded sub rest
  ordered : walk.Pairwise Before

section Walks

variable {d : Disk} {directory : Path} {sub : List String}

section IsWalk

variable {excluded : List String}

theorem isWalk_nil (h : d.below? directory sub = none) :
    IsWalk d directory excluded sub [] where
  mem := by
    intro rest
    refine iff_of_false List.not_mem_nil ?_
    rintro ⟨⟨content, mtime, hfile⟩, -, -⟩
    rw [Disk.below?_append, h] at hfile
    cases hfile
  ordered := List.Pairwise.nil

theorem isWalk_file {content : List UInt8} {mtime : Double}
    (h : d.below? directory sub = some (.file content mtime)) :
    IsWalk d directory excluded sub [[]] where
  mem := by
    intro rest
    rw [List.mem_singleton]
    constructor
    · rintro rfl
      exact ⟨⟨content, mtime, by rw [List.append_nil, h]⟩, by simp, listed_nil _⟩
    · rintro ⟨⟨content', mtime', hfile⟩, -, -⟩
      rw [Disk.below?_append, h] at hfile
      exact (DiskNode.at?_file_eq_some.1 hfile).1
  ordered := List.pairwise_singleton _ _

theorem isWalk_directory (hd : d.root.Distinct) {entries : List (String × DiskNode)}
    (h : d.below? directory sub = some (.directory entries)) :
    IsWalk d directory excluded sub
      (filesBelow excluded (directory.extend sub) (.directory entries)) where
  mem := by
    intro rest
    have hbelow : d.below? directory (sub ++ rest) = (DiskNode.directory entries).at? rest := by
      rw [Disk.below?_append, h, Option.bind_some]
    rw [mem_filesBelow_iff (Disk.distinct_below? hd h), ← hbelow]
    constructor
    · rintro ⟨-, hfile, hincluded, hlisted⟩
      exact ⟨hfile, hincluded, hlisted⟩
    · rintro ⟨hfile, hincluded, hlisted⟩
      refine ⟨?_, hfile, hincluded, hlisted⟩
      rintro rfl
      obtain ⟨content, mtime, hfile⟩ := hfile
      rw [hbelow] at hfile
      cases hfile
  ordered := pairwise_filesBelow _ _ (Disk.distinct_below? hd h)

end IsWalk

/-- The sources that a sub-path leads to are those that a walk comes by. -/
theorem exists_walk (hd : d.root.Distinct) (hup : ".." ∉ sub)
    (hfine : ¬ d.Refuses (directory.extend sub)) (excluded : List String) :
    ∃ walk, IsWalk d directory excluded sub walk ∧
      sourcesAt d excluded (directory.extend sub) =
        .ok (walk.map fun rest => directory.extend (sub ++ rest)) := by
  obtain ⟨hnul, hshort⟩ := not_or.1 hfine
  have hlookup := Disk.toOption_lookup_join hup hshort
  rw [sourcesAt, if_neg hnul]
  cases hfound : d.lookup (directory.extend sub) with
  | error fault =>
    rw [hfound] at hshort hlookup
    refine ⟨[], isWalk_nil hlookup.symm, ?_⟩
    rcases Disk.fault_of_lookup hfound with rfl | rfl | rfl
    · rfl
    · rfl
    · exact absurd rfl hshort
  | ok node =>
    rw [hfound] at hlookup
    cases node with
    | file content mtime => exact ⟨[[]], isWalk_file hlookup.symm, by simp⟩
    | directory entries => exact ⟨_, isWalk_directory hd hlookup.symm, by simp⟩

theorem sourcesAt_of_refuses {path : Path} (h : d.Refuses path) (excluded : List String) :
    ∃ fault, sourcesAt d excluded path = .error fault := by
  unfold sourcesAt
  split
  · exact ⟨_, rfl⟩
  · rename_i hnul
    rw [h.resolve_left hnul]
    exact ⟨_, rfl⟩

end Walks

/-! ## Names in the order of walks -/

/-- Adds a name unless it is known. -/
def addNew (found : List String) (name : String) : List String :=
  if found.contains name then found else found ++ [name]

theorem eraseDups_concat (names : List String) (name : String) :
    (names ++ [name]).eraseDups = addNew names.eraseDups name := by
  rw [List.eraseDups_append, addNew]
  by_cases hname : name ∈ names
  · rw [if_pos (by simpa using hname)]
    simp [List.removeAll, hname]
  · rw [if_neg (by simpa using hname)]
    simp [List.removeAll, hname, List.eraseDups_cons]

theorem foldl_addNew (seen names : List String) :
    names.foldl addNew seen.eraseDups = (seen ++ names).eraseDups := by
  induction names generalizing seen with
  | nil => simp
  | cons name rest ih =>
    rw [List.foldl_cons, ← eraseDups_concat, ih, List.append_assoc, List.singleton_append]

theorem nodup_eraseDups (names : List String) : names.eraseDups.Nodup := by
  induction names using List.reverseRecOn with
  | nil => simp
  | append_singleton rest name ih =>
    rw [eraseDups_concat, addNew]
    split
    · exact ih
    · rename_i hnew
      refine ih.append (List.nodup_singleton name) (List.disjoint_singleton.2 ?_)
      simpa using hnew

/-- The names of the files that a walk comes by and whose last part matches, seen from the
directory. -/
def namesAlong (directory : Path) (patterns sub : List String) (walk : List (List String)) :
    List String :=
  (walk.filter fun rest =>
    matchesAny patterns (directory.extend (sub ++ rest)).fileName).map
    fun rest => Path.render { root := "", parts := sub ++ rest }

theorem addNames_walk (directory : Path) (patterns found sub : List String)
    (walk : List (List String)) :
    addNames directory patterns found
        (walk.map fun rest => directory.extend (sub ++ rest)) =
      .ok ((namesAlong directory patterns sub walk).foldl addNew found) := by
  induction walk generalizing found with
  | nil => rfl
  | cons rest walk ih =>
    rw [List.map_cons, addNames, namesAlong, List.filter_cons]
    split
    · rw [below?_extend]
      exact ih (addNew found _)
    · exact ih found

section Names

variable {d : Disk} {directory : Path} {settings : IndexSettings}

/-- The paths of names that sub-paths lead to from a directory; with no sub-paths given, the
directory itself. -/
def startsOf : Option (List String) → List (List String)
  | none => [[]]
  | some texts => texts.map fun text => (Path.parse text).parts

theorem names_eq_addAll {subPaths : Option (List String)}
    (hrelative : ∀ text ∈ subPaths.getD [], (Path.parse text).isAbsolute = false) :
    names d directory settings subPaths =
      addAll d directory settings [] ((startsOf subPaths).map directory.extend) := by
  cases subPaths with
  | none => simp [names, startsOf]
  | some texts =>
    have hstarts : texts.map (fun text => directory.join (Path.parse text)) =
        (startsOf (some texts)).map directory.extend := by
      rw [startsOf, List.map_map]
      refine List.map_congr_left fun text htext => ?_
      rw [Path.join, hrelative text htext]
      rfl
    rw [names, hstarts]

/-- One walk after the other, as long as the disk refuses no start. -/
theorem addAll_walks (settings : IndexSettings) (hd : d.root.Distinct) {subs : List (List String)}
    (hup : ∀ sub ∈ subs, ".." ∉ sub)
    (hfine : ∀ sub ∈ subs, ¬ d.Refuses (directory.extend sub)) (seen : List String) :
    ∃ walks, List.Forall₂ (IsWalk d directory settings.excludeDirs) subs walks ∧
      addAll d directory settings seen.eraseDups (subs.map directory.extend) =
        .ok (seen ++
          (subs.zipWith (namesAlong directory settings.extensions) walks).flatten).eraseDups := by
  induction subs generalizing seen with
  | nil => exact ⟨[], .nil, by simp [addAll]⟩
  | cons sub rest ih =>
    obtain ⟨hupSub, hupRest⟩ := List.forall_mem_cons.1 hup
    obtain ⟨hfineSub, hfineRest⟩ := List.forall_mem_cons.1 hfine
    obtain ⟨walk, hwalk, hsources⟩ := exists_walk hd hupSub hfineSub settings.excludeDirs
    obtain ⟨walks, hwalks, hall⟩ := ih hupRest hfineRest
      (seen ++ namesAlong directory settings.extensions sub walk)
    refine ⟨walk :: walks, .cons hwalk hwalks, ?_⟩
    simp only [List.map_cons, addAll, hsources, addNames_walk, foldl_addNew, bind, Except.bind]
    rw [hall, List.zipWith_cons_cons, List.flatten_cons, List.append_assoc]

/-- A start that the disk refuses stops discovery. -/
theorem addAll_refused (hd : d.root.Distinct) {subs : List (List String)}
    (hup : ∀ sub ∈ subs, ".." ∉ sub)
    (hrefused : ∃ sub ∈ subs, d.Refuses (directory.extend sub)) (seen : List String) :
    ∃ fault, addAll d directory settings seen.eraseDups
      (subs.map directory.extend) = .error fault := by
  induction subs generalizing seen with
  | nil => simp at hrefused
  | cons sub rest ih =>
    obtain ⟨hupSub, hupRest⟩ := List.forall_mem_cons.1 hup
    by_cases hsub : d.Refuses (directory.extend sub)
    · obtain ⟨fault, hfault⟩ := sourcesAt_of_refuses hsub settings.excludeDirs
      exact ⟨fault, by simp only [List.map_cons, addAll, hfault, bind, Except.bind]⟩
    · obtain ⟨walk, -, hsources⟩ := exists_walk hd hupSub hsub settings.excludeDirs
      obtain ⟨other, hother, hrefuses⟩ := hrefused
      have hrest : ∃ sub ∈ rest, d.Refuses (directory.extend sub) := by
        rcases List.mem_cons.1 hother with rfl | hother
        · exact absurd hrefuses hsub
        · exact ⟨other, hother, hrefuses⟩
      obtain ⟨fault, hfault⟩ := ih hupRest hrest
        (seen ++ namesAlong directory settings.extensions sub walk)
      refine ⟨fault, ?_⟩
      simp only [List.map_cons, addAll, hsources, addNames_walk, foldl_addNew, bind, Except.bind]
      exact hfault

theorem mem_namesAlong {patterns excluded sub : List String} {walk : List (List String)}
    (hwalk : IsWalk d directory excluded sub walk) {name : String} :
    name ∈ namesAlong directory patterns sub walk ↔ ∃ rest,
      Reaches d directory excluded sub rest ∧
      matchesAny patterns (directory.extend (sub ++ rest)).fileName = true ∧
      name = Path.render { root := "", parts := sub ++ rest } := by
  rw [namesAlong, List.mem_map]
  simp only [List.mem_filter, hwalk.mem, and_assoc, eq_comm]

theorem mem_zipWith_namesAlong {patterns excluded : List String} {subs : List (List String)}
    {walks : List (List (List String))}
    (hwalks : List.Forall₂ (IsWalk d directory excluded) subs walks) {name : String} :
    name ∈ (subs.zipWith (namesAlong directory patterns) walks).flatten ↔ ∃ sub ∈ subs, ∃ rest,
      Reaches d directory excluded sub rest ∧
      matchesAny patterns (directory.extend (sub ++ rest)).fileName = true ∧
      name = Path.render { root := "", parts := sub ++ rest } := by
  induction hwalks with
  | nil => simp
  | cons hwalk _ ih =>
    rw [List.zipWith_cons_cons, List.flatten_cons, List.mem_append, ih, mem_namesAlong hwalk,
      List.exists_mem_cons_iff]

/-- Discovery from relative sub-paths without double dots, or from the directory itself.  If the
disk looks all of them up, the names that are found are those of the matching files that the
sub-paths lead to, each once: they come walk by walk, in the order of the sub-paths, and each where
it comes first.  If the disk refuses one of them, discovery fails. -/
theorem names_along_walks {subPaths : Option (List String)} (hd : d.root.Distinct)
    (hsub : ∀ text ∈ subPaths.getD [],
      (Path.parse text).isAbsolute = false ∧ ".." ∉ (Path.parse text).parts) :
    ((∀ sub ∈ startsOf subPaths, ¬ d.Refuses (directory.extend sub)) →
      ∃ walks found,
        List.Forall₂ (IsWalk d directory settings.excludeDirs) (startsOf subPaths) walks ∧
        names d directory settings subPaths = .ok found ∧
        found = ((startsOf subPaths).zipWith
          (namesAlong directory settings.extensions) walks).flatten.eraseDups ∧
        found.Nodup ∧
        ∀ name, name ∈ found ↔ ∃ sub ∈ startsOf subPaths, ∃ rest,
          Reaches d directory settings.excludeDirs sub rest ∧
          matchesAny settings.extensions (directory.extend (sub ++ rest)).fileName = true ∧
          name = Path.render { root := "", parts := sub ++ rest }) ∧
    ((∃ sub ∈ startsOf subPaths, d.Refuses (directory.extend sub)) →
      ∃ fault, names d directory settings subPaths = .error fault) := by
  have hup : ∀ sub ∈ startsOf subPaths, ".." ∉ sub := by
    cases subPaths with
    | none => simp [startsOf]
    | some texts =>
      intro sub hmem
      obtain ⟨text, htext, rfl⟩ := List.mem_map.1 hmem
      exact (hsub text htext).2
  rw [names_eq_addAll fun text htext => (hsub text htext).1]
  constructor
  · intro hfine
    obtain ⟨walks, hwalks, hall⟩ := addAll_walks settings hd hup hfine []
    refine ⟨walks, _, hwalks, hall, rfl, nodup_eraseDups _, fun name => ?_⟩
    rw [List.mem_eraseDups, List.nil_append, mem_zipWith_namesAlong hwalks]
  · intro hrefused
    exact addAll_refused hd hup hrefused []

/-- A disk with a few sources, one of them in a directory that is excluded by default. -/
def archive : Disk where
  root := .directory [("srv", .directory
    [("b.php", .file [] (.finite false 1 0)),
     ("lib", .directory
       [("node_modules", .directory [("y.php", .file [] (.finite false 1 0))]),
        ("deep", .directory [("z.php", .file [] (.finite false 1 0))]),
        ("x.inc", .file [] (.finite false 1 0))]),
     ("a.php", .file [] (.finite false 1 0))])]

example : filesBelow ["node_modules"] ⟨"/", []⟩ archive.root =
    [["srv", "a.php"], ["srv", "b.php"], ["srv", "lib", "x.inc"],
      ["srv", "lib", "deep", "z.php"]] := by
  cbv

theorem distinct_archive : archive.root.Distinct := by
  simp [archive, DiskNode.Distinct, EntriesDistinct, Ledger.keys]

theorem admits_archive {parts : List String}
    (h : (Path.hasNul ⟨"/", parts⟩, (archive.lookup ⟨"/", parts⟩).toOption.isSome) =
      (false, true)) :
    ¬ archive.Refuses ⟨"/", parts⟩ := by
  obtain ⟨hnul, hfound⟩ := Prod.mk.inj h
  rintro (hnul' | hlong)
  · rw [hnul] at hnul'
    cases hnul'
  · rw [hlong] at hfound
    cases hfound

theorem names_along_walks_archive :
    ∃ found, names archive ⟨"/", ["srv"]⟩ {} (some ["lib/deep", "."]) = .ok found ∧ found.Nodup ∧
      "lib/deep/z.php" ∈ found ∧ "a.php" ∈ found := by
  have hstarts : startsOf (some ["lib/deep", "."]) = [["lib", "deep"], []] := by decide +kernel
  have hfine : ∀ sub ∈ startsOf (some ["lib/deep", "."]),
      ¬ archive.Refuses ⟨"/", ["srv"] ++ sub⟩ := by
    rw [hstarts, List.forall_mem_cons, List.forall_mem_singleton]
    exact ⟨admits_archive (by decide +kernel), admits_archive (by decide +kernel)⟩
  obtain ⟨-, found, -, hnames, -, hnodup, hmem⟩ := (@names_along_walks archive ⟨"/", ["srv"]⟩ {}
    (some ["lib/deep", "."]) distinct_archive (by decide +kernel)).1 hfine
  rw [hstarts] at hmem
  refine ⟨found, hnames, hnodup, (hmem _).2 ?_, (hmem _).2 ?_⟩
  · have hlisted : Listed ⟨"/", ["srv", "lib", "deep"]⟩ ["z.php"] :=
      listed_cons.2 ⟨by decide +kernel, listed_nil _⟩
    exact ⟨["lib", "deep"], by simp, ["z.php"], ⟨⟨_, _, rfl⟩, by simp, hlisted⟩, by cbv,
      by decide +kernel⟩
  · have hlisted : Listed ⟨"/", ["srv"]⟩ ["a.php"] :=
      listed_cons.2 ⟨by decide +kernel, listed_nil _⟩
    exact ⟨[], by simp, ["a.php"], ⟨⟨_, _, rfl⟩, by simp, hlisted⟩, by cbv, by decide +kernel⟩

/-- A name of one letter, repeated. -/
def repeated (n : Nat) : String := String.ofList (List.replicate n 'a')

theorem toList_repeated (n : Nat) : (repeated n).toList = List.replicate n 'a' :=
  String.toList_ofList

theorem utf8ByteSize_repeated (n : Nat) : (repeated n).utf8ByteSize = n := by
  rw [repeated, String.utf8ByteSize_ofList]
  induction n with
  | zero => rfl
  | succ n ih =>
    rw [List.replicate_succ, String.utf8Len_cons, ih]
    rfl

theorem parse_repeated {n : Nat} (h : 1 ≤ n) : Path.parse (repeated n) = ⟨"", [repeated n]⟩ := by
  have hne : ∀ text : String, text.toList.head? ≠ some 'a' → repeated n ≠ text := by
    rintro text htext rfl
    rw [toList_repeated, List.head?_replicate, if_neg (by omega)] at htext
    exact htext rfl
  have hpart : Path.ProperPart (repeated n) :=
    ⟨hne "" (by simp), hne "." (by simp), by simp [toList_repeated]⟩
  have hproper : Path.Proper ⟨"", [repeated n]⟩ := ⟨Or.inl rfl, by simpa using hpart⟩
  simpa [Path.render] using hproper.parse_render

theorem repeated_ne_dots {n : Nat} (h : Disk.longestPart < n) : repeated n ≠ ".." := by
  intro heq
  have hsize := utf8ByteSize_repeated n
  rw [heq] at hsize
  rw [← hsize] at h
  exact absurd h (by decide)

theorem refuses_repeated {n : Nat} (h : Disk.longestPart < n) :
    archive.Refuses ⟨"/", ["srv"] ++ [repeated n]⟩ := by
  have hdescend : ∀ entries above, Disk.descend (.directory entries) above [repeated n] =
      .error .nameTooLong := by
    intro entries above
    simp only [Disk.descend]
    rw [if_neg (repeated_ne_dots h), utf8ByteSize_repeated, if_pos h]
  right
  rw [Disk.lookup, DiskNode.lookup]
  split
  · rfl
  · exact hdescend _ _

theorem names_repeated {n : Nat} (h : Disk.longestPart < n) :
    (Path.parse (repeated n)).isAbsolute = false ∧ ".." ∉ (Path.parse (repeated n)).parts ∧
      ∀ found, names archive ⟨"/", ["srv"]⟩ {} (some [repeated n]) ≠ .ok found := by
  have hparse : Path.parse (repeated n) = ⟨"", [repeated n]⟩ :=
    parse_repeated ((Nat.zero_le _).trans_lt h)
  have hup : ".." ∉ [repeated n] := by simpa using (repeated_ne_dots h).symm
  refine ⟨by rw [hparse]; rfl, by rw [hparse]; exact hup, fun found hfound => ?_⟩
  have hstarts : startsOf (some [repeated n]) = [[repeated n]] := by simp [startsOf, hparse]
  rw [names_eq_addAll (by simp [hparse, Path.isAbsolute]), hstarts] at hfound
  obtain ⟨fault, hfault⟩ := @addAll_refused archive ⟨"/", ["srv"]⟩ {} distinct_archive
    [[repeated n]] (List.forall_mem_singleton.2 hup)
    ⟨[repeated n], List.mem_singleton_self _, refuses_repeated h⟩ []
  exact absurd (hfound.symm.trans hfault) (by simp)

/-- A name that is longer than the disk allows leads to no file, and yet discovery does not pass it
over. -/
theorem names_of_long_name :
    (Path.parse (repeated 256)).isAbsolute = false ∧ ".." ∉ (Path.parse (repeated 256)).parts ∧
      ∀ found, names archive ⟨"/", ["srv"]⟩ {} (some [repeated 256]) ≠ .ok found :=
  names_repeated (by decide)

end Names

end Discovery

end SymbolAtlas
