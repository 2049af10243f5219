import Mathlib
import SymbolAtlas.Proofs.Atlas.Blocked
import SymbolAtlas.Proofs.Atlas.Freshness
import SymbolAtlas.Proofs.Discovery.Growth

/-!
# Scans of a disk that grows

An index follows a disk on which files are made and changed by scanning it now and then.  It keeps
the files whose size and time of change are as they were, and still agrees with a new index that
scans the disk once.  The invariant is that after each scan the index is up to date with the disk as
it was then; a file that a later scan keeps is up to date with the later disk too
(`Atlas.CurrentOn.shows_of_kept`).

This ends with the first scan that raises.  A new index would raise as well, but it is gone with the
scan, while the old one is left with a name that stays blocked, also when its file can be read again
(`Atlas.Tracks.fresh_scan_agrees`, `Atlas.blocked_emptiedSite`).
-/

namespace SymbolAtlas

/-! ## Times of change -/

namespace Double

/-- A time that a disk may tell: a number, and of the two zeros only one. -/
structure IsTime (m : Double) : Prop where
  defined : m ≠ .undefined
  zero : m.isZero = true → m = .ofInt 0

theorem isTime_finite {negative : Bool} {mantissa : Nat} {exponent : Int} (h : 0 < mantissa) :
    (finite negative mantissa exponent).IsTime where
  defined := fun hm => by cases hm
  zero := fun hm => by
    cases mantissa with
    | zero => exact absurd h (Nat.lt_irrefl 0)
    | succ m => cases hm

theorem same_self {m : Double} (h : m.IsTime) : m.same m = true := by
  unfold same
  split
  · exact absurd rfl h.defined
  · exact absurd rfl h.defined
  · rfl
  · exact beq_self_eq_true _

theorem eq_of_same {m m' : Double} (h : m.IsTime) (h' : m'.IsTime) (hsame : m.same m' = true) :
    m = m' := by
  unfold same at hsame
  split at hsame
  · cases hsame
  · cases hsame
  · exact (h.zero rfl).trans (h'.zero rfl).symm
  · exact eq_of_beq hsame

end Double

namespace Atlas

variable {a b : Atlas} {w : World} {k : String} {d d' : Disk} {codecs : Codecs} {parser : Parser}

/-! ## Disks with sources -/

/-- What a disk tells of the sources that a scan finds can be relied on: sizes are those of
contents, and times of change are times. -/
def Regular (a : Atlas) (d : Disk) : Prop :=
  ∀ k ∈ a.found d, ∀ stat, d.stat (a.pathOf k) = .ok stat → stat.mtime.IsTime ∧
    ∀ content, d.read (a.pathOf k) = .ok content → stat.size = content.length

/-- Files were made and changed.  A source whose size and time of change are as they were can be
read, if it could be, and has its content still. -/
structure Advances (a : Atlas) (d d' : Disk) : Prop where
  grows : d.Grows d'
  regular : a.Regular d'
  faithful : ∀ k ∈ a.found d, ∀ stat content, d.stat (a.pathOf k) = .ok stat →
    d.read (a.pathOf k) = .ok content → d'.stat (a.pathOf k) = .ok stat →
      d'.read (a.pathOf k) = .ok content

/-- An index follows a disk: it has scanned the disk at some times, if at all, and the last time as
it is; none of the scans has raised. -/
inductive Tracks (start : Atlas) (codecs : Codecs) (parser : Parser) : Disk → Atlas → Prop
  | start {disk : Disk} (hregular : start.Regular disk) : Tracks start codecs parser disk start
  | scan {disk disk' : Disk} {a : Atlas} {width : Nat}
      {out : Atlas × Except ScanFault ScanReport} (h : Tracks start codecs parser disk a)
      (hadvances : start.Advances disk disk')
      (hscan : a.Scans ⟨disk', codecs, parser⟩ none width out)
      (hback : ∀ crash, out.2 ≠ .error (.crashed crash)) : Tracks start codecs parser disk' out.1

theorem SameGround.found (h : SameGround a b) (disk : Disk) : b.found disk = a.found disk := by
  rw [Atlas.found, Atlas.found, discover, discover, h.site, h.settings]

theorem SameGround.regular (h : SameGround a b) (hregular : a.Regular d) : b.Regular d := by
  intro k hk
  rw [h.pathOf]
  exact hregular k (h.found d ▸ hk)

theorem SameGround.advances (h : SameGround a b) (hadvances : a.Advances d d') :
    b.Advances d d' where
  grows := hadvances.grows
  regular := h.regular hadvances.regular
  faithful := by
    intro k hk
    rw [h.pathOf]
    exact hadvances.faithful k (h.found d ▸ hk)

/-- What was found is found again. -/
theorem found_of_grows (hgrows : d.Grows d') (hk : k ∈ a.found d) : k ∈ a.found d' := by
  unfold found at hk ⊢
  split at hk
  · rename_i names hnames
    obtain ⟨names', hnames', hsub⟩ := Discovery.names_of_grows hgrows hnames hk
    have hagain : a.discover d' none = .ok names' := hnames'
    rw [hagain]
    exact hsub k hk
  · cases hk

/-! ## Files that are kept -/

namespace CurrentOn

variable {names : List String}

/-- What is kept has not changed. -/
theorem shows_of_kept (h : a.CurrentOn ⟨d, codecs, parser⟩ names)
    (hstat : a.settings.index.cacheByFileHash = false) (hsub : ∀ k ∈ names, k ∈ a.found d)
    (hregular : a.Regular d) (hadvances : a.Advances d d') {n : Nat}
    (hn : a.verdict ⟨d', codecs, parser⟩ k = .kept n) :
    a.registry.Shows k (a.product ⟨d', codecs, parser⟩ (.ofName k)) := by
  have hentry := entry_of_kept hn
  obtain ⟨hk, f, refusals, g, hproduct, hg, hrelinked⟩ := h.shows_of_get? (get?_of_entry hentry)
  obtain ⟨content, stat, hread, hasked, hmtime, hsize⟩ := asked_of_product hproduct
  obtain ⟨htime, hlength⟩ := hregular k (hsub k hk) stat hasked
  rcases verdict_of_loaded hstat ⟨d', codecs, parser⟩ hentry with ⟨hstuck, -⟩ |
    ⟨plan, hverdict, -⟩ | ⟨-, stat', hasked', hagrees⟩
  · cases hn.symm.trans hstuck
  · exact absurd (hverdict.symm.trans hn) verdictOf_ne_kept
  · have hasked' : d'.stat (a.pathOf k) = .ok stat' := hasked'
    -- size and time of change are those of the file
    rw [hg, Option.any_some, agrees, hrelinked.upToLinks.mtime, hrelinked.upToLinks.size, hmtime,
      hsize, Bool.and_eq_true, Option.any_some, beq_iff_eq, Option.some.injEq] at hagrees
    have htime' := (hadvances.regular k (found_of_grows hadvances.grows (hsub k hk)) stat'
      hasked').1
    have hsame : stat' = stat := by
      cases stat
      cases stat'
      exact congrArg₂ FileStat.mk (hagrees.2.symm.trans (hlength content hread).symm)
        (Double.eq_of_same htime htime' hagrees.1).symm
    rw [hsame] at hasked'
    have hread' := hadvances.faithful k (hsub k hk) stat content hasked hread hasked'
    have hagain : a.product ⟨d', codecs, parser⟩ (.ofName k) =
        a.product ⟨d, codecs, parser⟩ (.ofName k) :=
      product_congr_disk (w := ⟨d, codecs, parser⟩) (hasked'.trans hasked.symm)
        (hread'.trans hread.symm)
    rw [hagain]
    exact h.shows k hk

/-- An index keeps all its files while nothing changes. -/
theorem verdict_of_get? (h : a.CurrentOn w (a.found w.disk))
    (hstat : a.settings.index.cacheByFileHash = false) (hregular : a.Regular w.disk) {n : Nat}
    (hn : a.get? k = some n) : a.verdict w k = .kept n := by
  obtain ⟨hk, f, refusals, g, hproduct, hg, hrelinked⟩ := h.shows_of_get? hn
  obtain ⟨content, stat, hread, hasked, hmtime, hsize⟩ := asked_of_product hproduct
  obtain ⟨htime, hlength⟩ := hregular k hk stat hasked
  rcases verdict_of_loaded hstat w (Registry.entry_of_get? hn) with ⟨-, hnul⟩ |
    ⟨plan, -, -, hdiffers⟩ | ⟨hverdict, -⟩
  · cases hproduct.symm.trans (product_of_hasNul w hnul)
  · have hagrees := hdiffers stat hasked
    rw [hg, Option.any_some, agrees, hrelinked.upToLinks.mtime, hrelinked.upToLinks.size, hmtime,
      hsize, Option.any_some, Double.same_self htime, hlength content hread,
      beq_self_eq_true] at hagrees
    cases hagrees
  · exact hverdict

/-- A name whose load crashes does not come to a result. -/
theorem not_isResult_of_crashed {w₀ : World} (h : a.CurrentOn w₀ names)
    (hstat : a.settings.index.cacheByFileHash = false)
    (hkeep : ∀ k ∈ names, ∀ n, a.verdict w k = .kept n →
      a.registry.Shows k (a.product w (.ofName k)))
    {crash : Crash} (hproduct : a.product w (.ofName k) = .error (.crashed crash)) :
    ¬ (a.verdict w k).IsResult := by
  intro hresult
  have hload : ∀ plan, a.verdict w k = a.verdictOf w plan →
      a.product w plan = a.product w (.ofName k) → False := by
    intro plan hverdict hplan
    rw [hverdict, verdictOf, hplan, hproduct] at hresult
    exact hresult
  cases hentry : a.registry.entries.get? k with
  | none => exact hload _ (verdict_of_unknown w hentry) rfl
  | some entry =>
    cases entry with
    | loading load => exact h.not_loading k load hentry
    | loaded n =>
      rcases verdict_of_loaded hstat w hentry with ⟨hstuck, -⟩ | ⟨plan, hverdict, hplan, -⟩ |
        ⟨hverdict, -⟩
      · rw [hstuck] at hresult
        exact hresult
      · exact hload plan hverdict hplan
      · have hk := (h.shows_of_get? (get?_of_entry hentry)).1
        exact (hkeep k hk n hverdict).ne_crashed crash hproduct

/-- A scan raises if and only if the load of a name that it finds crashes. -/
theorem raised_iff {w₀ : World} (h : a.CurrentOn w₀ names)
    (hstat : a.settings.index.cacheByFileHash = false)
    (hkeep : ∀ k ∈ names, ∀ n, a.verdict w k = .kept n →
      a.registry.Shows k (a.product w (.ofName k)))
    {width : Nat} {out : Atlas × Except ScanFault ScanReport} (hscan : a.Scans w none width out) :
    (∃ crash, out.2 = .error (.crashed crash)) ↔
      ∃ k ∈ a.found w.disk, ∃ crash, a.product w (.ofName k) = .error (.crashed crash) := by
  rcases hscan.outcome h.tidy h.queuesTexts with ⟨fault, hfault, rfl⟩ |
    ⟨names', hnames, ⟨⟨k, hk, hunsettled⟩, hraised⟩ | ⟨hall, s, b, missed, n, -, -, -, -, rfl⟩⟩
  · have hnone : a.found w.disk = [] := by rw [found, hfault]
    rw [hnone]
    constructor
    · rintro ⟨crash, hcrash⟩
      cases hcrash
    · rintro ⟨k, hk, -⟩
      cases hk
  · have hfound : a.found w.disk = names' := by rw [found, hnames]
    rw [settles_iff h.tidy] at hunsettled
    exact iff_of_true hraised ⟨k, hfound ▸ hk,
      product_of_not_isResult hstat (h.not_loading k) hunsettled⟩
  · have hfound : a.found w.disk = names' := by rw [found, hnames]
    constructor
    · rintro ⟨crash, hcrash⟩
      cases hcrash
    · rintro ⟨k, hk, crash, hproduct⟩
      exact absurd ((settles_iff h.tidy).1 (hall k (hfound ▸ hk)))
        (h.not_isResult_of_crashed hstat hkeep hproduct)

/-- Every scan can come to its end. -/
theorem exists_scans {w₀ : World} (h : a.CurrentOn w₀ names)
    (hstat : a.settings.index.cacheByFileHash = false) {width : Nat} (hwidth : 0 < width)
    (w : World) : ∃ out, a.Scans w none width out := by
  cases hnames : a.discover w.disk none with
  | error fault => exact ⟨_, .undiscovered hnames⟩
  | ok names' =>
    obtain ⟨s, hrun, hended⟩ := (Scanning.good_start h.tidy names').exists_end h.tidy
      (nodup_discover hnames) hwidth fun k _ => h.verdict_ne_stuck hstat w k
    exact ⟨_, .ended hnames hrun hended⟩

end CurrentOn

/-! ## Scans that change nothing, and scans that raise -/

theorem parses_relinkEach (a : Atlas) (ns : List Nat) (missed : Nat) :
    (a.relinkEach ns missed).1.parses = a.parses :=
  relinkEach_keeps (P := fun b => b.parses = a.parses)
    (fun b n hb => (b.parses_relink n).trans hb) ns missed rfl

/-- A scan of an index keeps all its files, and hands none of them to the parser. -/
structure KeepsFiles (a : Atlas) (out : Atlas × Except ScanFault ScanReport) : Prop where
  same : ∀ k n, a.get? k = some n → out.1.get? k = some n ∧
    ∃ report, out.2 = .ok report ∧ n ∈ report.files
  parses : ∃ more, out.1.parses = a.parses ++ more ∧ ∀ k ∈ more, a.get? k = none

theorem keepsFiles_of_kept (ha : a.registry.Tidy) (htexts : a.QueuesTexts)
    (hkept : ∀ k n, a.get? k = some n → k ∈ a.found w.disk ∧ a.verdict w k = .kept n)
    {width : Nat} {out : Atlas × Except ScanFault ScanReport} (hscan : a.Scans w none width out)
    (hback : ∀ crash, out.2 ≠ .error (.crashed crash)) : a.KeepsFiles out := by
  rcases hscan.outcome ha htexts with ⟨fault, hfault, rfl⟩ |
    ⟨names, hnames, ⟨-, crash, hraised⟩ | ⟨-, s, b, missed, n, hgood, hended, hcrash, hb, rfl⟩⟩
  · refine ⟨fun k n hn => ?_, [], (List.append_nil _).symm, by simp⟩
    have hfound := (hkept k n hn).1
    rw [found, hfault] at hfound
    cases hfound
  · exact absurd hraised (hback crash)
  · have hfound : a.found w.disk = names := by rw [found, hnames]
    rw [hfound] at hkept
    obtain ⟨hbooks, -, -⟩ := relinkEach_eq_ok hgood.tidy.nodup_loaded hb
    have hparses := s.atlas.parses_relinkEach s.atlas.registry.loaded 0
    rw [hb] at hparses
    refine ⟨fun k n hn => ?_, ?_⟩
    · obtain ⟨hk, hverdict⟩ := hkept k n hn
      have huntouched := hgood.fulfilled hended hk
      rw [hverdict] at huntouched
      refine ⟨?_, s.report, rfl, hgood.report.files k ?_ n hverdict⟩
      · show b.registry.get? k = some n
        rw [Registry.get?, hbooks.entries, huntouched.entry, entry_of_kept hverdict]
      · exact (hgood.settled_perm hended hcrash).mem_iff.2 hk
    · obtain ⟨more, hmore, hnew⟩ := hgood.parses
      refine ⟨more, hparses.trans hmore, fun k hk => ?_⟩
      cases hn : a.get? k with
      | none => rfl
      | some n => exact absurd (hkept k n hn).2 (hnew k hk n)

/-- A scan has left a name behind that stays blocked: whatever else is read, loaded and linked, also
by its own errands that are still on their way, every refresh of the name crashes. -/
def LeavesBlocked (a : Atlas) (w : World) (width : Nat) (b : Atlas) : Prop :=
  ∃ (names : List String) (s : Scanning), a.discover w.disk none = .ok names ∧
    Scanning.Run w width names.length { atlas := a, waiting := names } s ∧ s.atlas = b ∧
    ∃ k ∈ names, ∀ moves : List Move, (∀ move ∈ moves, move.IsLoading) →
      ∀ (w' : World) (request : Request), request.name = k →
        ∃ crash, ((s.rest.performAll moves).atlas.refresh w' request).2 = .crashed crash

/-- A scan that raises leaves a blocked name behind. -/
theorem CurrentOn.leavesBlocked {w₀ : World} {names : List String} (h : a.CurrentOn w₀ names)
    (hstat : a.settings.index.cacheByFileHash = false) {width : Nat}
    {out : Atlas × Except ScanFault ScanReport} (hscan : a.Scans w none width out) {crash : Crash}
    (hraised : out.2 = .error (.crashed crash)) : a.LeavesBlocked w width out.1 := by
  have hleft : ∀ {names : List String} {s : Scanning}, a.discover w.disk none = .ok names →
      Scanning.Run w width names.length { atlas := a, waiting := names } s →
      s.report.crash ≠ none → a.LeavesBlocked w width s.atlas := by
    intro names s hnames hrun hcrash
    have hd := nodup_discover hnames
    have hgood := hrun.good h.tidy hd
    obtain ⟨k, hk⟩ := List.exists_mem_of_ne_nil _ fun hnone => hcrash (hgood.crash.2 hnone)
    have hblocked := hgood.blocked hd hk (h.verdict_ne_stuck hstat w k)
    refine ⟨names, s, hnames, hrun, rfl, k, hgood.mem_of_dropped hk, ?_⟩
    intro moves hmoves w' request hname
    exact (crashed_of_blocks (hblocked.performAll hmoves).registry w' hname).2
  cases hscan with
  | undiscovered hfault => cases hraised
  | raised hnames hrun hcrash =>
    exact hleft hnames hrun (by rw [hcrash]; exact Option.some_ne_none _)
  | @ended names s hnames hrun hended =>
    have hcrash : s.report.crash ≠ none := by
      intro hnone
      obtain ⟨b, missed, -, hclose⟩ :=
        (hrun.good h.tidy (nodup_discover hnames)).close_ok h.queuesTexts hended hnone
      rw [hclose] at hraised
      cases hraised
    have hatlas : (s.close names.length).1 = s.atlas := by
      obtain ⟨other, hother⟩ := Option.ne_none_iff_exists'.1 hcrash
      rw [Scanning.close, conclude, hother]
    rw [hatlas]
    exact hleft hnames hrun hcrash

/-! ## Indexes that follow a disk -/

/-- An index that has scanned a disk agrees with a new one that scans the disk as it is, and a
further scan changes nothing; neither of these scans raises. -/
structure AgreesAnew (start : Atlas) (w : World) (a : Atlas) : Prop where
  scans : ∀ width, 0 < width → (∃ out, start.Scans w none width out) ∧
    ∃ out, a.Scans w none width out
  fresh : ∀ width out, start.Scans w none width out →
    (∀ crash, out.2 ≠ .error (.crashed crash)) ∧ out.1.Agree a
  further : ∀ width out, a.Scans w none width out →
    (∀ crash, out.2 ≠ .error (.crashed crash)) ∧ a.KeepsFiles out

section Tracks

variable {directory : Path} {settings : Settings} {realpath : String → String}
  (hstat : settings.index.cacheByFileHash = false)

include hstat

/-- After each scan the index is up to date with what the disk held. -/
theorem Tracks.refreshed {disk : Disk}
    (h : Tracks (empty directory settings realpath) codecs parser disk a) :
    SameGround (empty directory settings realpath) a ∧ a.Regular disk ∧
      ∃ names, (∀ k ∈ names, k ∈ a.found disk) ∧ a.Refreshed ⟨disk, codecs, parser⟩ names := by
  induction h with
  | start hregular =>
    exact ⟨⟨rfl, rfl⟩, hregular, [], fun _ hk => absurd hk List.not_mem_nil, _, _, 0,
      .empty _ directory settings realpath, rfl, rfl, rfl⟩
  | @scan disk disk' a width out _ hadvances hscan hback ih =>
    obtain ⟨hground, hregular, names, hsub, hrefreshed⟩ := ih
    have hstat' : a.settings.index.cacheByFileHash = false := by rwa [hground.settings]
    have hadvances' := hground.advances hadvances
    have hcurrent := hrefreshed.current
    obtain ⟨hagain, hground'⟩ := hcurrent.scan hstat'
      (fun k hk => found_of_grows hadvances.grows (hsub k hk))
      (fun _ _ _ hn => hcurrent.shows_of_kept hstat' hsub hregular hadvances' hn) hscan hback
    refine ⟨hground.trans hground', hground'.regular hadvances'.regular, _, ?_, hagain⟩
    rw [hground'.found]
    exact fun _ hk => hk

/-- An index that is up to date with a disk agrees with a new one. -/
theorem Refreshed.agreesAnew {disk : Disk}
    (h : a.Refreshed ⟨disk, codecs, parser⟩ (a.found disk))
    (hground : SameGround (empty directory settings realpath) a) (hregular : a.Regular disk) :
    (empty directory settings realpath).AgreesAnew ⟨disk, codecs, parser⟩ a := by
  have hcurrent := h.current
  have hempty : CurrentOn ⟨disk, codecs, parser⟩ [] (empty directory settings realpath) :=
    .empty _ _ _ _
  have hstat' : a.settings.index.cacheByFileHash = false := by rwa [hground.settings]
  -- no load crashes, since the index shows what each of them comes to
  have hcalm : ∀ k ∈ a.found disk, ∀ crash,
      a.product ⟨disk, codecs, parser⟩ (.ofName k) ≠ .error (.crashed crash) :=
    fun k hk => (hcurrent.shows k hk).ne_crashed
  refine ⟨fun width hwidth => ⟨hempty.exists_scans hstat hwidth _,
    hcurrent.exists_scans hstat' hwidth _⟩, fun width fresh hscan => ?_,
    fun width again hscan => ?_⟩
  · have hback : ∀ crash, fresh.2 ≠ .error (.crashed crash) := by
      intro crash hout
      obtain ⟨k, hk, other, hproduct⟩ := (hempty.raised_iff hstat
        (fun _ hk => absurd hk List.not_mem_nil) hscan).1 ⟨crash, hout⟩
      rw [← hground.found] at hk
      rw [← hground.product] at hproduct
      exact hcalm k hk other hproduct
    obtain ⟨hnew, hgroundNew⟩ := hempty.scan hstat (fun _ hk => absurd hk List.not_mem_nil)
      (fun _ hk => absurd hk List.not_mem_nil) hscan hback
    rw [hground.found] at h
    exact ⟨hback, hnew.agree h ⟨hground.settings.trans hgroundNew.settings.symm,
      hground.site.trans hgroundNew.site.symm⟩⟩
  · have hback : ∀ crash, again.2 ≠ .error (.crashed crash) := by
      intro crash hout
      obtain ⟨k, hk, other, hproduct⟩ := (hcurrent.raised_iff hstat'
        (fun k hk _ _ => hcurrent.shows k hk) hscan).1 ⟨crash, hout⟩
      exact hcalm k hk other hproduct
    have hkept : ∀ k n, a.get? k = some n → k ∈ a.found disk ∧
        a.verdict ⟨disk, codecs, parser⟩ k = .kept n := fun k n hn =>
      ⟨(hcurrent.shows_of_get? hn).1, hcurrent.verdict_of_get? hstat' hregular hn⟩
    exact ⟨hback, keepsFiles_of_kept hcurrent.tidy hcurrent.queuesTexts hkept hscan hback⟩

/-- An index follows a disk and scans it once more.  If the scan does not raise, the index agrees
with a new one that scans the disk as it is, and a further scan keeps all its files.  If it raises,
so does the scan of a new index; but the index is left with a name that stays blocked. -/
theorem Tracks.fresh_scan_agrees {disk disk' : Disk}
    (h : Tracks (empty directory settings realpath) codecs parser disk a)
    (hadvances : (empty directory settings realpath).Advances disk disk') {width : Nat}
    {out : Atlas × Except ScanFault ScanReport}
    (hscan : a.Scans ⟨disk', codecs, parser⟩ none width out) :
    ((∀ crash, out.2 ≠ .error (.crashed crash)) ∧
      (empty directory settings realpath).AgreesAnew ⟨disk', codecs, parser⟩ out.1) ∨
    ((∃ crash, out.2 = .error (.crashed crash)) ∧
      (∀ width' fresh, (empty directory settings realpath).Scans ⟨disk', codecs, parser⟩ none width'
        fresh → ∃ crash, fresh.2 = .error (.crashed crash)) ∧
      a.LeavesBlocked ⟨disk', codecs, parser⟩ width out.1) := by
  obtain ⟨hground, hregular, names, hsub, hrefreshed⟩ := h.refreshed hstat
  have hcurrent := hrefreshed.current
  have hstat' : a.settings.index.cacheByFileHash = false := by rwa [hground.settings]
  have hadvances' := hground.advances hadvances
  have hempty : CurrentOn ⟨disk', codecs, parser⟩ [] (empty directory settings realpath) :=
    .empty _ _ _ _
  have hkeep : ∀ k ∈ names, ∀ n, a.verdict ⟨disk', codecs, parser⟩ k = .kept n →
      a.registry.Shows k (a.product ⟨disk', codecs, parser⟩ (.ofName k)) :=
    fun _ _ _ hn => hcurrent.shows_of_kept hstat' hsub hregular hadvances' hn
  have hraised := hcurrent.raised_iff hstat' hkeep hscan
  -- a new index raises on the same disk
  have hfresh : ∀ {width' fresh}, (empty directory settings realpath).Scans
      ⟨disk', codecs, parser⟩ none width' fresh → ((∃ crash, fresh.2 = .error (.crashed crash)) ↔
        ∃ crash, out.2 = .error (.crashed crash)) := by
    intro width' fresh hscan'
    rw [hempty.raised_iff hstat (fun _ hk => absurd hk List.not_mem_nil) hscan', hraised]
    simp only [hground.found, hground.product]
  by_cases hcrash : ∃ crash, out.2 = .error (.crashed crash)
  · obtain ⟨crash, hout⟩ := hcrash
    exact .inr ⟨⟨crash, hout⟩, fun _ _ hscan' => (hfresh hscan').2 ⟨crash, hout⟩,
      hcurrent.leavesBlocked hstat' hscan hout⟩
  · have hback : ∀ crash, out.2 ≠ .error (.crashed crash) := fun crash hout => hcrash ⟨crash, hout⟩
    obtain ⟨hagain, hground'⟩ := hcurrent.scan hstat'
      (fun k hk => found_of_grows hadvances.grows (hsub k hk)) hkeep hscan hback
    rw [← hground'.found] at hagain
    exact .inl ⟨hback, hagain.agreesAnew hstat (hground.trans hground')
      (hground'.regular hadvances'.regular)⟩

end Tracks

/-! ## A site that grows -/

/-- Two sources. -/
def site : Disk where
  root := .directory [("src", .directory [
    ("a.php", .file [49] (.finite false 1 0)), ("c.php", .file [51] (.finite false 1 0))])]

/-- One of them has changed, and there is a new one. -/
def grownSite : Disk where
  root := .directory [("src", .directory [
    ("a.php", .file [49, 49] (.finite false 2 0)), ("b.php", .file [50] (.finite false 2 0)),
    ("c.php", .file [51] (.finite false 1 0))])]

/-- Every source includes the new one. -/
def siteParser : Parser := fun _ _ =>
  .ok (.list [.object [("kind", .str "include"), ("target", .str "b.php")]])

/-- An index of the site that has seen nothing yet. -/
def siteIndex : Atlas := empty (Path.parse "/src") {}

theorem discover_site : siteIndex.discover site none = .ok ["a.php", "c.php"] := by
  cbv

theorem discover_grownSite :
    siteIndex.discover grownSite none = .ok ["a.php", "b.php", "c.php"] := by
  cbv

/-- Sources of which what is told is listed. -/
theorem regular_of_sources {names : List String} (hnames : a.discover d none = .ok names)
    (hsources : ∀ k ∈ names, ∃ content mtime, d.read (a.pathOf k) = .ok content ∧
      d.stat (a.pathOf k) = .ok { size := content.length, mtime := mtime } ∧ mtime.IsTime) :
    a.Regular d := by
  intro k hk stat hasked
  rw [found, hnames] at hk
  obtain ⟨content, mtime, hread, hasked', htime⟩ := hsources k hk
  cases hasked.symm.trans hasked'
  refine ⟨htime, fun content' hread' => ?_⟩
  cases hread.symm.trans hread'
  rfl

theorem regular_site : siteIndex.Regular site := by
  refine regular_of_sources discover_site
    (List.forall_mem_cons.2 ⟨?_, List.forall_mem_singleton.2 ?_⟩)
  · exact ⟨[49], .finite false 1 0, by cbv, by cbv, Double.isTime_finite Nat.one_pos⟩
  · exact ⟨[51], .finite false 1 0, by cbv, by cbv, Double.isTime_finite Nat.one_pos⟩

theorem regular_grownSite : siteIndex.Regular grownSite := by
  refine regular_of_sources discover_grownSite (List.forall_mem_cons.2 ⟨?_,
    List.forall_mem_cons.2 ⟨?_, List.forall_mem_singleton.2 ?_⟩⟩)
  · exact ⟨[49, 49], .finite false 2 0, by cbv, by cbv, Double.isTime_finite Nat.two_pos⟩
  · exact ⟨[50], .finite false 2 0, by cbv, by cbv, Double.isTime_finite Nat.two_pos⟩
  · exact ⟨[51], .finite false 1 0, by cbv, by cbv, Double.isTime_finite Nat.one_pos⟩

theorem advances_site : siteIndex.Advances site grownSite where
  grows := by
    have hsources : EntriesGrow
        [("a.php", .file [49] (.finite false 1 0)), ("c.php", .file [51] (.finite false 1 0))]
        [("a.php", .file [49, 49] (.finite false 2 0)), ("b.php", .file [50] (.finite false 2 0)),
          ("c.php", .file [51] (.finite false 1 0))] :=
      ⟨⟨_, rfl, trivial⟩, ⟨_, rfl, trivial⟩, trivial⟩
    exact ⟨⟨_, rfl, hsources⟩, trivial⟩
  regular := regular_grownSite
  faithful := by
    intro k hk stat content hasked hread hasked'
    rw [found, discover_site] at hk
    simp only [List.mem_cons, List.not_mem_nil, or_false] at hk
    rcases hk with rfl | rfl
    · -- the disk tells another size
      have hold : site.stat (siteIndex.pathOf "a.php") = .ok ⟨1, .finite false 1 0⟩ := by cbv
      have hnew : grownSite.stat (siteIndex.pathOf "a.php") = .ok ⟨2, .finite false 2 0⟩ := by cbv
      cases hold.symm.trans hasked
      cases hnew.symm.trans hasked'
    · have hold : site.read (siteIndex.pathOf "c.php") = .ok [51] := by cbv
      have hnew : grownSite.read (siteIndex.pathOf "c.php") = .ok [51] := by cbv
      exact hnew.trans (hold.symm.trans hread)

/-- No load of the site crashes. -/
theorem back_of_site {disk : Disk} (hdisk : disk = site ∨ disk = grownSite) {width : Nat}
    {out : Atlas × Except ScanFault ScanReport}
    (hscan : siteIndex.Scans ⟨disk, .common, siteParser⟩ none width out) (crash : Crash) :
    out.2 ≠ .error (.crashed crash) := by
  intro hraised
  have hempty : CurrentOn ⟨disk, .common, siteParser⟩ [] siteIndex := .empty _ _ _ _
  obtain ⟨k, hk, other, hproduct⟩ := (hempty.raised_iff rfl (fun _ hk => absurd hk List.not_mem_nil)
    hscan).1 ⟨crash, hraised⟩
  have hok : (siteIndex.product ⟨disk, .common, siteParser⟩ (.ofName k)).isOk = true := by
    rcases hdisk with rfl | rfl
    · rw [found, discover_site] at hk
      simp only [List.mem_cons, List.not_mem_nil, or_false] at hk
      rcases hk with rfl | rfl <;> decide +kernel
    · rw [found, discover_grownSite] at hk
      simp only [List.mem_cons, List.not_mem_nil, or_false] at hk
      rcases hk with rfl | rfl | rfl <;> decide +kernel
  rw [hproduct] at hok
  cases hok

/-- The site is scanned before and after it has grown; then the index agrees with one that sees the
grown site first. -/
theorem fresh_scan_agrees_grownSite : ∃ a out, Tracks siteIndex .common siteParser site a ∧
    a.Scans ⟨grownSite, .common, siteParser⟩ none 3 out ∧
    (∀ crash, out.2 ≠ .error (.crashed crash)) ∧
    siteIndex.AgreesAnew ⟨grownSite, .common, siteParser⟩ out.1 := by
  have hstat : siteIndex.settings.index.cacheByFileHash = false := rfl
  have hempty (disk : Disk) : CurrentOn ⟨disk, .common, siteParser⟩ [] siteIndex := .empty _ _ _ _
  obtain ⟨first, hfirst⟩ := (hempty site).exists_scans hstat Nat.one_pos ⟨site, .common, siteParser⟩
  have hunchanged : siteIndex.Advances site site :=
    ⟨⟨⟨_, rfl, ⟨_, rfl, trivial⟩, ⟨_, rfl, trivial⟩, trivial⟩, trivial⟩, regular_site,
      fun _ _ _ _ _ hread _ => hread⟩
  have htracks : Tracks siteIndex .common siteParser site first.1 :=
    (Tracks.start regular_site).scan hunchanged hfirst (back_of_site (.inl rfl) hfirst)
  obtain ⟨hground, -, names, -, hrefreshed⟩ := htracks.refreshed hstat
  obtain ⟨out, hout⟩ := hrefreshed.current.exists_scans (hground.settings ▸ hstat)
    (by decide : 0 < 3) ⟨grownSite, .common, siteParser⟩
  rcases htracks.fresh_scan_agrees hstat advances_site hout with hagrees | ⟨-, hraises, -⟩
  · exact ⟨first.1, out, htracks, hout, hagrees⟩
  · obtain ⟨fresh, hfresh⟩ := (hempty grownSite).exists_scans hstat Nat.one_pos
      ⟨grownSite, .common, siteParser⟩
    obtain ⟨crash, hcrash⟩ := hraises 1 fresh hfresh
    exact absurd hcrash (back_of_site (.inr rfl) hfresh crash)

/-! ## A site that is left blocked -/

/-- The source that could not be read is empty by now, which can be read in any encoding. -/
def emptiedSite : World :=
  { Course.voidSite with disk := { root := .directory [("src", .directory
    [("a.php", .file [] (.finite false 2 0))])] } }

/-- The index after a scan that has raised. -/
def voided : Atlas := (Course.void.atlas.scan Course.voidSite none).1

/-- The next scan raises as well, although a new index reads the source. -/
theorem blocked_emptiedSite :
    Course.void.atlas.Advances Course.voidSite.disk emptiedSite.disk ∧
    Course.void.atlas.Scans Course.voidSite none 1 (Course.void.atlas.scan Course.voidSite none) ∧
    voided.Scans emptiedSite none 1 (voided.scan emptiedSite none) ∧
    (voided.scan emptiedSite none).2.isOk = false ∧
    Course.void.atlas.Scans emptiedSite none 1 (Course.void.atlas.scan emptiedSite none) ∧
    (Course.void.atlas.scan emptiedSite none).2.isOk = true := by
  have hnames : Course.void.atlas.discover emptiedSite.disk none = .ok ["a.php"] := by cbv
  have hdirectory : voided.registry.directory = Course.void.atlas.registry.directory := by
    decide +kernel
  have hsettings : voided.settings.index = Course.void.atlas.settings.index := by decide +kernel
  have hagain : voided.discover emptiedSite.disk none = .ok ["a.php"] := by
    rw [discover, hdirectory, hsettings]
    exact hnames
  have hadvances : Course.void.atlas.Advances Course.voidSite.disk emptiedSite.disk := by
    refine ⟨⟨⟨_, rfl, ⟨_, rfl, trivial⟩, trivial⟩, trivial⟩, regular_of_sources hnames
      (List.forall_mem_singleton.2 ?_), fun k hk stat content hasked hread hasked' => ?_⟩
    · exact ⟨[], .finite false 2 0, by cbv, by cbv, Double.isTime_finite Nat.two_pos⟩
    · rw [found, Course.discover_voidSite, List.mem_singleton] at hk
      subst hk
      have hold : Course.voidSite.disk.stat (Course.void.atlas.pathOf "a.php") =
          .ok ⟨2, .finite false 1 0⟩ := by cbv
      have hnew : emptiedSite.disk.stat (Course.void.atlas.pathOf "a.php") =
          .ok ⟨0, .finite false 2 0⟩ := by cbv
      cases hold.symm.trans hasked
      cases hnew.symm.trans hasked'
  refine ⟨hadvances, Course.scans_voidSite, ?_, by decide +kernel, ?_, by decide +kernel⟩
  · refine scans_scan Nat.one_pos fun names hfound => ?_
    cases hagain.symm.trans hfound
    decide +kernel
  · refine scans_scan Nat.one_pos fun names hfound => ?_
    cases hnames.symm.trans hfound
    decide +kernel

end Atlas

end SymbolAtlas
