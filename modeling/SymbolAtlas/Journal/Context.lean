import SymbolAtlas.Value

/-!
# The context of a scan

While a scan runs, every note carries its id and its directory.  Entering a scan binds both and
remembers what they were bound to before; leaving it restores that.
-/

namespace SymbolAtlas

/-- The values that are added to every note, and those to restore on leaving, innermost first. -/
structure Context where
  bound : Ledger Value := []
  saved : List (Ledger Value) := []
  deriving Inhabited

namespace Context

/-- The names that a scan binds. -/
def scanNames : List String := ["scan_id", "directory"]

/-- Binds a value. -/
def bind (c : Context) (name : String) (value : Value) : Context :=
  { c with bound := Ledger.set c.bound name value }

/-- Enters a scan. -/
def enter (c : Context) (directory scanId : String) : Context :=
  let before := c.bound.filter (fun entry => scanNames.contains entry.1)
  { (c.bind "scan_id" (.str scanId)).bind "directory" (.str directory) with
    saved := before :: c.saved }

/-- Leaves the innermost scan. -/
def leave (c : Context) : Context :=
  match c.saved with
  | [] => c
  | before :: rest =>
    let kept := c.bound.filter (fun entry => !scanNames.contains entry.1)
    { bound := before.foldl (fun t entry => Ledger.set t entry.1 entry.2) kept, saved := rest }

/-- The id of the running scan; only a text is one. -/
def scanId? (c : Context) : Option String :=
  (Ledger.get? c.bound "scan_id").bind Value.text?

end Context

end SymbolAtlas
