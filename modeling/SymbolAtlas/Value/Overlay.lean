import SymbolAtlas.Value

/-!
# Overlays

Laying one object over another keeps the fields of the lower one in place, replaces those that the
upper one sets too and puts the others of the upper one behind them.  Where both have an object
under the same name the two are laid over each other in turn.
-/

namespace SymbolAtlas

namespace Value

mutual

/-- What a field holds after one value was laid over another. -/
def laidOver (lower : Value) : Value → Value
  | .object upper =>
    match lower with
    | .object fields => .object (overlay fields upper)
    | _ => .object upper
  | upper => upper
termination_by structural upper => upper

/-- The fields of one object laid over those of another. -/
def overlay (lower : Ledger Value) : List (String × Value) → Ledger Value
  | [] => lower
  | (key, upper) :: rest =>
    let merged := match Ledger.get? lower key with
      | some below => laidOver below upper
      | none => upper
    overlay (Ledger.set lower key merged) rest
termination_by structural upper => upper

end

end Value

end SymbolAtlas
