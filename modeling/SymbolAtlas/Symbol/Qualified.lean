/-!
# Qualified names

A namespace is known by its name with one separator in front and none behind.  A name that already
has a separator in front gets no further one, and at most one is taken off its end.
-/

namespace SymbolAtlas.Qualified

/-- The character between the parts of a qualified name. -/
def separator : Char := '\\'

/-- The name of the namespace that every file starts in. -/
def globalName : String := String.singleton separator

/-- The characters with a separator in front. -/
def rooted (s : List Char) : List Char :=
  if s.head? = some separator then s else separator :: s

/-- The characters without the separator at their end, unless that is all there is. -/
def trimmed (s : List Char) : List Char :=
  if 1 < s.length ∧ s.getLast? = some separator then s.dropLast else s

/-- The name under which a namespace is stored and looked up. -/
def canonical (name : String) : String :=
  String.ofList (trimmed (rooted name.toList))

end SymbolAtlas.Qualified
