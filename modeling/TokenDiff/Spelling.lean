/-!
# Choices with a fixed spelling

A setting that takes one of finitely many values is written by name, one name for each value. `Spelled`
lists the values with their names, and `Spelled.ofName?` reads a name back.
-/

namespace TokenDiff

/-- A type of finitely many values, each of which has a name. -/
class Spelled (α : Type) where
  all : List α
  name : α → String

def Spelled.ofName? {α : Type} [Spelled α] (s : String) : Option α :=
  (Spelled.all : List α).find? fun v => Spelled.name v == s

end TokenDiff
