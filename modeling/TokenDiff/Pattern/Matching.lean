import TokenDiff.Pattern.Basic

/-!
# Matching

All places of a text are followed at once. A pattern takes a set of places to the set of those where a
match that begins at one of them can end, and it occurs in a text if the set of all places is taken to
some place.
-/

namespace TokenDiff.Pattern

/-- So many rounds of adding to some places those that one more step leads to. -/
def spread (step : List Nat → List Nat) : Nat → List Nat → List Nat
  | 0, places => places
  | n + 1, places =>
    let further := (places ++ step places).eraseDups
    if further.length = places.length then places else spread step n further

/-- Where the matches that begin at some places can end. -/
def advance (text : Array Char) : Pattern → List Nat → List Nat
  | .empty, places => places
  | .one set, places => (places.filter fun i => text[i]?.any set.contains).map (· + 1)
  | .anchor a, places =>
    places.filter fun i => a.holds (if i = 0 then none else text[i - 1]?) text[i]?
  | .seq p q, places => advance text q (advance text p places)
  | .either p q, places => (advance text p places ++ advance text q places).eraseDups
  | .repeated p least most, places =>
    let least' := Nat.repeat (fun places => advance text p places) least places
    spread (fun places => advance text p places)
      (match most with
        | some most => most - least
        | none => text.size + 1)
      least'

def occursIn (p : Pattern) (text : String) : Bool :=
  let text := text.toList.toArray
  !(p.advance text (List.range (text.size + 1))).isEmpty

end TokenDiff.Pattern
