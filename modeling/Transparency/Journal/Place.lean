import Transparency.Journal

/-!
# Places in a program

A place is known when both its function and its file are.
-/
namespace Transparency.Journal

structure Place where
  function : Option String := none
  file : Option String := none
  line : Int32 := -1

namespace Place

def isKnown (p : Place) : Bool := p.function.isSome && p.file.isSome

def text (p : Place) : String :=
  match p.function, p.file with
  | some function, some file =>
    function ++ "@" ++ baseName file ++ ":" ++ toString p.line.toInt
  | _, _ => "unknown"

end Place

end Transparency.Journal
