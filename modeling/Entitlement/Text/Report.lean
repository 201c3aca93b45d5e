import Entitlement.Text.Blank

/-! # Reports of failures

A failure is reported with everything that caused it, each cause on lines of its own below the one
it brought about. Several causes are numbered; the lines of one cause stand below each other.
-/

namespace Entitlement.Text

/-- A text whose first line starts with one text and whose further lines start with another. -/
def indented (first further text : String) : String :=
  first ++ String.intercalate ("\n" ++ further) (split '\n' text)

/-- A cause on lines of its own, with its number where there are several. -/
def causeLines (isNumbered : Bool) (number : Nat) (cause : String) : String :=
  if isNumbered then
    let digits := toString number
    let margin := String.ofList (List.replicate (5 - digits.length) ' ')
    indented (margin ++ digits ++ ": ") "       " cause
  else indented "    " "    " cause

/-- Reports a failure with its causes, the nearest one first. -/
def report (failure : String) (causes : List String) : String :=
  let isNumbered := 1 < causes.length
  let lines := causes.mapIdx fun number cause => "\n" ++ causeLines isNumbered number cause
  "Error: " ++ failure ++
    (if causes = [] then "" else "\n\nCaused by:" ++ String.join lines) ++ "\n"

end Entitlement.Text
