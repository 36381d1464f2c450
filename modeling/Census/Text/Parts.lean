/-!
# Parts of a text

A text is split at every place where a separating character stands, so it has one part more than
separators, and parts may be empty.
-/

namespace Census
namespace Text

/-- The parts of a text between the places where a character stands. -/
def partsAt (sep : Char) : List Char → List (List Char)
  | [] => [[]]
  | c :: rest =>
    if c = sep then [] :: partsAt sep rest
    else match partsAt sep rest with
      | [] => [[c]]
      | part :: more => (c :: part) :: more

end Text
end Census
