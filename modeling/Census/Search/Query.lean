import Census.Http.Url
import Census.Outcome
import Census.Text.Blank

/-!
# Search queries

A term is searched for as the value of a qualifier. A term with white space in it stands between
quotes, so that its second word is not taken for a word of its own.
-/

namespace Census
namespace Search

/-- What a term qualifies. -/
def qualifier : String := "language"

def query (t : Term) : String :=
  if t.toList.any Text.isBlank then qualifier ++ ":\"" ++ t ++ "\"" else qualifier ++ ":" ++ t

/-- An address without the slashes that end it. -/
def baseOf (address : String) : String :=
  String.ofList ((address.toList.reverse.dropWhile (· = '/')).reverse)

def address (base : String) : String := baseOf base ++ "/search/repositories"

def url? (base : String) (t : Term) : Option Http.Url :=
  (Http.Url.ofText? (address base)).map fun u => u.withParameter "q" (query t)

end Search
end Census
