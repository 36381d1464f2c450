import Std.Data.ExtTreeMap
import Std.Data.ExtTreeSet

/-!
# Terms

A term is the name of a language as it is searched for. Terms are ordered by their code points, which
is also the order of their UTF-8 bytes. The order is fixed here by name, so that a set or a table of
terms means the same wherever it is used.
-/

namespace Census

/-- What is counted: the name of a language. -/
abbrev Term := String

namespace Term

/-- The order by code points. -/
abbrev order : Term → Term → Ordering := @compare String String.instOrd

/-- Whether `a` comes before `b`. -/
def before (a b : Term) : Bool := order a b = .lt

end Term

/-- A finite table with a value for some terms. -/
abbrev TermMap (α : Type) := Std.ExtTreeMap Term α Term.order

/-- A finite set of terms. -/
abbrev TermSet := Std.ExtTreeSet Term Term.order

end Census
