import GermanLox.Expr
import Std.Data.TreeMap

/-!
# Distances

Which occurrences of names are local, and how many scopes out from the occurrence the declaration
stands. An occurrence without an entry is global.
-/

namespace GermanLox

/-- The scope distance of each local occurrence, by the number of its expression. -/
abbrev Distances := Std.TreeMap ExprId Nat

end GermanLox
