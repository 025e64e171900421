/-!
# Output formats

A report is printed as plain text, in LaTeX, or as JSON. The first two spell a truth value the same
way.
-/

namespace ChomskyChart

inductive Format where
  | plain
  | latex
  | json
  deriving DecidableEq

def verdict (accepted : Bool) : String :=
  if accepted then "true" else "false"

end ChomskyChart
