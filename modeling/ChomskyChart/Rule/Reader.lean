import ChomskyChart.Rule.Line
import ChomskyChart.Text.Lines

/-!
# Rule text

The lines of a text are read in order. Reading stops at the first line with a flaw, and the error
carries its number; numbers start at one and count blank lines too.
-/

namespace ChomskyChart

inductive RuleError where
  | badLine (number : Nat) (flaw : LineFlaw)
  | noStartSymbol
  deriving DecidableEq

def LineFlaw.message : LineFlaw → String
  | .tooManyArrows => "too many \"->\""
  | .emptyLeftSide => "empty left side"
  | .leftSideWhitespace => "left side contains whitespace"
  | .missingLeftSide => "cannot find left side"

def RuleError.message : RuleError → String
  | .badLine number flaw => "Line " ++ toString number ++ ": " ++ flaw.message
  | .noStartSymbol => "grammar has no rules and no start symbol"

namespace Rule

/-- Give the last rule further bodies. There has to be one. -/
def extendLast (more : List Body) : List Rule → Except LineFlaw (List Rule)
  | [] => .error .missingLeftSide
  | [rule] => .ok [{ rule with bodies := rule.bodies ++ more }]
  | rule :: next :: rules => (extendLast more (next :: rules)).map (rule :: ·)

/-- The rules after one more line. -/
def addLine (rules : List Rule) (line : List Char) : Except LineFlaw (List Rule) := do
  match ← RuleLine.ofChars line with
  | .blank => return rules
  | .rule left bodies => return rules ++ [⟨left, bodies⟩]
  | .alternatives bodies => extendLast bodies rules

/-- Read lines of which the first has the given number, after some rules are known. -/
def readLines (number : Nat) (rules : List Rule) :
    List (List Char) → Except RuleError (List Rule)
  | [] => .ok rules
  | line :: rest =>
    match addLine rules line with
    | .ok rules => readLines (number + 1) rules rest
    | .error flaw => .error (.badLine number flaw)

/-- All rules of a text, in order. -/
def readAll (text : String) : Except RuleError (List Rule) :=
  readLines 1 [] (Text.lines text.toList)

end Rule

end ChomskyChart
