import ChomskyChart.Grammar.Basic

/-!
# Building a grammar

A draft is a grammar under construction. Symbols get the next free number when they are first
met. The left sides come first, in order, then the start symbol, then the bodies from left to
right; so a symbol's number does not depend on where in the bodies it is used once it is a left
side. Repeated left sides share one entry, and a production that is there already is not added
again.
-/

namespace ChomskyChart

def NonTerminal.addProduction (nt : NonTerminal) (p : Production) : NonTerminal :=
  if p ∈ nt.productions then nt else { nt with productions := nt.productions ++ [p] }

structure Draft where
  nonTerminals : List NonTerminal := []
  terminals : List String := []
  warnings : List Warning := []

namespace Draft

/-- The number of a non-terminal, which is added if it is new. -/
def nonTerminal (d : Draft) (name : String) : Nat × Draft :=
  match d.nonTerminals.findIdx? fun nt => nt.name = name with
  | some i => (i, d)
  | none =>
    let i := d.nonTerminals.length
    (i, { d with nonTerminals := d.nonTerminals ++ [{ index := i, name }] })

/-- The number of a terminal, which is added if it is new. -/
def terminal (d : Draft) (name : String) : Nat × Draft :=
  match d.terminals.findIdx? fun t => t = name with
  | some i => (i, d)
  | none => (d.terminals.length, { d with terminals := d.terminals ++ [name] })

def addProduction (d : Draft) (left : Nat) (p : Production) : Draft :=
  { d with nonTerminals := d.nonTerminals.modify left (·.addProduction p) }

def warn (d : Draft) (w : Warning) : Draft :=
  { d with warnings := d.warnings ++ [w] }

/-- Add one body of the left side with the given number and name. -/
def addBody (start left : Nat) (name : String) (d : Draft) (body : Body) : Draft :=
  match body.kind with
  | .empty =>
    let d := if left = start then d else d.warn (.emptyBodyOffStart name)
    d.addProduction left .empty
  | .terminal t =>
    let (t, d) := d.terminal t
    d.addProduction left (.terminal t)
  | .pair b c =>
    let (b, d) := d.nonTerminal b
    let (c, d) := d.nonTerminal c
    d.addProduction left (.pair b c)
  | .tooLong => d.warn (.bodyTooLong name body)

def addRule (start : Nat) (d : Draft) (rule : Rule) : Draft :=
  let (left, d) := d.nonTerminal rule.left
  rule.bodies.foldl (addBody start left rule.left) d

def addLeftSide (d : Draft) (rule : Rule) : Draft :=
  (d.nonTerminal rule.left).2

/-- Each terminal body with the number of its left side. -/
def terminalBodies (nonTerminals : List NonTerminal) : List (Nat × Nat) :=
  nonTerminals.flatMap fun nt => nt.productions.filterMap fun
    | .terminal t => some (t, nt.index)
    | _ => none

/-- Each pair body with the number of its left side. -/
def pairBodies (nonTerminals : List NonTerminal) : List ((Nat × Nat) × Nat) :=
  nonTerminals.flatMap fun nt => nt.productions.filterMap fun
    | .pair b c => some ((b, c), nt.index)
    | _ => none

def finish (d : Draft) (start : Nat) : Grammar where
  nonTerminals := d.nonTerminals
  terminals := d.terminals
  start := start
  byTerminal := Lookup.ofPairs (terminalBodies d.nonTerminals)
  byPair := Lookup.ofPairs (pairBodies d.nonTerminals)
  warnings := d.warnings

end Draft

/-- The grammar of a list of rules. The start symbol need not be a left side. -/
def Grammar.build (rules : List Rule) (start : String) : Grammar :=
  let d := rules.foldl Draft.addLeftSide {}
  let (start, d) := d.nonTerminal start
  (rules.foldl (Draft.addRule start) d).finish start

end ChomskyChart
