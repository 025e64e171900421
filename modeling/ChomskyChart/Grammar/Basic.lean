import ChomskyChart.Lookup
import ChomskyChart.Rule

/-!
# Grammars in Chomsky normal form

Symbols are numbered, terminals and non-terminals apart. A production refers to symbols by number.
Beside its symbols a grammar keeps two inverted indices, from a terminal and from a pair of
non-terminals to the non-terminals that have it as a body.
-/

namespace ChomskyChart

inductive Production where
  | empty
  | terminal (t : Nat)
  | pair (b c : Nat)
  deriving DecidableEq

structure NonTerminal where
  index : Nat
  name : String
  productions : List Production := []
  deriving DecidableEq

/-- A body that recognition never uses. -/
inductive Warning where
  | bodyTooLong (left : String) (body : Body)
  | emptyBodyOffStart (left : String)
  deriving DecidableEq

def Warning.message : Warning → String
  | .bodyTooLong left body =>
    left ++ " -> " ++ " ".intercalate body ++ ": body has " ++ toString body.length ++
      " symbols, ignored"
  | .emptyBodyOffStart left =>
    left ++ " -> " ++ epsilon ++ ": empty body on a non-start symbol, ignored"

structure Grammar where
  nonTerminals : List NonTerminal
  terminals : List String
  start : Nat
  byTerminal : Lookup Nat
  byPair : Lookup (Nat × Nat)
  warnings : List Warning

namespace Grammar

variable (g : Grammar)

/-- The non-terminals that have productions; only these are printed. -/
def producing : List NonTerminal :=
  g.nonTerminals.filter fun nt => !nt.productions.isEmpty

def nonTerminalIndex? (name : String) : Option Nat :=
  g.nonTerminals.findIdx? fun nt => nt.name = name

def terminalIndex? (name : String) : Option Nat :=
  g.terminals.findIdx? fun t => t = name

/-- The productions of the non-terminal with a name, if there is one. -/
def productionsOf? (name : String) : Option (List Production) :=
  (g.nonTerminals.find? fun nt => nt.name = name).map (·.productions)

/-- The non-terminals with the token as a body. -/
def terminalDerivers (token : String) : IndexSet :=
  match g.terminalIndex? token with
  | some t => g.byTerminal.get t
  | none => ∅

/-- The non-terminals with the pair as a body. -/
def pairDerivers (b c : Nat) : IndexSet :=
  g.byPair.get (b, c)

/-- Whether the start symbol has an empty body. -/
def derivesEmpty : Bool :=
  match g.nonTerminals[g.start]? with
  | some nt => nt.productions.contains .empty
  | none => false

end Grammar

end ChomskyChart
