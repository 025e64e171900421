/-!
# Text in LaTeX

Characters with a meaning in LaTeX are written so that they stand for themselves. Those that need a
command take one with an empty group, which keeps it apart from the text that follows. Of two
hyphens in a row the first is followed by an empty group, so that they make no dash.
-/

namespace ChomskyChart.Latex

def group (text : String) : String :=
  "\x7b" ++ text ++ "\x7d"

/-- A command with an empty group. -/
def command (name : String) : String :=
  "\\" ++ name ++ group ""

/-- A command with one argument. -/
def apply (name argument : String) : String :=
  "\\" ++ name ++ group argument

/-- The written form of a character, given the one that follows it. -/
def escapeChar (c : Char) (next : Option Char) : String :=
  match c with
  | '-' => if next = some '-' then "-" ++ group "" else "-"
  | '&' => "\\&"
  | '%' => "\\%"
  | '$' => "\\$"
  | '#' => "\\#"
  | '_' => "\\_"
  | '\x7b' => "\\\x7b"
  | '\x7d' => "\\\x7d"
  | '[' => group "["
  | ']' => group "]"
  | '~' => command "textasciitilde"
  | '^' => command "textasciicircum"
  | '<' => command "textless"
  | '>' => command "textgreater"
  | '!' => "!" ++ group ""
  | '\\' => command "textbackslash"
  | c => String.ofList [c]

def escapeChars : List Char → List Char
  | [] => []
  | c :: cs => (escapeChar c cs.head?).toList ++ escapeChars cs

def escape (text : String) : String :=
  String.ofList (escapeChars text.toList)

/-- The separator of rows. -/
def newRow : String := "\\\\\n"

/-- Every small epsilon of a finished text as its command. -/
def replaceEpsilon (text : String) : String :=
  String.ofList (text.toList.flatMap fun c => if c = 'ε' then "\\epsilon".toList else [c])

end ChomskyChart.Latex
