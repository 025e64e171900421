/-!
# JSON values and their compact text

Objects keep the order of their fields, and nothing is written between the marks of a value. In a
string the quote, the backslash and the characters below U+0020 are escaped, those with a short
escape by it. All other characters stand for themselves. How strings are escaped is a parameter of
the text.
-/

namespace ChomskyChart

inductive Json where
  | bool (b : Bool)
  | number (n : Nat)
  | string (s : String)
  | array (items : List Json)
  | object (fields : List (String × Json))

namespace Json

def escapeChar (c : Char) : List Char :=
  match c with
  | '"' => ['\\', '"']
  | '\\' => ['\\', '\\']
  | '\x08' => ['\\', 'b']
  | '\x0c' => ['\\', 'f']
  | '\n' => ['\\', 'n']
  | '\r' => ['\\', 'r']
  | '\t' => ['\\', 't']
  | c =>
    if c.toNat < 0x20 then
      ['\\', 'u', '0', '0', Nat.digitChar (c.toNat / 16), Nat.digitChar (c.toNat % 16)]
    else [c]

def escape (s : String) : String :=
  String.ofList (s.toList.flatMap escapeChar)

def quotedWith (escape : String → String) (s : String) : List Char :=
  '"' :: (escape s).toList ++ ['"']

mutual

def charsWith (escape : String → String) : Json → List Char
  | .bool b => (if b then "true" else "false").toList
  | .number n => Nat.toDigits 10 n
  | .string s => quotedWith escape s
  | .array items => '[' :: itemChars escape items ++ [']']
  | .object fields => '\x7b' :: fieldChars escape fields ++ ['\x7d']

def itemChars (escape : String → String) : List Json → List Char
  | [] => []
  | [item] => item.charsWith escape
  | item :: next :: items => item.charsWith escape ++ ',' :: itemChars escape (next :: items)

def fieldChars (escape : String → String) : List (String × Json) → List Char
  | [] => []
  | [(name, value)] => quotedWith escape name ++ ':' :: value.charsWith escape
  | (name, value) :: next :: fields =>
    quotedWith escape name ++ ':' :: value.charsWith escape ++
      ',' :: fieldChars escape (next :: fields)

end

/-- The compact text of a value, with its strings escaped in a given way. -/
def renderWith (escape : String → String) (j : Json) : String :=
  String.ofList (j.charsWith escape)

def render (j : Json) : String :=
  j.renderWith escape

def strings (ss : List String) : Json :=
  .array (ss.map .string)

end Json

end ChomskyChart
