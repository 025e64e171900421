import ChomskyChart.Proofs.Format.JsonTokens

/-!
# Reading the values of a JSON text

Tokens are taken one by one by a machine with a stack of the arrays and objects that are open. A text
is refused as soon as a token cannot be taken, so that it stands for one value at most. A value that
is written is read back, whatever is open, whatever follows it, and however its strings are escaped.
-/

namespace ChomskyChart.Json

/-- An array or an object that is open, with what it holds so far. An object waits for the value of a
name. -/
inductive Frame where
  | array (items : List Json)
  | object (fields : List (String × Json)) (name : String)

inductive Awaited where
  | value
  /-- An item, or the end of an empty array. -/
  | firstItem
  /-- A name, or the end of an empty object. -/
  | firstName
  | name (fields : List (String × Json))
  | colon (fields : List (String × Json)) (name : String)
  /-- What follows a value. -/
  | next (v : Json)

structure Machine where
  frames : List Frame
  awaited : Awaited

namespace Machine

/-- Take the first token of a value. -/
def start (frames : List Frame) : Token → Option Machine
  | .bool b => some ⟨frames, .next (.bool b)⟩
  | .number n => some ⟨frames, .next (.number n)⟩
  | .string s => some ⟨frames, .next (.string s)⟩
  | .openArray => some ⟨frames, .firstItem⟩
  | .openObject => some ⟨frames, .firstName⟩
  | _ => none

def step : Machine → Token → Option Machine
  | ⟨frames, .value⟩, t => start frames t
  | ⟨frames, .firstItem⟩, .closeArray => some ⟨frames, .next (.array [])⟩
  | ⟨frames, .firstItem⟩, t => start (.array [] :: frames) t
  | ⟨frames, .firstName⟩, .closeObject => some ⟨frames, .next (.object [])⟩
  | ⟨frames, .firstName⟩, .string name => some ⟨frames, .colon [] name⟩
  | ⟨frames, .name fields⟩, .string name => some ⟨frames, .colon fields name⟩
  | ⟨frames, .colon fields name⟩, .colon => some ⟨.object fields name :: frames, .value⟩
  | ⟨.array items :: frames, .next v⟩, .comma => some ⟨.array (items ++ [v]) :: frames, .value⟩
  | ⟨.array items :: frames, .next v⟩, .closeArray =>
    some ⟨frames, .next (.array (items ++ [v]))⟩
  | ⟨.object fields name :: frames, .next v⟩, .comma =>
    some ⟨frames, .name (fields ++ [(name, v)])⟩
  | ⟨.object fields name :: frames, .next v⟩, .closeObject =>
    some ⟨frames, .next (.object (fields ++ [(name, v)]))⟩
  | _, _ => none

/-- The machine after a text. -/
def run (m : Machine) (cs : List Char) : Option Machine :=
  (lex cs).bind fun tokens => tokens.foldlM step m

end Machine

/-- The value a text stands for. -/
def decode (text : String) : Option Json :=
  match Machine.run ⟨[], .value⟩ text.toList with
  | some ⟨[], .next v⟩ => some v
  | _ => none

namespace Machine

variable {m m' : Machine} {frames : List Frame} {cs rest : List Char} {t : Token}

theorem run_nil : m.run [] = some m := by
  rw [run, lex]
  rfl

/-- One step of the machine for one token of the text. -/
theorem run_of_readToken (ht : readToken cs = some (t, rest)) (hm : m.step t = some m') :
    m.run cs = m'.run rest := by
  rw [run, run, lex_of_readToken ht]
  cases lex rest with
  | none => rfl
  | some tokens =>
    change (m.step t).bind (fun m => tokens.foldlM step m) = _
    rw [hm]
    rfl

/-- A machine that takes the first token of a value. An array that is empty so far can take its end
instead. -/
def Ready (m : Machine) (frames : List Frame) : Prop :=
  ∀ t, t ≠ .closeArray → m.step t = start frames t

theorem ready_value : Ready ⟨frames, .value⟩ frames := fun _ _ => rfl

theorem ready_firstItem : Ready ⟨frames, .firstItem⟩ (.array [] :: frames) := by
  intro t ht
  cases t <;> first | rfl | exact absurd rfl ht

theorem step_firstName (name : String) :
    step ⟨frames, .firstName⟩ (.string name) = some ⟨frames, .colon [] name⟩ := rfl

variable {escape : String → String}

theorem run_quotedWith (h : Escapes escape) {s : String} (hm : m.step (.string s) = some m') :
    m.run (quotedWith escape s ++ rest) = m'.run rest :=
  run_of_readToken (h.readToken_quotedWith s rest) hm

mutual

/-- A value that is written is read back, whatever is open and whatever follows it. -/
theorem run_charsWith (h : Escapes escape) {m : Machine} {frames : List Frame} {rest : List Char}
    (hm : m.Ready frames) (hrest : ∀ c ∈ rest.head?, c.isDigit = false) :
    (j : Json) → m.run (j.charsWith escape ++ rest) = run ⟨frames, .next j⟩ rest
  | .bool b => run_of_readToken (readToken_bool escape b rest) (hm _ nofun)
  | .number n => run_of_readToken (readToken_number escape n hrest) (hm _ nofun)
  | .string s => run_quotedWith h (hm _ nofun)
  | .array items => by
    rw [charsWith, List.append_assoc, List.cons_append,
      run_of_readToken rfl (hm .openArray nofun)]
    cases items with
    | nil => exact run_of_readToken rfl rfl
    | cons item items => exact run_itemChars h ready_firstItem (item :: items) nofun
  | .object fields => by
    rw [charsWith, List.append_assoc, List.cons_append,
      run_of_readToken rfl (hm .openObject nofun)]
    cases fields with
    | nil => exact run_of_readToken rfl rfl
    | cons field fields => exact run_fieldChars h step_firstName (field :: fields) nofun

theorem run_itemChars (h : Escapes escape) {m : Machine} {frames : List Frame} {before : List Json}
    {rest : List Char} (hm : m.Ready (.array before :: frames)) : (items : List Json) → items ≠ [] →
    m.run (itemChars escape items ++ ']' :: rest) =
      run ⟨frames, .next (.array (before ++ items))⟩ rest
  | [], hne => absurd rfl hne
  | [item], _ => by
    rw [itemChars, run_charsWith h hm (by simp) item]
    exact run_of_readToken rfl rfl
  | item :: next :: items, _ => by
    rw [itemChars, List.append_assoc, List.cons_append, run_charsWith h hm (by simp) item,
      run_of_readToken rfl rfl, run_itemChars h ready_value (next :: items) nofun,
      List.append_assoc]
    rfl

theorem run_fieldChars (h : Escapes escape) {m : Machine} {frames : List Frame}
    {before : List (String × Json)} {rest : List Char}
    (hm : ∀ name, m.step (.string name) = some ⟨frames, .colon before name⟩) :
    (fields : List (String × Json)) → fields ≠ [] →
    m.run (fieldChars escape fields ++ '\x7d' :: rest) =
      run ⟨frames, .next (.object (before ++ fields))⟩ rest
  | [], hne => absurd rfl hne
  | [(name, value)], _ => by
    rw [fieldChars, List.append_assoc, List.cons_append, run_quotedWith h (hm name),
      run_of_readToken rfl rfl, run_charsWith h ready_value (by simp) value]
    exact run_of_readToken rfl rfl
  | (name, value) :: next :: fields, _ => by
    rw [fieldChars, List.append_assoc, List.append_assoc, List.cons_append,
      run_quotedWith h (hm name), run_of_readToken rfl rfl, List.cons_append,
      run_charsWith h ready_value (by simp) value, run_of_readToken rfl rfl,
      run_fieldChars h (fun _ => rfl) (next :: fields) nofun, List.append_assoc]
    rfl

end

end Machine

theorem Escapes.decode_renderWith {escape : String → String} (h : Escapes escape) (j : Json) :
    decode (j.renderWith escape) = some j := by
  have hrun : Machine.run ⟨[], .value⟩ (j.charsWith escape ++ []) = Machine.run ⟨[], .next j⟩ [] :=
    Machine.run_charsWith h Machine.ready_value (by simp) j
  rw [List.append_nil, Machine.run_nil] at hrun
  rw [decode, renderWith, String.toList_ofList, hrun]

-- Not as it is written here: with blanks, escapes that are not needed, and one character as two units.
example : (decode " [ \"\\u00e9\\uD83D\\ude00\\/\" , 10 ] ").map render = some "[\"é😀/\",10]" := by
  decide +kernel

end ChomskyChart.Json
