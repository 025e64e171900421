import ChomskyChart.Format.Json
import Mathlib.Data.List.Forall2
import Mathlib.Data.List.TakeWhile

/-!
# Reading the tokens of a JSON text

A JSON text is a list of tokens with blanks between them. It is read as anybody may write it, with
every escape there is, and not only as it is written here. Only `null` and numbers other than the
natural ones are refused, because no value stands for them.

What is written is read as it was meant: each character of a string, each string, and each number
that no digit follows. Of how strings are escaped it is only asked that each character that has to be
is escaped in one of the ways there are, and that all others stand for themselves.
-/

namespace ChomskyChart.Json

inductive Token where
  | openArray
  | closeArray
  | openObject
  | closeObject
  | colon
  | comma
  | bool (b : Bool)
  | number (n : Nat)
  | string (s : String)

/-- A reader that takes at least one character of the text. -/
def Shrinks {α : Type} (read : List Char → Option (α × List Char)) : Prop :=
  ∀ ⦃cs a rest⦄, read cs = some (a, rest) → rest.length < cs.length

/-! ### Characters of a string -/

def hexDigit? (c : Char) : Option Nat :=
  if '0' ≤ c ∧ c ≤ '9' then some (c.toNat - '0'.toNat)
  else if 'a' ≤ c ∧ c ≤ 'f' then some (c.toNat - 'a'.toNat + 10)
  else if 'A' ≤ c ∧ c ≤ 'F' then some (c.toNat - 'A'.toNat + 10)
  else none

/-- Four hexadecimal digits. -/
def readUnit : List Char → Option (Nat × List Char)
  | a :: b :: c :: d :: cs => do
    let a ← hexDigit? a
    let b ← hexDigit? b
    let c ← hexDigit? c
    let d ← hexDigit? d
    return (((a * 16 + b) * 16 + c) * 16 + d, cs)
  | _ => none

/-- The second half of a character beyond U+FFFF. -/
def readLowUnit : List Char → Option (Nat × List Char)
  | '\\' :: 'u' :: cs => (readUnit cs).filter fun r => 0xdc00 ≤ r.1 && r.1 ≤ 0xdfff
  | _ => none

def shortEscapes : List (Char × Char) :=
  [('"', '"'), ('\\', '\\'), ('/', '/'), ('b', '\x08'), ('f', '\x0c'), ('n', '\n'), ('r', '\r'),
    ('t', '\t')]

/-- The character that a unit stands for or is the first half of. A second half alone is none. -/
def completeUnit (unit : Nat) (cs : List Char) : Option (Char × List Char) :=
  if unit < 0xd800 ∨ 0xdfff < unit then some (Char.ofNat unit, cs)
  else if unit < 0xdc00 then
    (readLowUnit cs).map fun r =>
      (Char.ofNat (0x10000 + (unit - 0xd800) * 0x400 + (r.1 - 0xdc00)), r.2)
  else none

/-- What follows a backslash. -/
def readEscape : List Char → Option (Char × List Char)
  | [] => none
  | 'u' :: cs => (readUnit cs).bind fun r => completeUnit r.1 r.2
  | c :: cs => (shortEscapes.lookup c).map (·, cs)

/-- A character of a string, which is neither the quote nor below U+0020 unless escaped. -/
def readChar : List Char → Option (Char × List Char)
  | [] => none
  | '\\' :: cs => readEscape cs
  | c :: cs => if c = '"' ∨ c.toNat < 0x20 then none else some (c, cs)

theorem shrinks_readUnit : Shrinks readUnit := by
  intro cs u rest h
  unfold readUnit at h
  split at h
  · simp only [Option.bind_eq_bind, Option.bind_eq_some_iff, pure, Option.some.injEq,
      Prod.mk.injEq] at h
    obtain ⟨_, _, _, _, _, _, _, _, -, rfl⟩ := h
    simp only [List.length_cons]
    omega
  · cases h

theorem shrinks_readLowUnit : Shrinks readLowUnit := by
  intro cs u rest h
  unfold readLowUnit at h
  split at h
  · have hlt := shrinks_readUnit (Option.filter_eq_some_iff.mp h).1
    simp only [List.length_cons]
    omega
  · cases h

theorem length_completeUnit {unit : Nat} {cs rest : List Char} {c : Char}
    (h : completeUnit unit cs = some (c, rest)) : rest.length ≤ cs.length := by
  unfold completeUnit at h
  split at h
  · cases h
    exact Nat.le_refl _
  · split at h
    · obtain ⟨r, hlow, h⟩ := Option.map_eq_some_iff.mp h
      obtain ⟨-, rfl⟩ := Prod.mk.inj h
      exact Nat.le_of_lt (shrinks_readLowUnit hlow)
    · cases h

theorem shrinks_readEscape : Shrinks readEscape := by
  intro cs c rest h
  unfold readEscape at h
  split at h
  · cases h
  · obtain ⟨r, hunit, h⟩ := Option.bind_eq_some_iff.mp h
    have hlt := shrinks_readUnit hunit
    have hle := length_completeUnit h
    simp only [List.length_cons]
    omega
  · obtain ⟨_, _, h⟩ := Option.map_eq_some_iff.mp h
    cases h
    exact Nat.lt_succ_self _

theorem shrinks_readChar : Shrinks readChar := by
  intro cs c rest h
  unfold readChar at h
  split at h
  · cases h
  · have hlt := shrinks_readEscape h
    simp only [List.length_cons]
    omega
  · split at h
    · cases h
    · cases h
      exact Nat.lt_succ_self _

/-! ### Tokens -/

/-- The characters up to the quote that ends the string. -/
def readString (cs : List Char) : Option (List Char × List Char) :=
  if cs.head? = some '"' then some ([], cs.tail)
  else
    match _ : readChar cs with
    | none => none
    | some (c, rest) => (readString rest).map fun r => (c :: r.1, r.2)
termination_by cs.length
decreasing_by exact shrinks_readChar ‹_›

/-- A natural number. No zero stands in front of other digits. -/
def readNumber (cs : List Char) : Option (Nat × List Char) :=
  let digits := cs.takeWhile Char.isDigit
  if digits = [] ∨ (digits.head? = some '0' ∧ digits ≠ ['0']) then none
  else some (Nat.ofDigitChars 10 digits 0, cs.dropWhile Char.isDigit)

/-- A token that is not a number. -/
def readMark : List Char → Option (Token × List Char)
  | '[' :: cs => some (.openArray, cs)
  | ']' :: cs => some (.closeArray, cs)
  | '\x7b' :: cs => some (.openObject, cs)
  | '\x7d' :: cs => some (.closeObject, cs)
  | ':' :: cs => some (.colon, cs)
  | ',' :: cs => some (.comma, cs)
  | '"' :: cs => (readString cs).map fun r => (.string (String.ofList r.1), r.2)
  | 't' :: 'r' :: 'u' :: 'e' :: cs => some (.bool true, cs)
  | 'f' :: 'a' :: 'l' :: 's' :: 'e' :: cs => some (.bool false, cs)
  | _ => none

def readToken (cs : List Char) : Option (Token × List Char) :=
  if cs.head?.any Char.isDigit then (readNumber cs).map fun r => (.number r.1, r.2)
  else readMark cs

theorem length_readString {cs s rest : List Char} (h : readString cs = some (s, rest)) :
    rest.length ≤ cs.length := by
  fun_induction readString cs generalizing s with
  | case1 cs hquote =>
    cases h
    rw [List.length_tail]
    exact Nat.sub_le _ _
  | case2 => cases h
  | case3 cs _ c rest' hchar ih =>
    have hlt := shrinks_readChar hchar
    obtain ⟨r, hr, h⟩ := Option.map_eq_some_iff.mp h
    cases h
    have hle := ih hr
    omega

theorem shrinks_readNumber : Shrinks readNumber := by
  intro cs n rest h
  unfold readNumber at h
  dsimp only at h
  split at h
  · cases h
  · cases h
    rename_i hdigits
    have hne : cs.takeWhile Char.isDigit ≠ [] := fun he => hdigits (.inl he)
    have hpos := List.length_pos_iff.mpr hne
    have hlen := congrArg List.length (List.takeWhile_append_dropWhile (p := Char.isDigit) (l := cs))
    rw [List.length_append] at hlen
    omega

theorem shrinks_readMark : Shrinks readMark := by
  intro cs t rest h
  unfold readMark at h
  split at h
  case h_7 =>
    obtain ⟨r, hstring, h⟩ := Option.map_eq_some_iff.mp h
    obtain ⟨-, rfl⟩ := Prod.mk.inj h
    exact Nat.lt_succ_of_le (length_readString hstring)
  case h_10 => cases h
  all_goals
    cases h
    simp only [List.length_cons]
    omega

theorem shrinks_readToken : Shrinks readToken := by
  intro cs t rest h
  unfold readToken at h
  split at h
  · obtain ⟨r, hnumber, h⟩ := Option.map_eq_some_iff.mp h
    obtain ⟨-, rfl⟩ := Prod.mk.inj h
    exact shrinks_readNumber hnumber
  · exact shrinks_readMark h

/-- The blanks of JSON, which are fewer than those of a sentence. -/
def isSpace (c : Char) : Bool :=
  c == ' ' || c == '\t' || c == '\n' || c == '\r'

def lex : List Char → Option (List Token)
  | [] => some []
  | c :: cs =>
    if isSpace c then lex cs
    else
      match _ : readToken (c :: cs) with
      | none => none
      | some (t, rest) => (lex rest).map (t :: ·)
termination_by cs => cs.length
decreasing_by
  · exact Nat.lt_succ_self _
  · exact shrinks_readToken ‹_›

/-! ### Strings as they may be escaped -/

/-- The characters that do not stand for themselves in a string. -/
def Special (c : Char) : Prop :=
  c = '"' ∨ c = '\\' ∨ c.toNat < 0x20

instance (c : Char) : Decidable (Special c) :=
  inferInstanceAs (Decidable (c = '"' ∨ c = '\\' ∨ c.toNat < 0x20))

/-- The small and the capital digit. -/
def hexDigits (k : Nat) : List Char :=
  [Nat.digitChar k, (Nat.digitChar k).toUpper]

/-- How a character is written in a string: as it is, by its short escape, or as a unit. All special
characters are below U+0100. -/
inductive Written (c : Char) : List Char → Prop where
  | raw (h : ¬ Special c) : Written c [c]
  | short {letter : Char} (h : Special c) (hletter : (letter, c) ∈ shortEscapes) :
    Written c ['\\', letter]
  | unit {high low : Char} (h : Special c) (hhigh : high ∈ hexDigits (c.toNat / 16))
    (hlow : low ∈ hexDigits (c.toNat % 16)) : Written c ['\\', 'u', '0', '0', high, low]

/-- A function that escapes a text character by character. -/
def Escapes (escape : String → String) : Prop :=
  ∀ text, ∃ forms, List.Forall₂ Written text.toList forms ∧ (escape text).toList = forms.flatten

/-! ### What is written is read -/

variable {cs rest form : List Char} {c : Char} {t : Token}

theorem readToken_of_isSpace {c : Char} (h : isSpace c = true) (cs : List Char) :
    readToken (c :: cs) = none := by
  simp only [isSpace, Bool.or_eq_true, beq_iff_eq] at h
  obtain ((rfl | rfl) | rfl) | rfl := h <;> rfl

theorem lex_of_readToken (h : readToken cs = some (t, rest)) :
    lex cs = (lex rest).map (t :: ·) := by
  cases cs with
  | nil => cases h
  | cons c cs =>
    have hspace : ¬isSpace c = true := by
      intro hc
      rw [readToken_of_isSpace hc] at h
      cases h
    rw [lex, if_neg hspace]
    split
    · rename_i hnone
      rw [hnone] at h
      cases h
    · rename_i hsome
      rw [h] at hsome
      cases hsome
      rfl

theorem hexDigit?_of_mem {k : Nat} (hk : k < 16) {d : Char} (h : d ∈ hexDigits k) :
    hexDigit? d = some k := by
  have hall : ∀ k < 16, (hexDigits k).all fun d => hexDigit? d = some k := by decide
  exact of_decide_eq_true (List.all_eq_true.mp (hall k hk) d h)

/-- A character below U+0100 has two digits after two zeros. -/
theorem readUnit_digits {n : Nat} (hn : n < 256) {high low : Char} (hhigh : high ∈ hexDigits (n / 16))
    (hlow : low ∈ hexDigits (n % 16)) (rest : List Char) :
    readUnit ('0' :: '0' :: high :: low :: rest) = some (n, rest) := by
  have hzero : hexDigit? '0' = some 0 := rfl
  have hvalue : ((0 * 16 + 0) * 16 + n / 16) * 16 + n % 16 = n := by omega
  simp only [readUnit, hzero, hexDigit?_of_mem (show n / 16 < 16 by omega) hhigh,
    hexDigit?_of_mem (show n % 16 < 16 by omega) hlow, Option.bind_eq_bind, Option.bind_some, hvalue]
  rfl

theorem readEscape_short {letter : Char} (h : (letter, c) ∈ shortEscapes) (rest : List Char) :
    readEscape (letter :: rest) = some (c, rest) := by
  have hall : shortEscapes.all fun p => p.1 ≠ 'u' ∧ shortEscapes.lookup p.1 = some p.2 := by decide
  obtain ⟨hne, hlookup⟩ := of_decide_eq_true (List.all_eq_true.mp hall _ h)
  rw [readEscape]
  · rw [hlookup]
    rfl
  · exact hne

theorem Special.toNat_lt (h : Special c) : c.toNat < 256 := by
  rcases h with rfl | rfl | h
  · decide
  · decide
  · omega

theorem readChar_written (h : Written c form) (rest : List Char) :
    readChar (form ++ rest) = some (c, rest) := by
  cases h with
  | raw h =>
    obtain ⟨hquote, h⟩ := not_or.mp h
    obtain ⟨hslash, hlow⟩ := not_or.mp h
    rw [List.singleton_append, readChar]
    · rw [if_neg (not_or.mpr ⟨hquote, hlow⟩)]
    · exact hslash
  | short _ h => exact readEscape_short h rest
  | @unit high low h hhigh hlow =>
    show (readUnit ('0' :: '0' :: high :: low :: rest)).bind (fun r => completeUnit r.1 r.2) = _
    have hlt := h.toNat_lt
    rw [readUnit_digits hlt hhigh hlow, Option.bind_some, completeUnit, if_pos (by omega),
      Char.ofNat_toNat]

/-- A written character does not end the string. -/
theorem head?_written_append (h : Written c form) (rest : List Char) :
    (form ++ rest).head? ≠ some '"' := by
  intro hhead
  have hread := readChar_written h rest
  obtain ⟨tail, htail⟩ := List.head?_eq_some_iff.mp hhead
  rw [htail] at hread
  cases hread

theorem readString_written {s : List Char} {forms : List (List Char)}
    (h : List.Forall₂ Written s forms) (rest : List Char) :
    readString (forms.flatten ++ '"' :: rest) = some (s, rest) := by
  induction h with
  | nil =>
    rw [List.flatten_nil, List.nil_append, readString]
    rfl
  | cons hc _ ih =>
    rw [List.flatten_cons, List.append_assoc, readString, if_neg (head?_written_append hc _)]
    split
    · rename_i hnone
      rw [readChar_written hc] at hnone
      cases hnone
    · rename_i hsome
      rw [readChar_written hc] at hsome
      cases hsome
      rw [ih]
      rfl

theorem Escapes.readToken_quotedWith {escape : String → String} (h : Escapes escape) (s : String)
    (rest : List Char) : readToken (quotedWith escape s ++ rest) = some (.string s, rest) := by
  obtain ⟨forms, hforms, heq⟩ := h s
  have hquoted : quotedWith escape s ++ rest = '"' :: (forms.flatten ++ '"' :: rest) := by
    rw [quotedWith, heq, List.append_assoc]
    rfl
  rw [hquoted]
  show (readString (forms.flatten ++ '"' :: rest)).map _ = _
  rw [readString_written hforms, Option.map_some, String.ofList_toList]

theorem written_escapeChar (c : Char) : Written c (escapeChar c) := by
  unfold escapeChar
  split
  case h_8 hquote hslash _ _ _ _ _ =>
    split
    · rename_i hlow
      exact .unit (.inr (.inr hlow)) List.mem_cons_self List.mem_cons_self
    · rename_i hlow
      exact .raw (not_or.mpr ⟨hquote, not_or.mpr ⟨hslash, hlow⟩⟩)
  all_goals exact .short (by decide) (by decide)

theorem escapes_of_written {form : Char → List Char} (h : ∀ c, Written c (form c)) :
    Escapes fun text => String.ofList (text.toList.flatMap form) := by
  intro text
  refine ⟨text.toList.map form, ?_, ?_⟩
  · rw [List.forall₂_map_right_iff, List.forall₂_same]
    exact fun c _ => h c
  · rw [String.toList_ofList, List.flatMap_def]

theorem escapes_escape : Escapes escape :=
  escapes_of_written written_escapeChar

theorem readToken_bool (escape : String → String) (b : Bool) (rest : List Char) :
    readToken (charsWith escape (.bool b) ++ rest) = some (.bool b, rest) := by
  cases b <;> rfl

/-- The digits of a number start with zero only if it is zero. -/
theorem head?_toDigits {n : Nat} (hn : n ≠ 0) : (Nat.toDigits 10 n).head? ≠ some '0' := by
  induction n using Nat.strong_induction_on with
  | _ n ih =>
    by_cases hlt : n < 10
    · have hdigit : ∀ k < 10, k ≠ 0 → Nat.digitChar k ≠ '0' := by decide
      rw [Nat.toDigits_of_lt_base hlt]
      exact fun hhead => hdigit n hlt hn (Option.some.inj hhead)
    · rw [Nat.toDigits_of_base_le (by decide) (by omega), List.head?_append,
        List.head?_eq_some_head Nat.toDigits_ne_nil, Option.some_or, ← List.head?_eq_some_head]
      exact ih (n / 10) (by omega) (by omega)

theorem isDigit_of_mem_toDigits {n : Nat} {c : Char} (h : c ∈ Nat.toDigits 10 n) :
    c.isDigit = true :=
  Nat.isDigit_of_mem_toDigits (by decide) (by decide) h

theorem readNumber_toDigits (n : Nat) (hrest : ∀ c ∈ rest.head?, c.isDigit = false) :
    readNumber (Nat.toDigits 10 n ++ rest) = some (n, rest) := by
  have hdigits : ∀ c ∈ Nat.toDigits 10 n, c.isDigit = true := fun _ => isDigit_of_mem_toDigits
  have htake : (Nat.toDigits 10 n ++ rest).takeWhile Char.isDigit = Nat.toDigits 10 n := by
    cases rest with
    | nil => rw [List.append_nil, List.takeWhile_eq_self_iff.mpr hdigits]
    | cons c rest =>
      rw [List.takeWhile_append_of_pos hdigits, List.takeWhile_cons_of_neg, List.append_nil]
      rw [hrest c rfl]
      exact Bool.false_ne_true
  have hdrop : (Nat.toDigits 10 n ++ rest).dropWhile Char.isDigit = rest := by
    have hcut := List.takeWhile_append_dropWhile (p := Char.isDigit) (l := Nat.toDigits 10 n ++ rest)
    rw [htake] at hcut
    exact List.append_cancel_left hcut
  have hplain : ¬(Nat.toDigits 10 n = [] ∨
      (Nat.toDigits 10 n).head? = some '0' ∧ Nat.toDigits 10 n ≠ ['0']) := by
    rintro (hnil | ⟨hzero, hmore⟩)
    · exact Nat.toDigits_ne_nil hnil
    · by_cases hn : n = 0
      · exact hmore (hn ▸ Nat.toDigits_zero 10)
      · exact head?_toDigits hn hzero
  rw [readNumber, htake, hdrop, if_neg hplain, Nat.ofDigitChars_ten_toDigits]

theorem readToken_number (escape : String → String) (n : Nat)
    (hrest : ∀ c ∈ rest.head?, c.isDigit = false) :
    readToken (charsWith escape (.number n) ++ rest) = some (.number n, rest) := by
  have hread := readNumber_toDigits n hrest
  obtain ⟨d, ds, hds⟩ := List.exists_cons_of_ne_nil (Nat.toDigits_ne_nil (n := n) (b := 10))
  have hd : d.isDigit = true := isDigit_of_mem_toDigits (n := n) (hds ▸ List.mem_cons_self)
  have hfirst : (Nat.toDigits 10 n ++ rest).head?.any Char.isDigit = true := by
    rw [hds]
    exact hd
  rw [charsWith, readToken, if_pos hfirst, hread]
  rfl

end ChomskyChart.Json
