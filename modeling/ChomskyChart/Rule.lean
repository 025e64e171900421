/-!
# Rules

A rule has a left side and any number of bodies, each a list of symbol names. Names are arbitrary
strings. Only the number of symbols in a body, and for one symbol its spelling, decide what the
body stands for: bodies of more than two symbols have no place in Chomsky normal form and are never
used.
-/

namespace ChomskyChart

abbrev Body := List String

structure Rule where
  left : String
  bodies : List Body
  deriving DecidableEq, Inhabited

/-- The name under which an empty body is shown. -/
def epsilon : String := "ε"

/-- The symbols that, alone in a body, make it empty. -/
def emptySpellings : List String := [epsilon, "ϵ", ""]

/-- What a body stands for. Terminals and non-terminals are separate name spaces. -/
inductive BodyKind where
  | empty
  | terminal (name : String)
  | pair (left right : String)
  | tooLong
  deriving DecidableEq

def Body.kind : Body → BodyKind
  | [] => .empty
  | [name] => if name ∈ emptySpellings then .empty else .terminal name
  | [left, right] => .pair left right
  | _ :: _ :: _ :: _ => .tooLong

theorem Body.kind_eq_empty_iff (body : Body) :
    body.kind = .empty ↔ body = [] ∨ ∃ s ∈ emptySpellings, body = [s] := by
  match body with
  | [] => simp [kind]
  | [name] =>
    by_cases h : name ∈ emptySpellings
    · simp [kind, h]
    · simp [kind, h]
  | [_, _] => simp [kind]
  | _ :: _ :: _ :: _ => simp [kind]

theorem Body.kind_eq_tooLong_iff (body : Body) : body.kind = .tooLong ↔ 3 ≤ body.length := by
  match body with
  | [] => simp [kind]
  | [name] =>
    simp only [kind, List.length_singleton]
    split <;> simp
  | [_, _] => simp [kind]
  | _ :: _ :: _ :: _ => simp [kind]

theorem Body.kind_eq_pair_iff (body : Body) (b c : String) :
    body.kind = .pair b c ↔ body = [b, c] := by
  match body with
  | [] => simp [kind]
  | [name] =>
    simp only [kind]
    split <;> simp
  | [_, _] => simp [kind]
  | _ :: _ :: _ :: _ => simp [kind]

theorem Body.kind_eq_terminal_iff (body : Body) (t : String) :
    body.kind = .terminal t ↔ body = [t] ∧ t ∉ emptySpellings := by
  match body with
  | [] => simp [kind]
  | [name] =>
    by_cases h : name ∈ emptySpellings
    · simp only [kind, if_pos h, List.cons.injEq, and_true, reduceCtorEq, false_iff, not_and,
        Classical.not_not]
      exact fun e => e ▸ h
    · simp only [kind, if_neg h, BodyKind.terminal.injEq, List.cons.injEq, and_true, iff_self_and]
      exact fun e => e ▸ h
  | [_, _] => simp [kind]
  | _ :: _ :: _ :: _ => simp [kind]

end ChomskyChart
