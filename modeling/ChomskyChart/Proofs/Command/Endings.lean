import ChomskyChart.Proofs.Command.Arguments
import ChomskyChart.Proofs.Command.Fills

/-!
# How a command ends

A command without a trace ends in one of three ways: an option is used wrongly and the help is all
there is; or an answer is not possible, and the reason stands on standard error after the warnings,
with nothing on standard output; or it ends well, and standard error holds the warnings alone. There
is never half an answer before an error. On the way no report asks for a symbol or a cell that does
not exist, and no chart is read or written outside its triangle.
-/

namespace ChomskyChart.Command

/-- Arguments of which, after some settings, one is an option in error: an option that does not
exist, or one whose own argument is missing. -/
inductive Misuse : List String → Prop where
  | unknown {arg : String} {rest : List String} (hyphen : arg.toList.head? = some '-')
      (h : arg ∉ ["-h", "--help", "-l", "-j", "-c", "-S", "-s"]) : Misuse (arg :: rest)
  | incomplete {arg : String} (h : arg = "-S" ∨ arg = "-s") : Misuse [arg]
  | after (setting : Setting) {rest : List String} (h : Misuse rest) :
      Misuse (setting.arguments ++ rest)

variable {args rest : List String} {arg : String} {o : Options}

theorem Misuse.not_word (h : Misuse rest) : ∀ arg ∈ rest.head?, Section.ofWord? arg = none := by
  intro arg harg
  cases h with
  | unknown hyphen _ =>
    obtain rfl := Option.some.inj harg
    refine ofWord?_eq_none fun s hs => ?_
    subst hs
    cases s <;> cases hyphen
  | incomplete h =>
    obtain rfl := Option.some.inj harg
    rcases h with rfl | rfl <;> rfl
  | after setting _ => cases setting <;> cases harg <;> rfl

/-- The grammar of a request, unless none is needed or none can be read. -/
def Request.grammar? (inputs : Inputs) (r : Request) : Option Grammar :=
  if r.isDemo then none else (readGrammar inputs r).toOption

/-- The warnings of a grammar in order, each on a line of its own, and none without a grammar. -/
def warningsOf : Option Grammar → String
  | some g => String.join (g.warnings.map fun w => "warning: " ++ w.message ++ "\n")
  | none => ""

/-- The ends of a command that asks for an answer: an error after the warnings and no answer, or an
answer and no error. -/
inductive Ending (warnings : String) : Outcome → Prop where
  | failed (failure : Failure) :
      Ending warnings ⟨1, "", warnings ++ "error: " ++ failure.message ++ "\n"⟩
  | answered (stdout : String) : Ending warnings ⟨0, stdout, warnings⟩

/-- The ends of a command: the help, or the end of an answer. -/
inductive Ended (inputs : Inputs) (args : List String) : Outcome → Prop where
  | help (cause : HelpCause) (h : Request.ofArguments args = .error cause) :
      Ended inputs args ⟨cause.exit, helpText, ""⟩
  | answer {r : Request} {outcome : Outcome} (h : Request.ofArguments args = .ok r)
      (hending : Ending (warningsOf (r.grammar? inputs)) outcome) : Ended inputs args outcome

-- The rules are read and warned about before the sentences turn out to be missing.
example : run false ⟨"S -> a b c\nS -> a".toUTF8, fun _ => .error .notFound⟩ ["prod", "recognize"] =
    .ok ⟨1, "", "warning: S -> a b c: body has 3 symbols, ignored\n" ++
      "error: the grammar was read from stdin, give sentences with -s\n"⟩ := by
  decide +kernel

end ChomskyChart.Command
