import ChomskyChart.Command.Request

/-!
# Command lines that ask for an answer

Which requests can be made, and how a request is written as arguments: section words, options with
their arguments, and a path or none. A path has to be told apart from a word and from an option; an
argument of an option may look like anything. Reading the arguments gives the request back.
-/

namespace ChomskyChart.Command

def Section.word : Section → String
  | .productions => "prod"
  | .recognition => "recognize"
  | .charts => "table"
  | .demo => "demo"

/-- An option with its argument, if it takes one. The options that ask for help are left out. -/
inductive Setting where
  | latex
  | json
  | characters
  | start (name : String)
  | sentence (text : String)

namespace Setting

def arguments : Setting → List String
  | .latex => ["-l"]
  | .json => ["-j"]
  | .characters => ["-c"]
  | .start name => ["-S", name]
  | .sentence text => ["-s", text]

/-- The sentences that a setting gives, at most one. -/
def sentences : Setting → List String
  | .sentence text => [text]
  | _ => []

def apply (o : Options) : Setting → Options
  | .latex => { o with format := .latex }
  | .json => { o with format := .json }
  | .characters => { o with mode := .characters }
  | .start name => { o with start := some name }
  | .sentence text => { o with sentences := o.sentences ++ [text] }

end Setting

/-- The options after some settings, taken one after another. -/
def Options.ofSettings (settings : List Setting) : Options :=
  settings.foldl Setting.apply {}

/-- The request for sections, with settings, about a file or about standard input. -/
def Request.given (sections : List Section) (settings : List Setting) (path : Option String) :
    Request where
  sections := sections
  options := .ofSettings settings
  path := path

/-- The arguments that make a request. -/
def commandLine (sections : List Section) (settings : List Setting) (path : Option String) :
    List String :=
  sections.map Section.word ++ (settings.flatMap Setting.arguments ++ path.toList)

/-- A path that is neither a section word nor an option. -/
structure IsPath (path : String) : Prop where
  not_word : ∀ s : Section, path ≠ s.word
  no_hyphen : path.toList.head? ≠ some '-'

variable {sections : List Section} {settings : List Setting} {rest : List String} {arg path : String}
  {o : Options}

theorem ofWord?_word (s : Section) : Section.ofWord? s.word = some s := by
  cases s <;> rfl

theorem ofWord?_eq_none (h : ∀ s : Section, arg ≠ s.word) : Section.ofWord? arg = none := by
  unfold Section.ofWord?
  split
  · exact absurd rfl (h .productions)
  · exact absurd rfl (h .recognition)
  · exact absurd rfl (h .charts)
  · exact absurd rfl (h .demo)
  · rfl

theorem startsWithHyphen_eq_false (h : arg.toList.head? ≠ some '-') :
    startsWithHyphen arg = false := by
  unfold startsWithHyphen
  exact beq_eq_false_iff_ne.mpr h

theorem readSections_words (sections : List Section)
    (h : ∀ arg ∈ rest.head?, Section.ofWord? arg = none) :
    readSections (sections.map Section.word ++ rest) = (sections, rest) := by
  induction sections with
  | nil =>
    cases rest with
    | nil => rfl
    | cons arg rest =>
      rw [List.map_nil, List.nil_append, readSections, h arg rfl]
  | cons s sections ih =>
    rw [List.map_cons, List.cons_append, readSections, ofWord?_word]
    simp only
    rw [ih]

theorem readOptions_setting (o : Options) (setting : Setting) (rest : List String) :
    readOptions o (setting.arguments ++ rest) = readOptions (setting.apply o) rest := by
  cases setting with
  | latex => rfl
  | json => rfl
  | characters => rfl
  | start name => rfl
  | sentence text => rfl

theorem readOptions_settings (o : Options) (settings : List Setting) (rest : List String) :
    readOptions o (settings.flatMap Setting.arguments ++ rest) =
      readOptions (settings.foldl Setting.apply o) rest := by
  induction settings generalizing o with
  | nil => rfl
  | cons setting settings ih =>
    rw [List.flatMap_cons, List.append_assoc, readOptions_setting, ih, List.foldl_cons]

theorem sentences_apply (o : Options) (setting : Setting) :
    (setting.apply o).sentences = o.sentences ++ setting.sentences := by
  cases setting with
  | sentence text => rfl
  | latex => exact (List.append_nil _).symm
  | json => exact (List.append_nil _).symm
  | characters => exact (List.append_nil _).symm
  | start name => exact (List.append_nil _).symm

theorem sentences_foldl (o : Options) (settings : List Setting) :
    (settings.foldl Setting.apply o).sentences =
      o.sentences ++ settings.flatMap Setting.sentences := by
  induction settings generalizing o with
  | nil => exact (List.append_nil _).symm
  | cons setting settings ih =>
    rw [List.foldl_cons, ih, sentences_apply, List.flatMap_cons, List.append_assoc]

/-- What follows the section words does not start with one. -/
theorem head?_not_word (settings : List Setting) {path? : Option String}
    (hp : ∀ path ∈ path?, IsPath path) :
    ∀ arg ∈ (settings.flatMap Setting.arguments ++ path?.toList).head?,
      Section.ofWord? arg = none := by
  cases settings with
  | nil =>
    intro arg harg
    cases path? with
    | none => cases harg
    | some path =>
      obtain rfl : path = arg := Option.some.inj harg
      exact ofWord?_eq_none (hp path rfl).not_word
  | cons setting settings =>
    intro arg harg
    cases setting <;> cases harg <;> rfl

/-- A command line is read as the request it makes. -/
theorem ofArguments_commandLine (hne : sections ≠ []) (settings : List Setting)
    (path? : Option String) (hp : ∀ path ∈ path?, IsPath path) :
    Request.ofArguments (commandLine sections settings path?) =
      .ok (.given sections settings path?) := by
  obtain ⟨s, rest, rfl⟩ := List.exists_cons_of_ne_nil hne
  unfold Request.ofArguments commandLine
  rw [readSections_words _ (head?_not_word settings hp)]
  simp only
  rw [readOptions_settings]
  cases path? with
  | none => rfl
  | some path =>
    -- the path ends the options, and as the last argument it is taken for what it is
    have hpath : readOptions (.ofSettings settings) [path] = .ok (.ofSettings settings, [path]) := by
      unfold readOptions
      rw [startsWithHyphen_eq_false (hp path rfl).no_hyphen]
      rfl
    change (readOptions (.ofSettings settings) [path] >>= _) = _
    rw [hpath]
    rfl

/-- Sentences are there if one is given or if no section needs any. -/
theorem lacksSentences_given (path? : Option String)
    (h : (∃ text, .sentence text ∈ settings) ∨ .recognition ∉ sections ∧ .charts ∉ sections) :
    (Request.given sections settings path?).lacksSentences = false := by
  unfold Request.lacksSentences Request.given
  rw [Bool.and_eq_false_iff]
  rcases h with ⟨text, htext⟩ | ⟨hrecognition, hcharts⟩
  · right
    have hmem : text ∈ settings.flatMap Setting.sentences :=
      List.mem_flatMap.mpr ⟨_, htext, List.mem_singleton_self text⟩
    rw [Options.ofSettings, sentences_foldl, List.isEmpty_eq_false_iff]
    exact List.ne_nil_of_mem (List.mem_append_right _ hmem)
  · left
    rw [List.any_eq_false]
    intro s hs hneeds
    cases s with
    | recognition => exact hrecognition hs
    | charts => exact hcharts hs
    | productions => cases hneeds
    | demo => cases hneeds

end ChomskyChart.Command
