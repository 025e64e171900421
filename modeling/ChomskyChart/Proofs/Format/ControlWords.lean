import ChomskyChart.Proofs.Format.Latex
import ChomskyChart.Proofs.Text.Lines

/-!
# Control words

A control word is a backslash with the letters behind it, as many as there are. So a letter that
comes behind a command is read as part of it, unless something keeps the two apart. Escaping does so
with an empty group. Writing a command for every small epsilon of an escaped text does not, and the
letters behind an epsilon are fused with its command. No other word comes out strange.
-/

namespace ChomskyChart.Latex

/-- The second backslash of a pair starts no word. -/
def readWords : List Char → List String
  | [] => []
  | '\\' :: c :: cs =>
    if c.isAlpha then String.ofList (c :: cs.takeWhile Char.isAlpha) :: readWords cs
    else readWords cs
  | _ :: cs => readWords cs

def words (text : String) : List String :=
  readWords text.toList

/-- The commands that stand for characters of a text. -/
def textCommands : List String :=
  ["textasciitilde", "textasciicircum", "textless", "textgreater", "textbackslash"]

/-- The commands of productions. -/
def commands : List String :=
  ["rightarrow", "mid", "epsilon"] ++ textCommands

/-- The words that are no commands of productions. -/
def strange (ws : List String) : List String :=
  ws.filter (· ∉ commands)

/-- The characters that may be written in another way than as they are. -/
def marked : List Char := specials ++ ['-', '[', ']', '<', '>', '!']

/-- A written form that leaves unmarked characters alone, and uses no commands but those for
characters of a text. -/
structure Spelled (c : Char) (form : String) : Prop where
  written : Written c form
  unchanged : c ∉ marked → form = String.ofList [c]
  command_mem : ∀ name, form = command name → name ∈ textCommands

/-- A function that spells a text character by character. -/
def Spells (escape : String → String) : Prop :=
  ∀ text, ∃ forms, List.Forall₂ Spelled text.toList forms ∧ escape text = String.join forms

/-- The command for an epsilon, and all other characters as they are. -/
def epsilonChar (c : Char) : List Char :=
  if c = 'ε' then "\\epsilon".toList else [c]

/-- An epsilon and the letters behind it, wherever there are any, as one word. -/
def fusedWords : List Char → List String
  | [] => []
  | c :: cs =>
    if c = 'ε' ∧ cs.takeWhile Char.isAlpha ≠ [] then
      ("epsilon" ++ String.ofList (cs.takeWhile Char.isAlpha)) :: fusedWords cs
    else fusedWords cs

/-- No epsilon is directly followed by a letter. -/
def EpsilonsApart (text : String) : Prop :=
  ∀ c, c.isAlpha → ¬ ['ε', c] <:+: text.toList

/-- A text that is read on its own whatever comes behind it, and has no strange words. -/
def Silent (cs : List Char) : Prop :=
  ∀ ds, strange (readWords (cs ++ ds)) = strange (readWords ds)

/-- A text that does not start with a letter. -/
def Apart (cs : List Char) : Prop :=
  cs.takeWhile Char.isAlpha = []

/-- A text with these strange words, as long as no letter comes behind it. -/
def Shows (ws : List String) (cs : List Char) : Prop :=
  ∀ ds, Apart ds → strange (readWords (cs ++ ds)) = ws ++ strange (readWords ds)

/-- What becomes of a character in a spelled text with commands for its epsilons. -/
inductive Printed (c : Char) : List Char → Prop
  | epsilon (h : c = 'ε') : Printed c "\\epsilon".toList
  | plain (hne : c ≠ 'ε') (hslash : c ≠ '\\') : Printed c [c]
  | marked {d : Char} {ds : List Char} (hne : c ≠ 'ε') (hc : c.isAlpha = false)
    (hd : d.isAlpha = false) (hsilent : Silent (d :: ds)) : Printed c (d :: ds)

variable {as bs cs ds sep : List Char} {vs ws : List String} {c : Char} {form : String}
  {forms : List String} {parts : List (List Char)}

/-! ### Words and letters -/

theorem isAlpha_of_mem_marked (h : c ∈ marked) : c.isAlpha = false := by
  have hall : marked.all fun d => d.isAlpha = false := by decide
  exact of_decide_eq_true (List.all_eq_true.mp hall c h)

theorem ne_epsilon_of_mem_marked (h : c ∈ marked) : c ≠ 'ε' := by
  rintro rfl
  revert h
  decide

theorem readWords_cons (hc : c ≠ '\\') : readWords (c :: cs) = readWords cs :=
  readWords.eq_3 c cs fun _ _ h => absurd h hc

theorem readWords_append_of_not_mem (h : '\\' ∉ cs) : readWords (cs ++ ds) = readWords ds := by
  induction cs with
  | nil => rfl
  | cons c cs ih =>
    rw [List.mem_cons, not_or] at h
    rw [List.cons_append, readWords_cons (Ne.symm h.1), ih h.2]

theorem readWords_command {run : List Char} (hne : run ≠ []) (h : ∀ c ∈ run, c.isAlpha) :
    readWords ('\\' :: (run ++ ds)) =
      String.ofList (run ++ ds.takeWhile Char.isAlpha) :: readWords ds := by
  obtain ⟨c, run, rfl⟩ := List.exists_cons_of_ne_nil hne
  obtain ⟨hc, hrun⟩ := List.forall_mem_cons.mp h
  have hplain : '\\' ∉ run := fun hmem => absurd (hrun _ hmem) (by decide)
  rw [List.cons_append, readWords, if_pos hc, List.takeWhile_append_of_pos hrun,
    readWords_append_of_not_mem hplain, List.cons_append]

theorem readWords_epsilon : readWords ("\\epsilon".toList ++ ds) =
    ("epsilon" ++ String.ofList (ds.takeWhile Char.isAlpha)) :: readWords ds := by
  have hall : "epsilon".toList.all Char.isAlpha := by decide
  have hletters : ∀ c ∈ "epsilon".toList, c.isAlpha := List.all_eq_true.mp hall
  have hword := @readWords_command ds _ (by decide) hletters
  rwa [String.ofList_append, String.ofList_toList] at hword

theorem strange_cons_of_mem {w : String} (h : w ∈ commands) : strange (w :: ws) = strange ws :=
  List.filter_cons_of_neg (by simpa using h)

theorem strange_cons_of_not_mem {w : String} (h : w ∉ commands) :
    strange (w :: ws) = w :: strange ws :=
  List.filter_cons_of_pos (by simpa using h)

theorem fused_not_mem_commands {run : List Char} (h : run ≠ []) :
    "epsilon" ++ String.ofList run ∉ commands := by
  intro hmem
  have hall : commands.all fun w => w = "epsilon" ∨ ¬ "epsilon".toList <+: w.toList := by decide
  rcases of_decide_eq_true (List.all_eq_true.mp hall _ hmem) with he | hne
  · exact h (by simpa using congrArg String.toList he)
  · rw [String.toList_append] at hne
    exact hne (List.prefix_append _ _)

/-! ### Parts of a text -/

theorem Silent.append (ha : Silent as) (hb : Silent bs) : Silent (as ++ bs) := by
  intro ds
  rw [List.append_assoc, ha, hb]

theorem silent_of_not_mem (h : '\\' ∉ cs) : Silent cs := by
  intro ds
  rw [readWords_append_of_not_mem h]

theorem Apart.append (ha : Apart as) (hb : Apart bs) : Apart (as ++ bs) := by
  cases as with
  | nil => exact hb
  | cons c as =>
    rw [Apart, List.takeWhile_cons] at ha
    rw [Apart, List.cons_append, List.takeWhile_cons]
    split at ha
    · cases ha
    · rename_i hc
      rw [if_neg hc]

theorem apart_cons (hc : c.isAlpha = false) : Apart (c :: cs) := by
  rw [Apart, List.takeWhile_cons, if_neg (by simp [hc])]

theorem Shows.append (ha : Shows vs as) (hb : Shows ws bs) (happart : Apart bs) :
    Shows (vs ++ ws) (as ++ bs) := by
  intro ds hds
  rw [List.append_assoc, ha _ (happart.append hds), hb ds hds, List.append_assoc]

theorem Silent.shows_append (ha : Silent as) (hb : Shows ws bs) : Shows ws (as ++ bs) := by
  intro ds hds
  rw [List.append_assoc, ha, hb ds hds]

theorem Shows.separated (ha : Shows vs as) (hsep : Silent (' ' :: sep)) (hb : Shows ws bs) :
    Shows (vs ++ ws) (as ++ (' ' :: sep ++ bs)) :=
  ha.append (hsep.shows_append hb) (apart_cons (by decide))

theorem Shows.strange_eq (h : Shows ws cs) : strange (readWords cs) = ws := by
  have hcs := h [] rfl
  rwa [List.append_nil, show strange (readWords []) = [] from rfl, List.append_nil] at hcs

theorem shows_nil : Shows [] [] := fun _ _ => rfl

/-- Texts between separators that keep them apart. -/
theorem shows_intercalate {α : Type} {f : α → List String} {g : α → List Char} {xs : List α}
    (hsep : Silent (' ' :: sep)) (h : ∀ x ∈ xs, Shows (f x) (g x)) :
    Shows (xs.flatMap f) ((' ' :: sep).intercalate (xs.map g)) := by
  induction xs with
  | nil => exact shows_nil
  | cons x xs ih =>
    obtain ⟨hx, hxs⟩ := List.forall_mem_cons.mp h
    cases xs with
    | nil => simpa using hx
    | cons y ys =>
      rw [List.map_cons, List.map_cons, List.intercalate_cons_cons, List.append_assoc]
      exact hx.separated hsep (ih hxs)

theorem strange_eq_nil_iff : strange ws = [] ↔ ∀ w ∈ ws, w ∈ commands := by
  simp [strange]

/-! ### Spelled texts -/

/-- What a marked character can become. -/
theorem Spelled.marked_cases (h : Spelled c form) (hc : c ∈ marked) :
    c ≠ '\\' ∧ (form.toList = [c] ∨ form.toList = [c, '\x7b', '\x7d'] ∨
      form.toList = ['\x7b', c, '\x7d']) ∨
    form.toList = ['\\', c] ∨
    ∃ name ∈ textCommands, form.toList = '\\' :: (name.toList ++ ['\x7b', '\x7d']) := by
  have hplain : c ∉ specials → c ≠ '\\' := by
    rintro hspecial rfl
    exact hspecial (by decide)
  cases hw : h.written with
  | plain hspecial => exact .inl ⟨hplain hspecial, .inl (by simp)⟩
  | apart hspecial => exact .inl ⟨hplain hspecial, .inr (.inl (by simp [group]))⟩
  | grouped hspecial => exact .inl ⟨hplain hspecial, .inr (.inr (by simp [group]))⟩
  | backslash => exact .inr (.inl (by simp))
  | symbol name hname =>
    exact .inr (.inr ⟨_, h.command_mem _ rfl, by simp [command, group]⟩)

theorem silent_command {name : String} (h : name ∈ textCommands) :
    Silent ('\\' :: (name.toList ++ ['\x7b', '\x7d'])) := by
  have hall : textCommands.all fun w => w.toList ≠ [] ∧ w.toList.all Char.isAlpha := by decide
  obtain ⟨hne, halpha⟩ := of_decide_eq_true (List.all_eq_true.mp hall name h)
  have hstop : ∀ ds : List Char, ('\x7b' :: '\x7d' :: ds).takeWhile Char.isAlpha = [] :=
    fun ds => apart_cons (by decide)
  intro ds
  rw [List.cons_append, List.append_assoc, readWords_command hne (List.all_eq_true.mp halpha)]
  change strange (String.ofList (name.toList ++ ('\x7b' :: '\x7d' :: ds).takeWhile _) :: _) = _
  rw [hstop, List.append_nil, String.ofList_toList,
    strange_cons_of_mem (List.mem_append_right _ h)]
  rfl

theorem flatMap_epsilonChar (h : 'ε' ∉ cs) : cs.flatMap epsilonChar = cs := by
  have hchar : ∀ c ∈ cs, epsilonChar c = [c] := by
    intro c hc
    rw [epsilonChar, if_neg]
    rintro rfl
    exact h hc
  rw [List.flatMap_congr hchar, List.flatMap_singleton']

theorem silent_backslash (hc : c.isAlpha = false) : Silent ['\\', c] := by
  intro ds
  show strange (readWords ('\\' :: c :: ds)) = _
  rw [readWords, if_neg (by simp [hc])]

theorem printed_of_silent {d : Char} (hc : c ∈ marked) (hd : d.isAlpha = false)
    (hplain : 'ε' ∉ d :: ds) (hsilent : Silent (d :: ds)) :
    Printed c ((d :: ds).flatMap epsilonChar) := by
  rw [flatMap_epsilonChar hplain]
  exact .marked (ne_epsilon_of_mem_marked hc) (isAlpha_of_mem_marked hc) hd hsilent

theorem Spelled.printed_of_mem_marked (h : Spelled c form) (hc : c ∈ marked) :
    Printed c (form.toList.flatMap epsilonChar) := by
  have hne : 'ε' ≠ c := Ne.symm (ne_epsilon_of_mem_marked hc)
  have halpha : c.isAlpha = false := isAlpha_of_mem_marked hc
  rcases h.marked_cases hc with ⟨hslash, hform | hform | hform⟩ | hform | ⟨name, hname, hform⟩
  · rw [hform]
    exact printed_of_silent hc halpha (by simp [hne]) (silent_of_not_mem (by simp [Ne.symm hslash]))
  · rw [hform]
    exact printed_of_silent hc halpha (by simp [hne]) (silent_of_not_mem (by simp [Ne.symm hslash]))
  · rw [hform]
    exact printed_of_silent hc (by decide) (by simp [hne])
      (silent_of_not_mem (by simp [Ne.symm hslash]))
  · rw [hform]
    exact printed_of_silent hc (by decide) (by simp [hne]) (silent_backslash halpha)
  · have hall : textCommands.all fun w => 'ε' ∉ w.toList := by decide
    have hplain : 'ε' ∉ name.toList := of_decide_eq_true (List.all_eq_true.mp hall name hname)
    rw [hform]
    exact printed_of_silent hc (by decide) (by simp [hplain]) (silent_command hname)

theorem Spelled.printed (h : Spelled c form) : Printed c (form.toList.flatMap epsilonChar) := by
  by_cases hc : c ∈ marked
  · exact h.printed_of_mem_marked hc
  · rw [h.unchanged hc, String.toList_ofList, List.flatMap_singleton, epsilonChar]
    split
    · exact .epsilon ‹_›
    · refine .plain ‹_› ?_
      rintro rfl
      exact hc (by decide)

/-- A letter is found at the start of the printed text just where it is in the text. -/
theorem takeWhile_printed (h : List.Forall₂ Printed cs parts) (hds : Apart ds) :
    (parts.flatten ++ ds).takeWhile Char.isAlpha = cs.takeWhile Char.isAlpha := by
  induction h with
  | nil => exact hds
  | cons hc _ ih =>
    rw [List.flatten_cons, List.append_assoc]
    cases hc with
    | epsilon he =>
      subst he
      rfl
    | plain =>
      rw [List.singleton_append, List.takeWhile_cons, List.takeWhile_cons, ih]
    | marked _ hc hd =>
      rw [List.cons_append, apart_cons hd, apart_cons hc]

/-- By induction on the characters: only an epsilon has a word, and the letters behind it are those
that are behind it in the text. -/
theorem shows_printed (h : List.Forall₂ Printed cs parts) :
    Shows (fusedWords cs) parts.flatten := by
  induction h with
  | nil => exact shows_nil
  | @cons c part cs parts hc hcs ih =>
    intro ds hds
    have hrun := takeWhile_printed hcs hds
    rw [List.flatten_cons, List.append_assoc, fusedWords]
    cases hc with
    | epsilon he =>
      rw [readWords_epsilon, hrun]
      by_cases hne : cs.takeWhile Char.isAlpha = []
      · rw [hne, if_neg (by simp)]
        exact (strange_cons_of_mem (by decide)).trans (ih ds hds)
      · rw [if_pos ⟨he, hne⟩, strange_cons_of_not_mem (fused_not_mem_commands hne), ih ds hds]
        rfl
    | plain hne hslash =>
      rw [if_neg (fun h => hne h.1), List.singleton_append, readWords_cons hslash, ih ds hds]
    | marked hne _ _ hsilent =>
      rw [if_neg (fun h => hne h.1), hsilent, ih ds hds]

theorem Spells.shows {escape : String → String} (h : Spells escape) (text : String) :
    Shows (fusedWords text.toList) ((escape text).toList.flatMap epsilonChar) := by
  obtain ⟨forms, hforms, heq⟩ := h text
  have hprinted : List.Forall₂ Printed text.toList
      (forms.map fun form => form.toList.flatMap epsilonChar) :=
    List.forall₂_map_right_iff.mpr (hforms.imp fun _ _ hc => hc.printed)
  have hflatten : (escape text).toList.flatMap epsilonChar =
      (forms.map fun form => form.toList.flatMap epsilonChar).flatten := by
    rw [heq, String.toList_join, List.flatMap_assoc, List.flatMap_def]
  rw [hflatten]
  exact shows_printed hprinted

theorem takeWhile_ne_nil_iff :
    cs.takeWhile Char.isAlpha ≠ [] ↔ ∃ c, c.isAlpha ∧ [c] <+: cs := by
  cases cs with
  | nil => simp
  | cons c cs => by_cases hc : c.isAlpha <;> simp [hc]

theorem fusedWords_eq_nil_iff :
    fusedWords cs = [] ↔ ∀ c, c.isAlpha → ¬ ['ε', c] <:+: cs := by
  induction cs with
  | nil => simp [fusedWords]
  | cons d cs ih =>
    simp only [List.infix_cons_iff, List.cons_prefix_cons, fusedWords]
    by_cases hd : d = 'ε' ∧ cs.takeWhile Char.isAlpha ≠ []
    · obtain ⟨c, hc, hprefix⟩ := takeWhile_ne_nil_iff.mp hd.2
      rw [if_pos hd]
      exact ⟨nofun, fun h => absurd (.inl ⟨hd.1.symm, hprefix⟩) (h c hc)⟩
    · rw [if_neg hd, ih]
      refine forall_congr' fun c => forall_congr' fun hc => not_congr ⟨.inr, fun h => ?_⟩
      refine h.resolve_left fun h => hd ⟨h.1.symm, takeWhile_ne_nil_iff.mpr ⟨c, hc, h.2⟩⟩

theorem flatMap_fusedWords_eq_nil_iff {names : List String} :
    names.flatMap (fusedWords ·.toList) = [] ↔ ∀ name ∈ names, EpsilonsApart name := by
  rw [List.flatMap_eq_nil_iff]
  exact forall_congr' fun name => forall_congr' fun _ => fusedWords_eq_nil_iff

/-! ### How texts are escaped -/

theorem toList_command (name : String) :
    (command name).toList = '\\' :: (name.toList ++ ['\x7b', '\x7d']) := by
  simp [command, group]

theorem command_inj {name other : String} (h : command name = command other) : name = other := by
  have hlist := congrArg String.toList h
  rw [toList_command, toList_command, List.cons.injEq, List.append_cancel_right_eq] at hlist
  exact String.toList_inj.mp hlist.2

theorem ne_command {s name : String} (h : s.length < 3 ∨ s.toList.head? ≠ some '\\') :
    s ≠ command name := by
  rintro rfl
  rw [← String.length_toList, toList_command] at h
  rcases h with h | h
  · simp only [List.length_cons, List.length_append, List.length_nil] at h
    omega
  · exact h rfl

theorem spelled_escapeChar (c : Char) (next : Option Char) : Spelled c (escapeChar c next) := by
  refine ⟨written_escapeChar c next, fun hc => ?unchanged, fun name hname => ?command_mem⟩
  case unchanged =>
    unfold escapeChar
    split
    case h_17 => rfl
    all_goals exact absurd (by decide) hc
  case command_mem =>
    unfold escapeChar at hname
    split at hname
    case h_1 =>
      split at hname <;> exact absurd hname (ne_command (by decide))
    case h_11 | h_12 | h_13 | h_14 | h_16 =>
      obtain rfl := command_inj hname
      decide
    case h_17 => exact absurd hname (ne_command (by simp))
    all_goals exact absurd hname (ne_command (by decide))

theorem spells_escape : Spells escape :=
  exists_forms spelled_escapeChar

end ChomskyChart.Latex
