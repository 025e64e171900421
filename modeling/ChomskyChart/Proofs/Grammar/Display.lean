import ChomskyChart.Grammar.Reader
import ChomskyChart.Proofs.Grammar.Productions
import ChomskyChart.Proofs.Rule.Layout

/-!
# Reading the display of a grammar

The display of a grammar is no rule text, since it puts commas between bodies. With bars in place of
the commas it is one, unless a comma is a part of a name that is shown. What is read then is not the
text the grammar came from: bodies that are never used are gone, rules of one left side are one, and
the start symbol has to be given again. Still the grammar shows and recognizes the same.
-/

namespace ChomskyChart

open Text (IsWord Spaced)
open Rule (Printable Barred InLines AllInLines)

/-! ### Rules that are shown -/

theorem Rule.printable_shown {rules : List Rule} (h : ∀ rule ∈ rules, rule.Printable) :
    ∀ rule ∈ shown rules, rule.Printable := by
  intro rule hrule
  obtain ⟨left, hleft, rfl⟩ := List.mem_map.mp hrule
  have hne := mem_used.mp hleft
  have hsymbol : ∀ body ∈ (uses rules left).map BodyKind.symbols, ∀ s ∈ body,
      IsWord s.toList ∧ '|' ∉ s.toList ∧ RuleLine.arrows s.toList = 0 := by
    intro body hbody s hs
    obtain ⟨k, hk, rfl⟩ := List.mem_map.mp hbody
    obtain ⟨⟨origin, horigin, -, source, hsource, rfl⟩, -⟩ := mem_uses.mp hk
    have hp := h origin horigin
    rcases Body.mem_of_mem_symbols hs with rfl | hs
    · exact ⟨Text.isWord_iff.mpr (by decide), by decide, by decide⟩
    · exact ⟨hp.symbol_isWord source hsource s hs, hp.symbol_bars source hsource s hs,
        hp.symbol_arrows source hsource s hs⟩
  obtain ⟨k, hk⟩ := List.exists_mem_of_ne_nil _ hne
  obtain ⟨⟨origin, horigin, rfl, -⟩, -⟩ := mem_uses.mp hk
  have hp := h origin horigin
  exact {
    bodies_ne_nil := mt List.map_eq_nil_iff.mp hne
    left_isWord := hp.left_isWord
    left_arrows := hp.left_arrows
    symbol_isWord := fun body hbody s hs => (hsymbol body hbody s hs).1
    symbol_bars := fun body hbody s hs => (hsymbol body hbody s hs).2.1
    symbol_arrows := fun body hbody s hs => (hsymbol body hbody s hs).2.2 }

/-- No comma in a left side or in a symbol of a body. -/
def ProductionReport.Commaless (r : ProductionReport) : Prop :=
  ∀ line ∈ r.productions, ',' ∉ line.left.toList ∧
    ∀ right ∈ line.rights, ∀ s ∈ right, ',' ∉ s.toList

namespace Grammar

def barForComma (c : Char) : List Char := if c = ',' then [' ', '|'] else [c]

/-- The text with a blank and a bar in place of every comma. -/
def barsForCommas (text : String) : String :=
  String.ofList (text.toList.flatMap barForComma)

def bodyText (body : Body) : List Char :=
  [' '].intercalate (body.map String.toList)

/-- A rule in one line of rule text. -/
def ruleText (rule : Rule) : List Char :=
  rule.left.toList ++ [' '] ++
    '-' :: '>' :: ' ' :: [' ', '|', ' '].intercalate (rule.bodies.map bodyText)

variable {rules : List Rule} {rule : Rule} {bodies : List Body} {body : Body} {cs : List Char}
  {text start : String} {g : Grammar}

/-! ### Bars in place of commas -/

theorem flatMap_barForComma (h : ',' ∉ cs) : cs.flatMap barForComma = cs := by
  have hkeep : cs.flatMap barForComma = cs.flatMap fun c => [c] := by
    refine List.flatMap_congr fun c hc => ?_
    have hne : c ≠ ',' := fun he => h (he ▸ hc)
    unfold barForComma
    rw [if_neg hne]
  rw [hkeep, List.flatMap_singleton']

theorem not_mem_bodyText {c : Char} (hc : c ∉ [' ']) (h : ∀ s ∈ body, c ∉ s.toList) :
    c ∉ bodyText body := by
  refine Text.not_mem_intercalate hc fun cs hcs => ?_
  obtain ⟨s, hs, rfl⟩ := List.mem_map.mp hcs
  exact h s hs

theorem flatMap_displayLine (hl : ',' ∉ rule.left.toList)
    (hb : ∀ body ∈ rule.bodies, ∀ s ∈ body, ',' ∉ s.toList) :
    (displayLine rule).toList.flatMap barForComma = ruleText rule := by
  have hbodies : (rule.bodies.map bodyText).map (·.flatMap barForComma) =
      rule.bodies.map bodyText := by
    rw [List.map_map]
    exact List.map_congr_left fun body hbody =>
      flatMap_barForComma (not_mem_bodyText (by decide) (hb body hbody))
  have htexts : (rule.bodies.map (" ".intercalate ·)).map String.toList =
      rule.bodies.map bodyText := by
    rw [List.map_map]
    exact List.map_congr_left fun body _ => String.toList_intercalate
  unfold displayLine ruleText
  rw [String.toList_append, String.toList_append, String.toList_intercalate, htexts,
    List.flatMap_append, List.flatMap_append, Text.flatMap_intercalate, hbodies,
    flatMap_barForComma hl, List.append_assoc, List.append_assoc]
  rfl

/-- With bars in place of commas, the display is one line for each rule. -/
theorem toList_barsForCommas (h : ∀ rule ∈ rules, ',' ∉ rule.left.toList ∧
      ∀ body ∈ rule.bodies, ∀ s ∈ body, ',' ∉ s.toList) :
    (barsForCommas ("\n".intercalate (rules.map displayLine))).toList =
      Text.unlines (rules.map ruleText) := by
  have hlines : ((rules.map displayLine).map String.toList).map (·.flatMap barForComma) =
      rules.map ruleText := by
    rw [List.map_map, List.map_map]
    exact List.map_congr_left fun rule hrule =>
      flatMap_displayLine (h rule hrule).1 (h rule hrule).2
  unfold barsForCommas Text.unlines
  rw [String.toList_ofList, String.toList_intercalate, Text.flatMap_intercalate, hlines]
  rfl

/-! ### One line for each rule -/

theorem spaced_bodyText (h : ∀ s ∈ body, IsWord s.toList) :
    Spaced (bodyText body) (body.map String.toList) := by
  refine .intercalate fun w hw => ?_
  obtain ⟨s, hs, rfl⟩ := List.mem_map.mp hw
  exact h s hs

theorem barred_bodyTexts (hne : bodies ≠ []) (h : ∀ body ∈ bodies, ∀ s ∈ body, IsWord s.toList) :
    Barred bodies (' ' :: [' ', '|', ' '].intercalate (bodies.map bodyText)) := by
  induction bodies with
  | nil => exact absurd rfl hne
  | cons body bodies ih =>
    obtain ⟨hbody, hbodies⟩ := List.forall_mem_cons.mp h
    have hspaced : Spaced (' ' :: bodyText body) (body.map String.toList) :=
      (spaced_bodyText hbody).prepend (p := [' ']) (by decide)
    rw [List.map_cons]
    by_cases hnil : bodies = []
    · rw [hnil, List.map_nil, List.intercalate_singleton]
      exact .singleton hspaced
    · -- of the three characters between two bodies, the bar separates
      have hcons := Barred.cons (hspaced.append_blanks (q := [' ']) (by decide)) hnil
        (ih hnil hbodies)
      rw [List.intercalate_cons_of_ne_nil (mt List.map_eq_nil_iff.mp hnil)]
      simpa only [List.cons_append, List.append_assoc, List.nil_append] using hcons

theorem inLines_ruleText (h : rule.Printable) : InLines rule [ruleText rule] := by
  have hleft : Spaced (rule.left.toList ++ [' ']) [rule.left.toList] :=
    (Spaced.of_isWord h.left_isWord).append_blanks (by decide)
  exact .first hleft h.bodies_ne_nil (barred_bodyTexts h.bodies_ne_nil h.symbol_isWord)

theorem allInLines_ruleTexts (h : ∀ rule ∈ rules, rule.Printable) :
    AllInLines rules (rules.map ruleText) := by
  induction rules with
  | nil => exact .nil
  | cons rule rules ih =>
    obtain ⟨hrule, hrules⟩ := List.forall_mem_cons.mp h
    exact .cons (inLines_ruleText hrule) (ih hrules)

theorem newline_not_mem_ruleText (h : rule.Printable) : '\n' ∉ ruleText rule := by
  have hbodies : '\n' ∉ [' ', '|', ' '].intercalate (rule.bodies.map bodyText) := by
    refine Text.not_mem_intercalate (by decide) fun cs hcs => ?_
    obtain ⟨body, hbody, rfl⟩ := List.mem_map.mp hcs
    exact not_mem_bodyText (by decide) fun s hs =>
      (h.symbol_isWord body hbody s hs).not_mem Text.isBlank_newline
  unfold ruleText
  simp only [List.mem_append, List.mem_cons, List.not_mem_nil, or_false, not_or]
  exact ⟨⟨h.left_isWord.not_mem Text.isBlank_newline, by decide⟩, by decide, by decide, by decide,
    hbodies⟩

/-- Rules in one line each are read as these rules. -/
theorem readAll_of_ruleTexts (h : ∀ rule ∈ rules, rule.Printable)
    (ht : text.toList = Text.unlines (rules.map ruleText)) : Rule.readAll text = .ok rules := by
  refine (allInLines_ruleTexts h).readAll_eq h ?_
  rw [ht]
  refine Text.ended_unlines fun line hline => ?_
  obtain ⟨rule, hrule, rfl⟩ := List.mem_map.mp hline
  exact newline_not_mem_ruleText (h rule hrule)

theorem read_of_readAll {first : Rule} (h : Rule.readAll text = .ok (first :: rules)) :
    read text = .ok (build (first :: rules) first.left) := by
  unfold read
  rw [h]
  rfl

/-- A grammar that was read from text, displayed, and read again with bars in place of commas and
with its start symbol, shows and recognizes what it did, if no comma is shown in a name. -/
theorem readWithStart_barsForCommas
    (h : read text = .ok g ∨ ∃ start, readWithStart text start = .ok g) :
    ∃ shown report, g.display = .ok shown ∧ g.productionReport = .ok report ∧
      g.startName = .ok report.start ∧
      (report.Commaless → ∃ g', readWithStart (barsForCommas shown) report.start = .ok g' ∧
        g'.productionReport = .ok report ∧ ∀ tokens, g'.recognize tokens = g.recognize tokens) := by
  have hfrom : ∃ start?, readFrom text start? = .ok g := by
    rcases h with h | ⟨start, h⟩
    · exact ⟨none, h⟩
    · exact ⟨some start, h⟩
  obtain ⟨start?, hfrom⟩ := hfrom
  obtain ⟨rules, start, hread, rfl⟩ := exists_build_of_readFrom hfrom
  have hprintable := Rule.printable_shown (Rule.printable_of_readAll hread)
  refine ⟨_, _, display_build, productionReport_build, startName_build, fun hc => ?_⟩
  have htext := toList_barsForCommas fun rule hrule => hc _ (List.mem_map_of_mem hrule)
  refine ⟨build (Rule.shown rules) start, ?_, ?_, recognize_shown rules start⟩
  · unfold readWithStart
    rw [readAll_of_ruleTexts hprintable htext]
    rfl
  · rw [productionReport_shown, productionReport_build]

/-- Bodies that are too long or repeated, a left side in two places, the empty body in other
spellings, and a left side with a bar. The comma of the long body does not matter. -/
theorem readWithStart_barsForCommas_four_rules :
    ∃ g g', read "S -> A B | a | x , y z\nA -> ϵ | a\nB -> b | b\n|C -> S S\nS -> a |" = .ok g ∧
      g.display = .ok "S -> A B, a, ε\nA -> ε, a\nB -> b\n|C -> S S" ∧
      readWithStart "S -> A B | a | ε\nA -> ε | a\nB -> b\n|C -> S S" "S" = .ok g' ∧
      g'.productionReport = g.productionReport ∧
      ∀ tokens, g'.recognize tokens = g.recognize tokens := by
  have hrules : Rule.readAll "S -> A B | a | x , y z\nA -> ϵ | a\nB -> b | b\n|C -> S S\nS -> a |" =
      .ok [⟨"S", [["A", "B"], ["a"], ["x", ",", "y", "z"]]⟩, ⟨"A", [["ϵ"], ["a"]]⟩,
        ⟨"B", [["b"], ["b"]]⟩, ⟨"|C", [["S", "S"]]⟩, ⟨"S", [["a"], []]⟩] := by
    decide +kernel
  have hread := read_of_readAll hrules
  obtain ⟨shown, report, hdisplay, hreport, -, hback⟩ := readWithStart_barsForCommas (.inl hread)
  obtain rfl : shown = "S -> A B, a, ε\nA -> ε, a\nB -> b\n|C -> S S" :=
    Except.ok.inj (hdisplay.symm.trans (by decide +kernel))
  obtain rfl : report = ⟨"S", [⟨"S", [["A", "B"], ["a"], ["ε"]]⟩, ⟨"A", [["ε"], ["a"]]⟩,
      ⟨"B", [["b"]]⟩, ⟨"|C", [["S", "S"]]⟩]⟩ :=
    Except.ok.inj (hreport.symm.trans (by decide +kernel))
  have hc : ProductionReport.Commaless ⟨"S", [⟨"S", [["A", "B"], ["a"], ["ε"]]⟩,
      ⟨"A", [["ε"], ["a"]]⟩, ⟨"B", [["b"]]⟩, ⟨"|C", [["S", "S"]]⟩]⟩ := by
    unfold ProductionReport.Commaless
    decide
  obtain ⟨g', hagain, hsame, hrecognize⟩ := hback hc
  exact ⟨_, g', hread, hdisplay, hagain, hsame.trans hreport.symm, hrecognize⟩

end Grammar

end ChomskyChart
