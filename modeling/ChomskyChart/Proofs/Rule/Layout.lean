import ChomskyChart.Proofs.Rule.Reading

/-!
# Layouts of rules

The texts a list of rules may be written as: where blanks stand and which, where a body starts a new
line, which line endings are taken. Reading any of them gives the rules back. What is asked of the
names is only that they can be told apart from what stands around them; a left side may hold bars,
and names may begin or end with a part of an arrow.

The other way round, rules that have been read can be written.
-/

namespace ChomskyChart.Rule

open Text (allBlank isBlank Spaced IsWord Ended)
open RuleLine (arrows Arrow States Continues Lists)

/-- A rule that can be written as text. -/
structure Printable (rule : Rule) : Prop where
  bodies_ne_nil : rule.bodies ≠ []
  left_isWord : IsWord rule.left.toList
  left_arrows : arrows rule.left.toList = 0
  symbol_isWord : ∀ body ∈ rule.bodies, ∀ s ∈ body, IsWord s.toList
  symbol_bars : ∀ body ∈ rule.bodies, ∀ s ∈ body, '|' ∉ s.toList
  symbol_arrows : ∀ body ∈ rule.bodies, ∀ s ∈ body, arrows s.toList = 0

/-- Bodies in one line, with a bar between two of them and blanks around their symbols. -/
def Barred (bodies : List Body) (text : List Char) : Prop :=
  ∃ pieces, text = ['|'].intercalate pieces ∧
    List.Forall₂ (fun piece body => Spaced piece (body.map String.toList)) pieces bodies

/-- A rule in lines. Its left side, the arrow and some bodies stand in the first; each line after
that is blank or starts with a bar before further bodies. -/
inductive InLines : Rule → List (List Char) → Prop where
  | first {left : String} {bodies : List Body} {before text : List Char}
    (hl : Spaced before [left.toList]) (hne : bodies ≠ []) (hb : Barred bodies text) :
    InLines ⟨left, bodies⟩ [before ++ '-' :: '>' :: text]
  | newLine {left : String} {bodies more : List Body} {ls : List (List Char)} {p text : List Char}
    (h : InLines ⟨left, bodies⟩ ls) (hp : allBlank p = true) (hne : more ≠ [])
    (hb : Barred more text) : InLines ⟨left, bodies ++ more⟩ (ls ++ [p ++ '|' :: text])
  | blank {rule : Rule} {ls : List (List Char)} {p : List Char} (h : InLines rule ls)
    (hp : allBlank p = true) : InLines rule (ls ++ [p])

/-- Rules in lines, one after another, with blank lines before them. -/
inductive AllInLines : List Rule → List (List Char) → Prop where
  | nil : AllInLines [] []
  | blank {rules : List Rule} {ls : List (List Char)} {p : List Char} (hp : allBlank p = true)
    (h : AllInLines rules ls) : AllInLines rules (p :: ls)
  | cons {rule : Rule} {rules : List Rule} {ls more : List (List Char)} (h : InLines rule ls)
    (hs : AllInLines rules more) : AllInLines (rule :: rules) (ls ++ more)

/-- A text of rules: their lines, each with an ending. -/
def Layout (rules : List Rule) (text : String) : Prop :=
  ∃ ls, AllInLines rules ls ∧ Ended ls text.toList

variable {rule : Rule} {rules : List Rule} {ls : List (List Char)} {bodies : List Body}
  {cs xs ys p text right : List Char} {ws : List (List Char)} {c : Char}

theorem exists_mem_of_forall₂ {α β : Type} {R : α → β → Prop} {as : List α} {bs : List β} {b : β}
    (h : List.Forall₂ R as bs) (hb : b ∈ bs) : ∃ a ∈ as, R a b := by
  induction h with
  | nil => exact absurd hb List.not_mem_nil
  | @cons a _ as _ hr _ ih =>
    rcases List.mem_cons.mp hb with rfl | hb
    · exact ⟨a, List.mem_cons_self, hr⟩
    · obtain ⟨a', ha', hr'⟩ := ih hb
      exact ⟨a', List.mem_cons_of_mem a ha', hr'⟩

/-! ### Characters and arrows of a layout -/

theorem arrows_append_of_head (h : ∀ c ∈ ys.head?, isBlank c = true) :
    arrows (xs ++ ys) = arrows xs + arrows ys := by
  apply RuleLine.arrows_append
  rintro ⟨-, hd⟩
  have hblank := h '>' hd
  revert hblank
  decide

theorem arrows_blanks_append (hp : allBlank p = true) : arrows (p ++ cs) = arrows cs := by
  have hcut : ¬(p.getLast? = some '-' ∧ cs.head? = some '>') := by
    rintro ⟨hlast, -⟩
    exact RuleLine.not_mem_of_allBlank hp (by decide) (List.mem_of_getLast? hlast)
  rw [RuleLine.arrows_append hcut, RuleLine.arrows_of_allBlank hp, Nat.zero_add]

theorem arrows_bar (xs ys : List Char) : arrows (xs ++ '|' :: ys) = arrows xs + arrows ys := by
  have hcut : ¬(xs.getLast? = some '-' ∧ ('|' :: ys).head? = some '>') := by
    rintro ⟨-, hd⟩
    cases hd
  rw [RuleLine.arrows_append hcut, RuleLine.arrows_cons_of_ne]
  rintro ⟨hbar, -⟩
  cases hbar

theorem arrows_of_spaced (h : Spaced cs ws) (hw : ∀ w ∈ ws, arrows w = 0) : arrows cs = 0 := by
  induction h with
  | blanks hp => exact RuleLine.arrows_of_allBlank hp
  | @word p w q cs ws hp _ hq hsep h ih =>
    obtain ⟨hzero, hrest⟩ := List.forall_mem_cons.mp hw
    rw [List.append_assoc, List.append_assoc, arrows_blanks_append hp,
      arrows_append_of_head (Spaced.head_after hq hsep h), arrows_blanks_append hq, hzero, ih hrest]

/-- The characters of a text that are not blank are those of its words. -/
theorem exists_mem_of_spaced (h : Spaced cs ws) (hc : c ∈ cs) (hb : isBlank c = false) :
    ∃ w ∈ ws, c ∈ w := by
  induction h with
  | blanks hp => exact absurd hc (RuleLine.not_mem_of_allBlank hp hb)
  | @word p w q cs ws hp _ hq _ _ ih =>
    simp only [List.mem_append] at hc
    rcases hc with ((hc | hc) | hc) | hc
    · exact absurd hc (RuleLine.not_mem_of_allBlank hp hb)
    · exact ⟨w, List.mem_cons_self, hc⟩
    · exact absurd hc (RuleLine.not_mem_of_allBlank hq hb)
    · obtain ⟨v, hv, hcv⟩ := ih hc
      exact ⟨v, List.mem_cons_of_mem w hv, hcv⟩

namespace Barred

theorem singleton {body : Body} (h : Spaced cs (body.map String.toList)) : Barred [body] cs :=
  ⟨[cs], (List.intercalate_singleton).symm, .cons h .nil⟩

theorem cons {body : Body} (h : Spaced cs (body.map String.toList)) (hne : bodies ≠ [])
    (hb : Barred bodies text) : Barred (body :: bodies) (cs ++ '|' :: text) := by
  obtain ⟨pieces, rfl, hpieces⟩ := hb
  have hpne : pieces ≠ [] := by
    rintro rfl
    exact hne (List.forall₂_nil_left_iff.mp hpieces)
  refine ⟨cs :: pieces, ?_, .cons h hpieces⟩
  rw [List.intercalate_cons_of_ne_nil hpne, List.append_assoc, List.singleton_append]

theorem lists (h : Barred bodies text) (hne : bodies ≠ [])
    (hs : ∀ body ∈ bodies, ∀ s ∈ body, '|' ∉ s.toList) : Lists text bodies := by
  obtain ⟨pieces, rfl, hpieces⟩ := h
  have hnobar : ∀ piece ∈ pieces, '|' ∉ piece := by
    intro piece hmem hbar
    obtain ⟨body, hbody, hspaced⟩ := exists_mem_of_forall₂ hpieces.flip hmem
    obtain ⟨w, hw, hbarw⟩ := exists_mem_of_spaced hspaced hbar Text.isBlank_bar
    obtain ⟨s, hsb, rfl⟩ := List.mem_map.mp hw
    exact hs body hbody s hsb hbarw
  have hpne : pieces ≠ [] := by
    rintro rfl
    exact hne (List.forall₂_nil_left_iff.mp hpieces)
  unfold RuleLine.Lists
  rw [List.splitOn_intercalate '|' hnobar hpne]
  exact hpieces

theorem arrows_eq_zero (h : Barred bodies text)
    (hs : ∀ body ∈ bodies, ∀ s ∈ body, arrows s.toList = 0) : arrows text = 0 := by
  obtain ⟨pieces, rfl, hpieces⟩ := h
  induction hpieces with
  | nil => exact RuleLine.arrows_nil
  | @cons piece body pieces bodies hpiece hrest ih =>
    obtain ⟨hbody, hbodies⟩ := List.forall_mem_cons.mp hs
    have hzero : arrows piece = 0 := by
      refine arrows_of_spaced hpiece fun w hw => ?_
      obtain ⟨s, hsb, rfl⟩ := List.mem_map.mp hw
      exact hbody s hsb
    cases pieces with
    | nil => rwa [List.intercalate_singleton]
    | cons next pieces =>
      rw [List.intercalate_cons_cons, List.append_assoc, List.singleton_append, arrows_bar, hzero,
        ih hbodies]

end Barred

/-! ### A layout writes its rules -/

theorem InLines.written (h : InLines rule ls) (hl : arrows rule.left.toList = 0)
    (hbars : ∀ body ∈ rule.bodies, ∀ s ∈ body, '|' ∉ s.toList)
    (harrows : ∀ body ∈ rule.bodies, ∀ s ∈ body, arrows s.toList = 0) :
    Written (ls.filter (!allBlank ·)) rule := by
  induction h with
  | @first left bodies before text hspaced hne hb =>
    have hbefore : arrows before = 0 := by
      refine arrows_of_spaced hspaced fun w hw => ?_
      rw [List.mem_singleton.mp hw]
      exact hl
    have harrow := Arrow.of_arrows hbefore (hb.arrows_eq_zero harrows)
    rw [List.filter_singleton, harrow.not_allBlank]
    exact .states ⟨before, harrow, hspaced⟩ (hb.lists hne hbars)
  | @newLine left bodies more ls p text _ hp hne hb ih =>
    have hmore : ∀ body ∈ more, body ∈ bodies ++ more := fun body hbody =>
      List.mem_append_right _ hbody
    have hold : ∀ body ∈ bodies, body ∈ bodies ++ more := fun body hbody =>
      List.mem_append_left _ hbody
    have hwritten := ih hl (fun body hbody => hbars body (hold body hbody))
      (fun body hbody => harrows body (hold body hbody))
    have hzero : arrows (p ++ '|' :: text) = 0 := by
      rw [arrows_bar, RuleLine.arrows_of_allBlank hp,
        hb.arrows_eq_zero fun body hbody => harrows body (hmore body hbody)]
    have hc : Continues (p ++ '|' :: text) text := ⟨hzero, p, hp, rfl⟩
    rw [List.filter_append, List.filter_singleton, hc.not_allBlank]
    exact .continues hwritten hc (hb.lists hne fun body hbody => hbars body (hmore body hbody))
  | blank _ hp ih =>
    -- a blank line inside a rule is no line of the rule
    rw [List.filter_append, List.filter_singleton, hp]
    simpa using ih hl hbars harrows

theorem AllInLines.writes (h : AllInLines rules ls) (hp : ∀ rule ∈ rules, rule.Printable) :
    Writes ls rules := by
  induction h with
  | nil => exact writes_nil
  | blank hblank _ ih =>
    obtain ⟨groups, hflat, hwritten⟩ := ih hp
    refine ⟨groups, ?_, hwritten⟩
    rw [hflat, List.filter_cons_of_neg (by simp [hblank])]
  | @cons rule rules ls more h _ ih =>
    obtain ⟨hrule, hrules⟩ := List.forall_mem_cons.mp hp
    obtain ⟨groups, hflat, hwritten⟩ := ih hrules
    refine ⟨ls.filter (!allBlank ·) :: groups, ?_, .cons ?_ hwritten⟩
    · rw [List.flatten_cons, hflat, List.filter_append]
    · exact h.written hrule.left_arrows hrule.symbol_bars hrule.symbol_arrows

/-! ### Rules that have been read -/

theorem printable_of_lists (h : Lists right bodies) (hzero : arrows right = 0) :
    bodies ≠ [] ∧ ∀ body ∈ bodies, ∀ s ∈ body,
      IsWord s.toList ∧ '|' ∉ s.toList ∧ arrows s.toList = 0 := by
  constructor
  · rintro rfl
    exact List.splitOn_ne_nil '|' right (List.forall₂_nil_right_iff.mp h)
  · intro body hbody s hs
    obtain ⟨piece, hpiece, hspaced⟩ := exists_mem_of_forall₂ h hbody
    have hw : s.toList ∈ body.map String.toList := List.mem_map_of_mem hs
    have hpart := hspaced.infix_of_mem _ hw
    have hpieces := Text.infix_of_mem_splitOn hpiece
    refine ⟨hspaced.isWord _ hw, fun hbar => ?_, ?_⟩
    · exact Text.not_mem_of_mem_splitOn hpiece (hpart.subset hbar)
    · have hle := RuleLine.arrows_le_of_infix (hpart.trans hpieces)
      omega

theorem Written.printable (h : Written ls rule) : rule.Printable := by
  induction h with
  | @states line right left bodies hs hb =>
    obtain ⟨before, harrow, hspaced⟩ := hs
    have hw : left.toList ∈ [left.toList] := List.mem_singleton_self _
    have hzero := RuleLine.arrows_le_of_infix (hspaced.infix_of_mem _ hw)
    obtain ⟨hbefore, hright⟩ := harrow.arrows_eq_zero
    obtain ⟨hne, hsymbols⟩ := printable_of_lists hb hright
    exact {
      bodies_ne_nil := hne
      left_isWord := hspaced.isWord _ hw
      left_arrows := by rw [hbefore] at hzero; exact Nat.le_zero.mp hzero
      symbol_isWord := fun body hbody s hs => (hsymbols body hbody s hs).1
      symbol_bars := fun body hbody s hs => (hsymbols body hbody s hs).2.1
      symbol_arrows := fun body hbody s hs => (hsymbols body hbody s hs).2.2 }
  | @continues ls line right left bodies more _ hc hb ih =>
    obtain ⟨hzero, blanks, -, rfl⟩ := hc
    rw [arrows_bar] at hzero
    obtain ⟨-, hsymbols⟩ := printable_of_lists hb (by omega)
    exact {
      bodies_ne_nil := List.append_ne_nil_of_left_ne_nil ih.bodies_ne_nil _
      left_isWord := ih.left_isWord
      left_arrows := ih.left_arrows
      symbol_isWord := fun body hbody s hs => (List.mem_append.mp hbody).elim
        (fun hold => ih.symbol_isWord body hold s hs) fun hnew => (hsymbols body hnew s hs).1
      symbol_bars := fun body hbody s hs => (List.mem_append.mp hbody).elim
        (fun hold => ih.symbol_bars body hold s hs) fun hnew => (hsymbols body hnew s hs).2.1
      symbol_arrows := fun body hbody s hs => (List.mem_append.mp hbody).elim
        (fun hold => ih.symbol_arrows body hold s hs) fun hnew => (hsymbols body hnew s hs).2.2 }

theorem printable_of_readAll {text : String} (h : readAll text = .ok rules) :
    ∀ rule ∈ rules, rule.Printable := by
  obtain ⟨groups, -, hwritten⟩ := writes_of_readAll h
  intro rule hrule
  obtain ⟨group, -, hw⟩ := exists_mem_of_forall₂ hwritten hrule
  exact hw.printable

/-! ### Reading a layout -/

theorem AllInLines.readAll_eq {text : String} (h : AllInLines rules ls)
    (hp : ∀ rule ∈ rules, rule.Printable) (he : Ended ls text.toList) :
    readAll text = .ok rules := by
  have hwrites := h.writes hp
  have hread : readLines 1 [] ls = .ok rules := hwrites.readLines_eq
  unfold readAll
  rw [readLines_ended he, hread]

/-- Any layout of rules is read as these rules. -/
theorem readAll_of_layout {text : String} (hp : ∀ rule ∈ rules, rule.Printable)
    (h : Layout rules text) : readAll text = .ok rules := by
  obtain ⟨ls, hlines, hended⟩ := h
  exact hlines.readAll_eq hp hended

/-- A left side that holds a bar and ends in a hyphen, before an arrow and a symbol that starts with
the other half of one; then a line of a blank, a line that goes on and ends in two empty bodies, and
a rule at the end of the text. -/
theorem readAll_of_layout_four_lines :
    ∃ rules, rules = [⟨"|A-", [[">x"], ["b-", "c"], [], []]⟩, ⟨"S", [[]]⟩] ∧
      (∀ rule ∈ rules, rule.Printable) ∧
      Layout rules "|A-->>x\t\r\n \n  | b-  c||\nS->" ∧
      readAll "|A-->>x\t\r\n \n  | b-  c||\nS->" = .ok rules := by
  have hone : Barred [[">x"]] ">x\t".toList :=
    ⟨[">x\t".toList], rfl, .cons (Text.words_eq_iff.mp (by decide)) .nil⟩
  have hmore : Barred [["b-", "c"], [], []] " b-  c||".toList :=
    ⟨[" b-  c".toList, [], []], rfl,
      .cons (Text.words_eq_iff.mp (by decide)) (.cons (.blanks rfl) (.cons (.blanks rfl) .nil))⟩
  have hlast : Barred [[]] [] := ⟨[[]], rfl, .cons (.blanks rfl) .nil⟩
  have hleft : Spaced "|A-".toList ["|A-".toList] := Text.words_eq_iff.mp (by decide)
  have hleft' : Spaced "S".toList ["S".toList] := Text.words_eq_iff.mp (by decide)
  have hblank : allBlank " ".toList = true := by decide
  have hblank' : allBlank "  ".toList = true := by decide
  have hfirst := InLines.first hleft (by decide) hone
  have hrule := InLines.newLine (hfirst.blank hblank) hblank' (by decide) hmore
  have hsecond := InLines.first hleft' (by decide) hlast
  have hlines := AllInLines.cons hrule (AllInLines.cons hsecond .nil)
  have hended : Ended ["|A-->>x\t".toList, " ".toList, "  | b-  c||".toList, "S->".toList]
      "|A-->>x\t\r\n \n  | b-  c||\nS->".toList :=
    .returned (by decide) (.newline (by decide) (.newline (by decide) (.last (by decide))))
  have hlayout : Layout [⟨"|A-", [[">x"], ["b-", "c"], [], []]⟩, ⟨"S", [[]]⟩]
      "|A-->>x\t\r\n \n  | b-  c||\nS->" := ⟨_, hlines, hended⟩
  have hprintable : ∀ rule ∈ ([⟨"|A-", [[">x"], ["b-", "c"], [], []]⟩, ⟨"S", [[]]⟩] : List Rule),
      rule.Printable := by
    intro rule hrule
    simp only [List.mem_cons, List.not_mem_nil, or_false] at hrule
    rcases hrule with rfl | rfl <;> constructor <;> simp only [Text.isWord_iff] <;> decide
  exact ⟨_, rfl, hprintable, hlayout, readAll_of_layout hprintable hlayout⟩

end ChomskyChart.Rule
