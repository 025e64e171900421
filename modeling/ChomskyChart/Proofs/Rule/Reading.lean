import ChomskyChart.Proofs.Rule.Line
import ChomskyChart.Rule.Reader

/-!
# Reading rule text line by line

Which texts can be read, which rules they write, and where and why reading stops otherwise. None of
this is said by following a reader. A text can be read if no line offends after the lines before
it; each rule then has lines of its own, one that states it and those that go on with it. The first
line that offends is reported, by its number and its flaw.

Nothing is said here of what is done with the rules.
-/

namespace ChomskyChart.Rule

open Text (allBlank Lined Ended)
open RuleLine (States Continues Lists Flawed)

/-- A rule and its lines: one that states it, and then any that go on with it. -/
inductive Written : List (List Char) → Rule → Prop where
  | states {line right : List Char} {left : String} {bodies : List Body}
    (h : States line left right) (hb : Lists right bodies) : Written [line] ⟨left, bodies⟩
  | continues {ls : List (List Char)} {line right : List Char} {left : String}
    {bodies more : List Body} (h : Written ls ⟨left, bodies⟩) (hc : Continues line right)
    (hb : Lists right more) : Written (ls ++ [line]) ⟨left, bodies ++ more⟩

/-- Lines that write rules, one after another. Blank lines may stand anywhere. -/
def Writes (ls : List (List Char)) (rules : List Rule) : Prop :=
  ∃ groups, groups.flatten = ls.filter (!allBlank ·) ∧ List.Forall₂ Written groups rules

/-- Lines that can be read: each is blank or of a kind, and the first that is not blank does not go
on with a rule. -/
structure WellFormed (ls : List (List Char)) : Prop where
  kinds : ∀ line ∈ ls, allBlank line = false →
    (∃ left right, States line left right) ∨ ∃ right, Continues line right
  first : ∀ line, ls.find? (!allBlank ·) = some line → ∀ right, ¬Continues line right

/-- A line that cannot be read after the lines before it. -/
structure Offends (before : List (List Char)) (line : List Char) : Prop where
  not_blank : allBlank line = false
  not_states : ∀ left right, ¬States line left right
  alone : ∀ right, Continues line right → ∀ l ∈ before, allBlank l = true

variable {ls before : List (List Char)} {line right cs : List Char} {left : String}
  {rules more : List Rule} {bodies : List Body}

/-! ### Lines that can be read -/

theorem wellFormed_nil : WellFormed [] where
  kinds line hline := absurd hline List.not_mem_nil
  first line hline := by cases hline

theorem find?_eq_none_iff_allBlank :
    ls.find? (!allBlank ·) = none ↔ ∀ l ∈ ls, allBlank l = true := by
  simp

/-- Lines can be read together if no line offends, and the first one that does is decisive. -/
theorem wellFormed_concat_iff : WellFormed (ls ++ [line]) ↔ WellFormed ls ∧ ¬Offends ls line := by
  have hmem : line ∈ ls ++ [line] := List.mem_append_right ls (List.mem_singleton_self line)
  constructor
  · intro h
    refine ⟨⟨fun l hl => h.kinds l (List.mem_append_left _ hl), fun l hl => ?_⟩, fun ho => ?_⟩
    · refine h.first l ?_
      rw [List.find?_append, hl]
      rfl
    · rcases h.kinds line hmem ho.not_blank with ⟨left, right, hs⟩ | ⟨right, hc⟩
      · exact ho.not_states left right hs
      · refine h.first line ?_ right hc
        rw [List.find?_append, find?_eq_none_iff_allBlank.mpr (ho.alone right hc)]
        simp [ho.not_blank]
  · rintro ⟨h, ho⟩
    refine ⟨fun l hl hb => ?_, fun l hl right hc => ?_⟩
    · rcases List.mem_append.mp hl with hl | hl
      · exact h.kinds l hl hb
      · obtain rfl := List.mem_singleton.mp hl
        by_contra hkind
        have hns : ∀ left right, ¬States l left right := fun left right hs =>
          hkind (.inl ⟨left, right, hs⟩)
        have hnc : ∀ right, ¬Continues l right := fun right hc => hkind (.inr ⟨right, hc⟩)
        exact ho ⟨hb, hns, fun right hc => absurd hc (hnc right)⟩
    · rw [List.find?_append] at hl
      cases hf : ls.find? (!allBlank ·) with
      | some first =>
        rw [hf] at hl
        obtain rfl := Option.some.inj hl
        exact h.first first hf right hc
      | none =>
        have hall := find?_eq_none_iff_allBlank.mp hf
        rw [hf, Option.none_or] at hl
        obtain rfl := List.mem_singleton.mp (List.mem_of_find?_eq_some hl)
        exact ho ⟨hc.not_allBlank, hc.not_states, fun _ _ => hall⟩

theorem exists_first_offending (h : ¬WellFormed ls) :
    ∃ before line after, ls = before ++ line :: after ∧ WellFormed before ∧ Offends before line := by
  induction ls using List.reverseRecOn with
  | nil => exact absurd wellFormed_nil h
  | append_singleton ls line ih =>
    by_cases hls : WellFormed ls
    · refine ⟨ls, line, [], rfl, hls, ?_⟩
      by_contra ho
      exact h (wellFormed_concat_iff.mpr ⟨hls, ho⟩)
    · obtain ⟨before, first, after, rfl, hb, ho⟩ := ih hls
      exact ⟨before, first, after ++ [line], by rw [List.append_assoc, List.cons_append], hb, ho⟩

/-! ### The rules that lines write -/

theorem Written.ne_nil {rule : Rule} (h : Written ls rule) : ls ≠ [] := by
  cases h with
  | states => exact List.cons_ne_nil _ _
  | continues => exact List.append_ne_nil_of_right_ne_nil _ (List.cons_ne_nil _ _)

theorem writes_nil : Writes [] [] := ⟨[], rfl, .nil⟩

namespace Writes

theorem blank (h : Writes ls rules) (hb : allBlank line = true) : Writes (ls ++ [line]) rules := by
  obtain ⟨groups, hflat, hwritten⟩ := h
  refine ⟨groups, ?_, hwritten⟩
  rw [hflat, List.filter_append, List.filter_singleton, hb]
  exact (List.append_nil _).symm

theorem states (h : Writes ls rules) (hs : States line left right) (hb : Lists right bodies) :
    Writes (ls ++ [line]) (rules ++ [⟨left, bodies⟩]) := by
  obtain ⟨groups, hflat, hwritten⟩ := h
  have hnb : allBlank line = false := by
    obtain ⟨_, harrow, -⟩ := hs
    exact harrow.not_allBlank
  refine ⟨groups ++ [[line]], ?_, List.rel_append hwritten (.cons (.states hs hb) .nil)⟩
  rw [List.flatten_append, hflat, List.filter_append, List.filter_singleton, hnb]
  rfl

/-- Lines that are not all blank write a last rule, and a line can go on with it. -/
theorem continues (h : Writes ls rules) (hne : ∃ l ∈ ls, allBlank l = false)
    (hc : Continues line right) (hb : Lists right bodies) :
    ∃ rs rule, rules = rs ++ [rule] ∧
      Writes (ls ++ [line]) (rs ++ [⟨rule.left, rule.bodies ++ bodies⟩]) := by
  obtain ⟨groups, hflat, hwritten⟩ := h
  obtain ⟨l, hl, hlb⟩ := hne
  have hrules : rules ≠ [] := by
    rintro rfl
    obtain rfl := List.forall₂_nil_right_iff.mp hwritten
    have hmem : l ∈ ls.filter (!allBlank ·) := List.mem_filter.mpr ⟨hl, by rw [hlb]; rfl⟩
    rw [← hflat] at hmem
    exact List.not_mem_nil hmem
  obtain ⟨rs, rule, rfl⟩ := (List.eq_nil_or_concat' rules).resolve_left hrules
  have hrs := List.forall₂_take_append groups rs [rule] hwritten
  have hlast := List.forall₂_drop_append groups rs [rule] hwritten
  obtain ⟨g, rest, hg, hrest, hdrop⟩ := List.forall₂_cons_right_iff.mp hlast
  obtain rfl := List.forall₂_nil_right_iff.mp hrest
  have hgroups : groups.take rs.length ++ [g] = groups := by
    rw [← hdrop, List.take_append_drop]
  refine ⟨rs, rule, rfl, groups.take rs.length ++ [g ++ [line]], ?_, ?_⟩
  · have hflat' := hflat
    rw [← hgroups, List.flatten_append] at hflat'
    rw [List.filter_append, ← hflat', List.filter_singleton, hc.not_allBlank, List.flatten_append]
    simp
  · exact List.rel_append hrs (.cons (.continues hg hc hb) .nil)

end Writes

theorem exists_writes (h : WellFormed ls) : ∃ rules, Writes ls rules := by
  induction ls using List.reverseRecOn with
  | nil => exact ⟨[], writes_nil⟩
  | append_singleton ls line ih =>
    obtain ⟨hls, ho⟩ := wellFormed_concat_iff.mp h
    obtain ⟨rules, hw⟩ := ih hls
    cases hb : allBlank line with
    | true => exact ⟨rules, hw.blank hb⟩
    | false =>
      have hmem : line ∈ ls ++ [line] := List.mem_append_right ls (List.mem_singleton_self line)
      rcases h.kinds line hmem hb with ⟨left, right, hs⟩ | ⟨right, hc⟩
      · exact ⟨_, hw.states hs (RuleLine.lists_bodies right)⟩
      · have hne : ∃ l ∈ ls, allBlank l = false := by
          by_contra hall
          refine ho ⟨hb, hc.not_states, fun _ _ l hl => ?_⟩
          by_contra hl'
          exact hall ⟨l, hl, Bool.eq_false_iff.mpr hl'⟩
        obtain ⟨rs, rule, -, hw'⟩ := hw.continues hne hc (RuleLine.lists_bodies right)
        exact ⟨_, hw'⟩

/-! ### One line after some rules -/

theorem extendLast_concat (more : List Body) (rules : List Rule) (rule : Rule) :
    extendLast more (rules ++ [rule]) = .ok (rules ++ [⟨rule.left, rule.bodies ++ more⟩]) := by
  induction rules with
  | nil => rfl
  | cons first rules ih =>
    obtain ⟨next, rest, hcons⟩ := List.exists_cons_of_ne_nil
      (List.append_ne_nil_of_right_ne_nil rules (List.cons_ne_nil rule []))
    rw [hcons] at ih
    rw [List.cons_append, hcons, extendLast, ih]
    rfl

theorem addLine_of_allBlank (hb : allBlank line = true) : addLine rules line = .ok rules := by
  unfold addLine
  rw [RuleLine.ofChars_of_allBlank hb]
  rfl

theorem addLine_of_states (hs : States line left right) (hb : Lists right bodies) :
    addLine rules line = .ok (rules ++ [⟨left, bodies⟩]) := by
  unfold addLine
  rw [RuleLine.ofChars_of_states hs, RuleLine.bodies_eq_iff.mpr hb]
  rfl

theorem addLine_of_continues (hc : Continues line right) (hb : Lists right bodies) :
    addLine rules line = extendLast bodies rules := by
  unfold addLine
  rw [RuleLine.ofChars_of_continues hc, RuleLine.bodies_eq_iff.mpr hb]
  rfl

theorem addLine_congr {line' : List Char} (h : RuleLine.ofChars line = RuleLine.ofChars line') :
    addLine rules line = addLine rules line' := by
  unfold addLine
  rw [h]

/-- A line that offends is not read, whatever its flaw is. -/
theorem addLine_of_offends (hw : Writes ls rules) (ho : Offends ls line) :
    ∃ flaw, Flawed line flaw ∧ addLine rules line = .error flaw := by
  by_cases hc : ∃ right, Continues line right
  · -- such a line offends only because there is no rule above it
    obtain ⟨right, hc⟩ := hc
    obtain ⟨groups, hflat, hwritten⟩ := hw
    have hnone : ls.filter (!allBlank ·) = [] := by
      rw [List.filter_eq_nil_iff]
      intro l hl
      rw [ho.alone right hc l hl]
      exact Bool.false_ne_true
    have hrules : rules = [] := by
      cases hwritten with
      | nil => rfl
      | cons hg _ =>
        rw [hnone, List.flatten_cons, List.append_eq_nil_iff] at hflat
        exact absurd hflat.1 hg.ne_nil
    refine ⟨.missingLeftSide, .missingLeftSide hc.1, ?_⟩
    rw [addLine_of_continues hc (RuleLine.lists_bodies right), hrules]
    rfl
  · obtain ⟨flaw, hflaw, herror⟩ := RuleLine.ofChars_of_flawed ho.not_blank ho.not_states
      fun right h => hc ⟨right, h⟩
    refine ⟨flaw, hflaw, ?_⟩
    unfold addLine
    rw [herror]
    rfl

/-! ### Runs over lines -/

theorem readLines_append (number : Nat) (rules : List Rule) (xs ys : List (List Char)) :
    readLines number rules (xs ++ ys) =
      readLines number rules xs >>= fun rules => readLines (number + xs.length) rules ys := by
  induction xs generalizing number rules with
  | nil => rfl
  | cons line xs ih =>
    rw [List.cons_append, readLines, readLines]
    cases addLine rules line with
    | error flaw => rfl
    | ok rules' =>
      simp only
      rw [ih, List.length_cons, Nat.add_assoc, Nat.add_comm 1]

/-- As long as no line fails, reading is the loop over the lines. -/
theorem readLines_of_foldlM {number : Nat} (h : ls.foldlM addLine rules = .ok more) :
    readLines number rules ls = .ok more := by
  induction ls generalizing number rules with
  | nil => exact congrArg Except.ok (Except.ok.inj h)
  | cons line ls ih =>
    rw [List.foldlM_cons] at h
    rw [readLines]
    cases hadd : addLine rules line with
    | error flaw =>
      rw [hadd] at h
      cases h
    | ok rules' =>
      rw [hadd] at h
      exact ih h

theorem foldlM_addLine_filter (rules : List Rule) (ls : List (List Char)) :
    ls.foldlM addLine rules = (ls.filter (!allBlank ·)).foldlM addLine rules := by
  induction ls generalizing rules with
  | nil => rfl
  | cons line ls ih =>
    cases hb : allBlank line with
    | true =>
      rw [List.filter_cons_of_neg (by simp [hb]), List.foldlM_cons, addLine_of_allBlank hb]
      exact ih rules
    | false =>
      rw [List.filter_cons_of_pos (by simp [hb]), List.foldlM_cons, List.foldlM_cons]
      congr 1
      funext rules'
      exact ih rules'

theorem foldlM_addLine_of_written {rule : Rule} (h : Written ls rule) (rules : List Rule) :
    ls.foldlM addLine rules = .ok (rules ++ [rule]) := by
  induction h with
  | states hs hb =>
    rw [List.foldlM_cons, addLine_of_states hs hb]
    rfl
  | continues _ hc hb ih =>
    rw [List.foldlM_append, ih]
    change List.foldlM addLine _ [_] = _
    rw [List.foldlM_cons, addLine_of_continues hc hb, extendLast_concat]
    rfl

theorem foldlM_addLine_flatten {groups : List (List (List Char))}
    (h : List.Forall₂ Written groups more) (rules : List Rule) :
    groups.flatten.foldlM addLine rules = .ok (rules ++ more) := by
  induction h generalizing rules with
  | nil =>
    rw [List.append_nil]
    rfl
  | @cons group rule groups more hg _ ih =>
    rw [List.flatten_cons, List.foldlM_append, foldlM_addLine_of_written hg]
    change List.foldlM addLine (rules ++ [rule]) groups.flatten = _
    rw [ih, List.append_assoc, List.singleton_append]

/-- Reading finds the rules that lines write. -/
theorem Writes.readLines_eq {number : Nat} (h : Writes ls rules) :
    readLines number [] ls = .ok rules := by
  obtain ⟨groups, hflat, hwritten⟩ := h
  apply readLines_of_foldlM
  rw [foldlM_addLine_filter, ← hflat, foldlM_addLine_flatten hwritten, List.nil_append]

/-- Reading stops at the first line that offends. -/
theorem readLines_of_offends (number : Nat) (hw : Writes before rules) (ho : Offends before line)
    (after : List (List Char)) :
    ∃ flaw, Flawed line flaw ∧ readLines number [] (before ++ line :: after) =
      .error (.badLine (number + before.length) flaw) := by
  obtain ⟨flaw, hflaw, herror⟩ := addLine_of_offends hw ho
  refine ⟨flaw, hflaw, ?_⟩
  rw [readLines_append, hw.readLines_eq]
  change readLines _ rules (line :: after) = _
  rw [readLines, herror]

/-- However lines are ended, they are read alike. -/
theorem readLines_ended {number : Nat} (h : Ended ls cs) :
    readLines number rules (Text.lines cs) = readLines number rules ls := by
  induction h generalizing number rules with
  | nil => rfl
  | @last l hl =>
    by_cases hne : l = []
    · subst hne
      rw [Text.lines_nil, readLines, readLines, addLine_of_allBlank rfl]
      rfl
    · rw [(Lined.last hne hl).lines_eq]
  | @newline l cs ls hl _ ih =>
    rw [(Lined.cons hl (Text.lined_lines cs)).lines_eq, readLines, readLines,
      addLine_congr (RuleLine.ofChars_dropReturn l)]
    cases addLine rules l with
    | error flaw => rfl
    | ok rules' => exact ih
  | @returned l cs ls hl _ ih =>
    -- here the return of the ending is cut off, and the line comes out as it was written
    rw [(Lined.returned hl (Text.lined_lines cs)).lines_eq, readLines, readLines]
    cases addLine rules l with
    | error flaw => rfl
    | ok rules' => exact ih

/-! ### Texts -/

theorem readAll_eq_ok_iff (text : String) :
    (∃ rules, readAll text = .ok rules) ↔ WellFormed (Text.lines text.toList) := by
  constructor
  · rintro ⟨rules, h⟩
    by_contra hnot
    obtain ⟨before, line, after, hls, hbefore, ho⟩ := exists_first_offending hnot
    obtain ⟨_, hw⟩ := exists_writes hbefore
    obtain ⟨flaw, -, herror⟩ := readLines_of_offends 1 hw ho after
    unfold readAll at h
    rw [hls, herror] at h
    cases h
  · intro h
    obtain ⟨rules, hw⟩ := exists_writes h
    exact ⟨rules, hw.readLines_eq⟩

theorem writes_of_readAll {text : String} (h : readAll text = .ok rules) :
    Writes (Text.lines text.toList) rules := by
  obtain ⟨rules', hw⟩ := exists_writes ((readAll_eq_ok_iff text).mp ⟨rules, h⟩)
  have hread : readAll text = .ok rules' := hw.readLines_eq
  obtain rfl := Except.ok.inj (h.symm.trans hread)
  exact hw

/-- A text of rules is read if no line of it offends, and then as the rules that its lines write.
Otherwise the first line that offends is reported, with its number and its flaw. -/
theorem readAll_by_lines (text : String) :
    ∃ ls, Lined text.toList ls ∧
      ((∃ rules, readAll text = .ok rules) ↔ WellFormed ls) ∧
      (∀ rules, readAll text = .ok rules → Writes ls rules) ∧
      (¬WellFormed ls → ∃ before line after flaw, ls = before ++ line :: after ∧
        WellFormed before ∧ Offends before line ∧ Flawed line flaw ∧
        readAll text = .error (.badLine (before.length + 1) flaw)) := by
  refine ⟨Text.lines text.toList, Text.lined_lines _, readAll_eq_ok_iff text,
    fun rules h => writes_of_readAll h, fun hnot => ?_⟩
  obtain ⟨before, line, after, hls, hbefore, ho⟩ := exists_first_offending hnot
  obtain ⟨_, hw⟩ := exists_writes hbefore
  obtain ⟨flaw, hflaw, herror⟩ := readLines_of_offends 1 hw ho after
  refine ⟨before, line, after, flaw, hls, hbefore, ho, hflaw, ?_⟩
  unfold readAll
  rw [hls, herror, Nat.add_comm]

/-- A text with both line endings, an empty body and a line that goes on, and a text whose third
line has two arrows. -/
theorem readAll_by_lines_two_texts :
    (∃ ls, Lined "S -> a |\r\n\n | B C".toList ls ∧ WellFormed ls ∧
      Writes ls [⟨"S", [["a"], [], ["B", "C"]]⟩]) ∧
    ∃ before line after, Lined "\nS -> a\n-> a -> b".toList (before ++ line :: after) ∧
      before.length = 2 ∧ Offends before line ∧ Flawed line .tooManyArrows := by
  constructor
  · obtain ⟨ls, hl, hok, hrules, -⟩ := readAll_by_lines "S -> a |\r\n\n | B C"
    have hread : readAll "S -> a |\r\n\n | B C" = .ok [⟨"S", [["a"], [], ["B", "C"]]⟩] := by
      decide +kernel
    exact ⟨ls, hl, hok.mp ⟨_, hread⟩, hrules _ hread⟩
  · obtain ⟨ls, hl, hok, -, hstop⟩ := readAll_by_lines "\nS -> a\n-> a -> b"
    have hread : readAll "\nS -> a\n-> a -> b" = .error (.badLine 3 .tooManyArrows) := by
      decide +kernel
    have hnot : ¬WellFormed ls := by
      intro hwf
      obtain ⟨rules, h⟩ := hok.mpr hwf
      rw [hread] at h
      cases h
    obtain ⟨before, line, after, flaw, rfl, -, ho, hflaw, herror⟩ := hstop hnot
    obtain ⟨hnumber, rfl⟩ := RuleError.badLine.inj (Except.error.inj (hread.symm.trans herror))
    exact ⟨before, line, after, hl, by omega, ho, hflaw⟩

end ChomskyChart.Rule
