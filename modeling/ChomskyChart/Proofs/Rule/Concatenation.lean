import ChomskyChart.Proofs.Rule.Reading

/-!
# Rule texts one after the other

A text and, after a newline, another text. The lines of the first are read as they are read alone.
If none of them fails, the lines of the second are read as they are read alone too, but their rules
come behind the rules of the first, and their numbers count from its end.

There is one exception. Bodies without a rule above them are a flaw of the second text, and with the
first text in front there may be a rule above them. So of a missing left side nothing is said,
unless the first text has no rules.
-/

namespace ChomskyChart

/-- The error of a line that stands a number of lines further down. -/
def RuleError.further (count : Nat) : RuleError → RuleError
  | .badLine number flaw => .badLine (count + number) flaw
  | .noStartSymbol => .noStartSymbol

theorem Text.length_splitOn (sep : Char) (cs : List Char) :
    (cs.splitOn sep).length = cs.count sep + 1 := by
  induction cs with
  | nil => rfl
  | cons c cs ih =>
    rw [List.splitOn_cons_eq_if_modifyHead, List.count_cons]
    by_cases hc : (c == sep) = true
    · rw [if_pos hc, if_pos hc, List.length_cons, ih]
    · rw [if_neg hc, if_neg hc, List.length_modifyHead, ih]

namespace Rule

variable {rules front : List Rule} {line : List Char} {ls : List (List Char)} {number : Nat}

/-! ### More rules in front -/

/-- Rules in front of the others stay as they are, unless the line looks for a rule above it and
there are no others. -/
theorem addLine_append (h : front = [] ∨ addLine rules line ≠ .error .missingLeftSide) :
    addLine (front ++ rules) line = (addLine rules line).map (front ++ ·) := by
  unfold addLine at h ⊢
  cases hline : RuleLine.ofChars line with
  | error flaw => rfl
  | ok kind =>
    cases kind with
    | blank => rfl
    | rule left bodies => exact congrArg Except.ok (List.append_assoc front rules _)
    | alternatives bodies =>
      rw [hline] at h
      change extendLast bodies (front ++ rules) = (extendLast bodies rules).map (front ++ ·)
      rcases List.eq_nil_or_concat' rules with rfl | ⟨init, last, rfl⟩
      · obtain rfl : front = [] := h.resolve_right fun hne => hne rfl
        rfl
      · rw [← List.append_assoc, extendLast_concat, extendLast_concat, List.append_assoc]
        rfl

/-- Lines further down and behind more rules are read as they are read alone. -/
theorem readLines_behind (count : Nat)
    (h : front = [] ∨ ∀ l, readLines number rules ls ≠ .error (.badLine l .missingLeftSide)) :
    readLines (count + number) (front ++ rules) ls =
      ((readLines number rules ls).map (front ++ ·)).mapError (RuleError.further count) := by
  induction ls generalizing number rules with
  | nil => rfl
  | cons line ls ih =>
    have hline : front = [] ∨ addLine rules line ≠ .error .missingLeftSide := by
      refine h.imp_right fun hne herror => hne number ?_
      rw [readLines, herror]
    rw [readLines, readLines, addLine_append hline]
    cases hadd : addLine rules line with
    | error flaw => rfl
    | ok rules' =>
      simp only [readLines, hadd] at h
      exact ih h

/-! ### Texts cut at their newlines -/

/-- Neither returns nor an empty last piece change what is read. -/
theorem readAll_eq_splitOn (text : String) :
    readAll text = readLines 1 [] (text.toList.splitOn '\n') := by
  have hpieces : Text.Ended (text.toList.splitOn '\n') (Text.unlines (text.toList.splitOn '\n')) :=
    Text.ended_unlines fun _ hl => Text.not_mem_of_mem_splitOn hl
  have htext : Text.unlines (text.toList.splitOn '\n') = text.toList :=
    List.intercalate_splitOn '\n'
  rw [htext] at hpieces
  exact readLines_ended hpieces

theorem readAll_append (p s : String) :
    readAll (p ++ "\n" ++ s) = readAll p >>= fun rules =>
      readLines (1 + p.toList.count '\n' + 1) rules (s.toList.splitOn '\n') := by
  have htext : (p ++ "\n" ++ s).toList = p.toList ++ '\n' :: s.toList := by
    rw [String.toList_append, String.toList_append, List.append_assoc]
    rfl
  rw [readAll_eq_splitOn, readAll_eq_splitOn p, htext, List.splitOn_append_cons_self,
    readLines_append, Text.length_splitOn, Nat.add_assoc]

/-- Of two texts, one after the other, the first one is read as it is alone. If it can be read, the
second one adds its rules behind those of the first, or it fails as it does alone, as many lines
further down as the first one has. -/
theorem readAll_text_behind_text (p s : String) :
    (∀ e, readAll p = .error e → readAll (p ++ "\n" ++ s) = .error e) ∧
    ∀ rules, readAll p = .ok rules →
      (∀ more, readAll s = .ok more → readAll (p ++ "\n" ++ s) = .ok (rules ++ more)) ∧
      ∀ l flaw, flaw ≠ .missingLeftSide ∨ rules = [] →
        readAll s = .error (.badLine l flaw) →
        readAll (p ++ "\n" ++ s) = .error (.badLine (1 + p.toList.count '\n' + l) flaw) := by
  have happend := readAll_append p s
  have hs := readAll_eq_splitOn s
  refine ⟨fun e hp => ?_, fun rules hp => ?_⟩
  · rw [happend, hp]
    rfl
  · rw [hp] at happend
    change readAll (p ++ "\n" ++ s) = readLines _ rules _ at happend
    rw [← List.append_nil rules] at happend
    refine ⟨fun more hmore => ?_, fun l flaw hflaw herror => ?_⟩
    · rw [hmore] at hs
      rw [happend, readLines_behind _ (.inr fun l => by rw [← hs]; simp), ← hs]
      rfl
    · rw [herror] at hs
      have hfront : rules = [] ∨ ∀ l', readLines 1 [] (s.toList.splitOn '\n') ≠
          .error (.badLine l' .missingLeftSide) := by
        refine hflaw.symm.imp_right fun hne l' he => hne ?_
        rw [← hs] at he
        exact (RuleError.badLine.inj (Except.error.inj he)).2
      rw [happend, readLines_behind _ hfront, ← hs]
      rfl

/-- A first text that fails, two texts that are read, and a second text that fails. -/
theorem readAll_text_behind_text_three_pairs :
    readAll ("S -> a\nb" ++ "\n" ++ "A -> a") = .error (.badLine 2 .missingLeftSide) ∧
    readAll ("S -> a\n" ++ "\n" ++ "A -> b\r\n| c\r\n") =
      .ok ([⟨"S", [["a"]]⟩] ++ [⟨"A", [["b"], ["c"]]⟩]) ∧
    readAll ("S -> a\n\r\n| b" ++ "\n" ++ "\nA -> b\n-> c") =
      .error (.badLine (1 + 2 + 3) .emptyLeftSide) := by
  refine ⟨?_, ?_, ?_⟩
  · exact (readAll_text_behind_text _ _).1 _ (by decide +kernel)
  · exact ((readAll_text_behind_text _ _).2 _ (by decide +kernel)).1 _ (by decide +kernel)
  · exact ((readAll_text_behind_text "S -> a\n\r\n| b" _).2 [⟨"S", [["a"], ["b"]]⟩]
      (by decide +kernel)).2 3 .emptyLeftSide (.inl (by decide)) (by decide +kernel)

/-- The exception: a text that fails alone goes on with the last rule of another. -/
example : readAll "| b" = .error (.badLine 1 .missingLeftSide) ∧
    readAll ("S -> a" ++ "\n" ++ "| b") = .ok [⟨"S", [["a"], ["b"]]⟩] := by decide +kernel

end Rule

end ChomskyChart
