import ChomskyChart.Proofs.Recognition.Counts

/-!
# A flag that is raised by a lookup

The flag is raised inside the computation that it is meant to stop, by the lookup of a given number.
It is read before each span length only. So a run stops before the span length after the one to which
that lookup belongs, with all lookups of that one made, and it is completed when the lookup belongs
to the last span length or is never made.

The number of lookups of each span length is taken from a run that is not stopped.
-/

namespace ChomskyChart

/-- Counts pairs, and starts anew when a span length is done: its count is noted. -/
structure Tally where
  pairs : Nat := 0
  spans : List (Nat × Nat) := []

namespace Tally

def observer : Observer (StateM Tally) where
  onToken _ := pure ()
  onPair _ _ := modify fun t => { t with pairs := t.pairs + 1 }
  onSpan _ span := modify fun t => { pairs := 0, spans := t.spans ++ [(span, t.pairs)] }

def recognizerIn (order : Order) (index : RuleIndex) : Recognizer (StateM Tally) :=
  { index, order, observer }

/-- What a tally notes, as a record. -/
def record : Record Tally where
  onPair _ _ t := { t with pairs := t.pairs + 1 }
  onSpan _ span t := { pairs := 0, spans := t.spans ++ [(span, t.pairs)] }

variable {order : Order} {index : RuleIndex} {tokens : List String}

theorem recognizerIn_eq : recognizerIn order index = (index.recognizerIn order).recorded record :=
  rfl

theorem afterTokens_record (hne : tokens ≠ []) :
    (index.recognizerIn order).afterTokens record tokens {} = ⟨0, [(1, 0)]⟩ := by
  have hread : tokens.foldl (fun t s => record.onToken s t) {} = {} := List.foldl_fixed tokens
  have hfilled : (!(index.fillTo tokens 1).isEmpty) = true := by
    rw [RuleIndex.isEmpty_fillTo hne, Bool.not_false]
  rw [Recognizer.afterTokens, hread]
  exact if_pos hfilled

theorem afterSpan_record (span : Nat) (t : Tally) :
    (index.recognizerIn order).afterSpan record tokens t span =
      ⟨0, t.spans ++ [(span, t.pairs + index.spanLookups tokens span)]⟩ := by
  have hcount : ∀ (ps : List (Nat × Nat)) (t : Tally),
      ps.foldl (fun t p => record.onPair p.1 p.2 t) t =
        { t with pairs := t.pairs + ps.length } := by
    intro ps t
    induction ps generalizing t with
    | nil => rfl
    | cons pair ps ih =>
      rw [List.foldl_cons, ih, List.length_cons, Nat.add_comm ps.length, ← Nat.add_assoc]
      rfl
  rw [Recognizer.afterSpan, hcount, Recognizer.length_spanPairs, RuleIndex.spanLookups,
    Recognizer.index_fill]
  rfl

theorem foldl_afterSpan_record (ss : List Nat) (noted : List (Nat × Nat)) :
    ss.foldl ((index.recognizerIn order).afterSpan record tokens) ⟨0, noted⟩ =
      ⟨0, noted ++ ss.map fun s => (s, index.spanLookups tokens s)⟩ := by
  induction ss generalizing noted with
  | nil => rw [List.map_nil, List.append_nil]; rfl
  | cons span ss ih =>
    rw [List.foldl_cons, afterSpan_record, Nat.zero_add, ih, List.append_assoc, List.map_cons,
      List.singleton_append]

/-- The diagonal takes no lookups of pairs, and each other span length its own. -/
theorem run_recognize (hne : tokens ≠ []) :
    ((recognizerIn order index).recognize tokens).run {} =
      (index.recognize tokens,
        ⟨0, (1, 0) :: (Chart.spans tokens.length).map fun s => (s, index.spanLookups tokens s)⟩) := by
  have hrecord : (index.recognizerIn order).recordBelow record tokens {} (tokens.length + 1) =
      ⟨0, (1, 0) :: (Chart.spans tokens.length).map fun s => (s, index.spanLookups tokens s)⟩ := by
    rw [Recognizer.recordBelow, afterTokens_record hne, foldl_afterSpan_record]
    rfl
  rw [← hrecord, recognizerIn_eq, Recognizer.run_recorded_recognize]
  exact congrArg (Prod.mk · _) (Recognizer.idRun_recognize (index.recognizerIn order) tokens)

end Tally

namespace Probe

/-- A checkpoint that reads the flag of the probe. -/
def flag : StateM Probe Bool := return (← get).raised

variable {order : Order} {index : RuleIndex} {raiseAt : Nat} {tokens : List String}

theorem run_pass (span : Nat) (p : Probe) :
    ((recognizerIn order index raiseAt).pass flag tokens span).run p =
      (⟨⟩, p.after raiseAt (index.spanLookups tokens span)) :=
  run_showSpan span p

/-- The checkpoint at which a run finds the flag raised. -/
def stop? (index : RuleIndex) (raiseAt : Nat) (tokens : List String) (spans : List Nat) :
    Option Nat :=
  spans.find? fun span => raiseAt ≤ index.lookupsTo tokens (span - 1)

/-- How a run ends, from the checkpoint at which it is given up. -/
def ending (index : RuleIndex) (raiseAt : Nat) (tokens : List String) :
    Option Nat → Except Cancelled Bool × Probe
  | some span => (.error ⟨span⟩, after raiseAt (index.lookupsTo tokens (span - 1)) { tokens })
  | none => (.ok (index.recognize tokens),
      after raiseAt (index.lookupsTo tokens tokens.length) { tokens })

theorem run_flag (hraise : 1 ≤ raiseAt) (count : Nat) (tokens : List String) :
    flag.run (after raiseAt count { tokens }) =
      (decide (raiseAt ≤ count), after raiseAt count { tokens }) := by
  have hraised : (after raiseAt count { tokens }).raised = decide (raiseAt ≤ count) := by
    have hpos : 0 < raiseAt := hraise
    simp only [after, Bool.false_or, Nat.zero_add, hpos, true_and]
  rw [← hraised]
  rfl

variable (order index) in
/-- The flag is up at a checkpoint if the lookups of the shorter span lengths have reached the one
that raises it. By induction on the span lengths that are left. -/
theorem run_goOn (hraise : 1 ≤ raiseAt) (k : Nat) {s : Nat} (hs : 1 ≤ s)
    (hk : s + k = tokens.length) :
    ((recognizerIn order index raiseAt).goOn flag tokens (List.range' (s + 1) k)).run
        (after raiseAt (index.lookupsTo tokens s) { tokens }) =
      ending index raiseAt tokens (stop? index raiseAt tokens (List.range' (s + 1) k)) := by
  induction k generalizing s with
  | zero =>
    obtain rfl : s = tokens.length := hk
    rfl
  | succ k ih =>
    rw [List.range'_succ, Recognizer.run_goOn_cons, run_flag hraise, stop?, List.find?_cons,
      Nat.add_sub_cancel]
    by_cases hreached : raiseAt ≤ index.lookupsTo tokens s
    · simp only [hreached, decide_true, if_true]
      rfl
    · simp only [hreached, decide_false, Bool.false_eq_true, if_false]
      rw [run_pass, after_after, ← RuleIndex.lookupsTo_succ hs]
      exact ih (by omega) (by omega)

/-- A whole run. The order in which cells are enumerated does not occur in how it ends. -/
theorem run_recognizeUnless (hraise : 1 ≤ raiseAt) (hne : tokens ≠ []) :
    ((recognizerIn order index raiseAt).recognizeUnless flag tokens).run {} =
      ending index raiseAt tokens (stop? index raiseAt tokens (Chart.spans tokens.length)) := by
  have hpos := List.length_pos_iff.mpr hne
  have hloop := run_goOn order index hraise (tokens.length - 1) (Nat.le_refl 1)
    (show 1 + (tokens.length - 1) = tokens.length by omega)
  rw [RuleIndex.lookupsTo_one, after_zero] at hloop
  rw [Recognizer.recognizeUnless_eq _ _ hne, StateT.run_bind, run_readTokens]
  exact hloop

/-- The first checkpoint that finds the flag raised is the one after the lookups that raise it. -/
theorem stop?_eq_some {s : Nat} (hpos : 1 ≤ s) (hlt : s < tokens.length)
    (hreached : raiseAt ≤ index.lookupsTo tokens s)
    (hbefore : ∀ t < s, index.lookupsTo tokens t < raiseAt) :
    stop? index raiseAt tokens (Chart.spans tokens.length) = some (s + 1) := by
  rw [stop?, Chart.spans, List.find?_range'_eq_some]
  refine ⟨decide_eq_true hreached, List.mem_range'_1.mpr (by omega), fun t ht hts => ?_⟩
  have hearlier := hbefore (t - 1) (by omega)
  simpa using hearlier

theorem stop?_eq_none (h : ∀ s < tokens.length, index.lookupsTo tokens s < raiseAt) :
    stop? index raiseAt tokens (Chart.spans tokens.length) = none := by
  rw [stop?, Chart.spans, List.find?_range'_eq_none]
  intro t ht htn
  have hearlier := h (t - 1) (by omega)
  simpa using hearlier

/-- A flag that is raised by a lookup stops the run before the span length after that of the lookup,
if there is one, with all lookups up to there made. If that lookup belongs to the last span length or
is never made, the run is completed. The counts are those of a run that nobody stops, and no order in
which cells are enumerated changes how a run ends. -/
theorem recognizeUnless_raised_by_lookup (index : RuleIndex) (order : Order) (raiseAt : Nat)
    (tokens : List String) (hn : 2 ≤ tokens.length) (hraise : 1 ≤ raiseAt) :
    let n := tokens.length
    let c := index.spanLookups tokens
    let run := fun order =>
      ((recognizerIn order index raiseAt).recognizeUnless flag tokens).run {}
    (∀ s, IsLeast {s | raiseAt ≤ ∑ t ∈ Finset.Icc 2 s, c t} s → s < n →
      (run order).1 = .error ⟨s + 1⟩ ∧ (run order).2.pairs = ∑ t ∈ Finset.Icc 2 s, c t) ∧
    ((∀ s < n, ∑ t ∈ Finset.Icc 2 s, c t < raiseAt) →
      (run order).1 = .ok (index.recognize tokens) ∧
        (run order).2.pairs = ∑ t ∈ Finset.Icc 2 n, c t) ∧
    (∀ order', run order' = run order) ∧
    ((Tally.recognizerIn order index).recognize tokens).run {} =
      (index.recognize tokens, ⟨0, (1, 0) :: (List.range' 2 (n - 1)).map fun s => (s, c s)⟩) := by
  intro n c run
  have hne : tokens ≠ [] := List.ne_nil_of_length_pos (by omega)
  have hrun : ∀ order, run order = ending index raiseAt tokens
      (stop? index raiseAt tokens (Chart.spans tokens.length)) := fun order =>
    run_recognizeUnless hraise hne
  refine ⟨fun s hleast hlt => ?stopped, fun h => ?completed, fun order' => ?orders,
    Tally.run_recognize hne⟩
  case stopped =>
    have hbefore : ∀ t < s, index.lookupsTo tokens t < raiseAt := fun t ht =>
      Nat.lt_of_not_le fun hle => absurd (hleast.2 hle) (Nat.not_le_of_lt ht)
    have hpos : 1 ≤ s := by
      refine Nat.pos_of_ne_zero ?_
      rintro rfl
      have hnone : raiseAt ≤ 0 := hleast.1
      omega
    rw [hrun, stop?_eq_some hpos hlt hleast.1 hbefore]
    exact ⟨rfl, Nat.zero_add _⟩
  case completed =>
    rw [hrun, stop?_eq_none h]
    exact ⟨rfl, Nat.zero_add _⟩
  case orders => rw [hrun, hrun]

/-- Four tokens take 24, 11 and 6 lookups. A flag raised by the last of those for span length three
stops the run before span length four, and one raised right after that stops nothing. -/
theorem recognizeUnless_raised_by_lookup_g1 :
    ((Probe.recognizeUnless Sample.g1.grammar.index 35 false ["a", "a", "a", "b"]).1 = .error ⟨4⟩ ∧
      (Probe.recognizeUnless Sample.g1.grammar.index 35 false ["a", "a", "a", "b"]).2.pairs = 35) ∧
    (Probe.recognizeUnless Sample.g1.grammar.index 36 false ["a", "a", "a", "b"]).1 =
        .ok (Sample.g1.grammar.recognize ["a", "a", "a", "b"]) ∧
      (Probe.recognizeUnless Sample.g1.grammar.index 36 false ["a", "a", "a", "b"]).2.pairs = 41 := by
  constructor
  · obtain ⟨hstopped, -⟩ := recognizeUnless_raised_by_lookup Sample.g1.grammar.index .ascending
      35 ["a", "a", "a", "b"] (by decide) (by decide)
    refine (hstopped 3 ⟨by decide +kernel, fun s hs => ?_⟩ (by decide)).imp id fun hpairs =>
      hpairs.trans (by decide +kernel)
    by_contra hlt
    have hcases : s = 0 ∨ s = 1 ∨ s = 2 := by omega
    rcases hcases with rfl | rfl | rfl <;> exact absurd hs (by decide +kernel)
  · obtain ⟨-, hcompleted, -⟩ := recognizeUnless_raised_by_lookup Sample.g1.grammar.index .ascending
      36 ["a", "a", "a", "b"] (by decide) (by decide)
    exact (hcompleted (by decide +kernel)).imp id fun hpairs => hpairs.trans (by decide +kernel)

end Probe

end ChomskyChart
