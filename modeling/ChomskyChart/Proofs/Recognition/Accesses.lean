import ChomskyChart.Proofs.Chart.Addresses
import ChomskyChart.Proofs.Grammar.Cells
import ChomskyChart.Proofs.Recognition.Checkpoints
import ChomskyChart.Recognition.Trace

/-!
# Accesses of a run

A run reads and writes its chart with numbers from its loops. Here every access is checked, and so
is every number on the way to it, in the order of the run. A check stops the run if it fails, and
cannot be seen if it holds. It always holds: the checked run is the run, with the same observer, the
same chart and the same answer. The width of numbers matters to none but charts that are too large
for it.
-/

namespace ChomskyChart

/-! ### Checks in a run -/

/-- A check in the middle of a run. -/
def check {m : Type → Type} [Monad m] {α : Type} (x : Except Trap α) : ExceptT Trap m α :=
  ExceptT.mk (pure x)

section Loops

variable {m : Type → Type} [Monad m] [LawfulMonad m] {α β : Type}

theorem check_ok_bind (a : α) (f : α → ExceptT Trap m β) : (check (.ok a) >>= f) = f a :=
  pure_bind a f

/-- A loop over blocks is a loop of loops. -/
theorem foldlM_flatMap {γ : Type} (f : β → γ → m β) (blocks : α → List γ) (as : List α) (b : β) :
    (as.flatMap blocks).foldlM f b = as.foldlM (fun b a => (blocks a).foldlM f b) b := by
  induction as generalizing b with
  | nil => rfl
  | cons a as ih => simp only [List.flatMap_cons, List.foldlM_append, List.foldlM_cons, ih]

/-- Checks that hold in each step of a loop hold in the loop. The step is a visit with a computed
result, so that what is known of the state can be carried along. -/
theorem foldlM_lift (P : β → Prop) {f : β → α → m β} {g : β → α → ExceptT Trap m β}
    {visit : β → α → m PUnit} {next : β → α → β} {as : List α}
    (hf : ∀ b a, f b a = (do visit b a; return next b a))
    (hnext : ∀ b a, P b → P (next b a))
    (hg : ∀ b a, P b → a ∈ as → g b a = ExceptT.lift (f b a)) {b : β} (hb : P b) :
    as.foldlM g b = ExceptT.lift (as.foldlM f b) := by
  induction as generalizing b with
  | nil => exact (ExceptT.lift_pure b).symm
  | cons a as ih =>
    have hrest := ih (fun b a' hb ha => hg b a' hb (List.mem_cons_of_mem a ha)) (hnext b a hb)
    rw [List.foldlM_cons, List.foldlM_cons, hg b a hb List.mem_cons_self, hf]
    simp only [ExceptT.lift_bind, ExceptT.lift_pure, bind_assoc, pure_bind, hrest]

end Loops

/-! ### Spans of a length -/

variable {bits : Option Nat} {chart : Chart} {n span i : Nat}

/-- The first tokens of the spans of a length, counted up to the last of them. -/
theorem Chart.range_last (hn : span ≤ n) : List.range (n - span + 1) = starts n span := by
  rw [starts]
  congr 1
  omega

theorem Chart.inside_of_mem_starts (hs : 1 ≤ span) (hi : i ∈ starts n span) :
    Triangle.Inside n i (i + span - 1) :=
  ((RuleIndex.mem_starts_map hs).mp (List.mem_map_of_mem hi)).1

/-- The last token of a span, from its first token and its length. -/
def checkedStop (bits : Option Nat) (i span : Nat) : Except Trap Nat := do
  let next ← checkedFit bits (i + span)
  checkedSub next 1

theorem checkedStop_eq (hfits : FitsChart bits n) (hs : 1 ≤ span) (hi : i ∈ Chart.starts n span) :
    checkedStop bits i span = .ok (i + span - 1) := by
  have hle : i + span ≤ n := Chart.mem_starts.mp hi
  have hnext : checkedFit bits (i + span) = .ok (i + span) := hfits.fit_of_le_succ (by omega)
  rw [checkedStop, hnext, ok_bind, checkedSub_eq (by omega)]

/-- A block of a trace, read from a chart. -/
def TraceBlock.checkedOfChart (bits : Option Nat) (chart : Chart) (span : Nat) :
    Except Trap TraceBlock := do
  let last ← checkedSub chart.size span
  let cells ← (List.range (last + 1)).mapM fun i => do
    let j ← checkedStop bits i span
    let s ← chart.checkedGet bits i j
    return ⟨i, j, s.toList⟩
  return ⟨span, chart.size, cells⟩

theorem TraceBlock.checkedOfChart_eq (hfits : FitsChart bits chart.size) (hs : 1 ≤ span)
    (hn : span ≤ chart.size) : checkedOfChart bits chart span = .ok (ofChart chart span) := by
  rw [checkedOfChart, checkedSub_eq hn, ok_bind, Chart.range_last hn, Grammar.mapM_ok]
  · rfl
  · intro i hi
    rw [checkedStop_eq hfits hs hi, ok_bind,
      Chart.checkedGet_eq hfits (Chart.inside_of_mem_starts hs hi)]
    rfl

namespace Recognizer

/-! ### Checked runs -/

section Runs

variable {m : Type → Type} [Monad m] (r : Recognizer m) (bits : Option Nat)

/-- Fill the diagonal. -/
def checkedBase (tokens : List String) : ExceptT Trap m Chart := do
  let chart ← check (Chart.checkedBlank bits tokens.length)
  tokens.zipIdx.foldlM (fun chart p => do
    ExceptT.lift (r.observer.onToken p.1)
    check (chart.checkedSet bits p.2 p.2 (r.index.terminalDerivers p.1))) chart

/-- The pairs of one cut, from the contents of its parts. -/
def cutPairs (i j k : Nat) (left right : IndexSet) : List (Nat × Nat) :=
  let rights := r.order.list (k + 1) j right
  (r.order.list i k left).flatMap fun b => rights.map fun c => (b, c)

/-- The pairs of one cut, read from a chart. -/
def checkedCut (chart : Chart) (i j k : Nat) : Except Trap (List (Nat × Nat)) := do
  let next ← checkedFit bits (k + 1)
  let left ← chart.checkedGet bits i k
  let right ← chart.checkedGet bits next j
  return r.cutPairs i j k left right

/-- Add the derivers of some pairs. -/
def deriversFrom (derived : IndexSet) (pairs : List (Nat × Nat)) : m IndexSet :=
  pairs.foldlM (fun derived p => do
    r.observer.onPair p.1 p.2
    return derived ∪ r.index.pairDerivers p.1 p.2) derived

/-- Compute a cell, and overwrite it. Each cut is read just before its pairs are looked up. -/
def checkedFillCell (chart : Chart) (i j : Nat) : ExceptT Trap m Chart := do
  let derived ← (Chart.splits i j).foldlM (fun derived k => do
    let pairs ← check (r.checkedCut bits chart i j k)
    ExceptT.lift (r.deriversFrom derived pairs)) ∅
  check (chart.checkedSet bits i j derived)

/-- Fill every cell of a span length. -/
def checkedFillSpan (chart : Chart) (span : Nat) : ExceptT Trap m Chart := do
  let last ← check (checkedSub chart.size span)
  (List.range (last + 1)).foldlM (fun chart i => do
    let j ← check (checkedStop bits i span)
    r.checkedFillCell bits chart i j) chart

/-- Report a span length, with the block of a trace read first. -/
def checkedReport (chart : Chart) (span : Nat) : ExceptT Trap m Unit := do
  let _ ← check (TraceBlock.checkedOfChart bits chart span)
  ExceptT.lift (r.observer.onSpan chart span)

def checkedAdvance (chart : Chart) (span : Nat) : ExceptT Trap m Chart := do
  let chart ← r.checkedFillSpan bits chart span
  r.checkedReport bits chart span
  return chart

def checkedBegin (tokens : List String) : ExceptT Trap m Chart := do
  let chart ← r.checkedBase bits tokens
  if !chart.isEmpty then r.checkedReport bits chart 1
  return chart

def checkedFill (tokens : List String) : ExceptT Trap m Chart := do
  let chart ← r.checkedBegin bits tokens
  (Chart.spans chart.size).foldlM (r.checkedAdvance bits) chart

def checkedRecognize (tokens : List String) : ExceptT Trap m Bool := do
  if tokens.isEmpty then return r.index.derivesEmpty
  let chart ← r.checkedFill bits tokens
  check (chart.checkedAccepts bits r.index.start)

/-- Fill the remaining span lengths, with the flag read before each, and answer. -/
def checkedGoOn (cancelled : m Bool) : List Nat → Chart → ExceptT Trap m (Except Cancelled Bool)
  | [], chart => return .ok (← check (chart.checkedAccepts bits r.index.start))
  | span :: spans, chart => do
    if ← ExceptT.lift cancelled then
      return .error ⟨span⟩
    else
      let chart ← r.checkedAdvance bits chart span
      checkedGoOn cancelled spans chart

/-- Here the diagonal is reported without asking for the size of the chart. -/
def checkedRecognizeUnless (cancelled : m Bool) (tokens : List String) :
    ExceptT Trap m (Except Cancelled Bool) := do
  if tokens.isEmpty then return .ok r.index.derivesEmpty
  let chart ← r.checkedBase bits tokens
  r.checkedReport bits chart 1
  r.checkedGoOn bits cancelled (Chart.spans chart.size) chart

end Runs

/-! ### No check fails -/

section Equations

variable {m : Type → Type} (r : Recognizer m) {tokens : List String}

theorem checkedCut_eq {i j k : Nat} (hfits : FitsChart bits chart.size)
    (hin : Triangle.Inside chart.size i j) (hk : k ∈ Chart.splits i j) :
    r.checkedCut bits chart i j k =
      .ok (r.cutPairs i j k (chart.get i k) (chart.get (k + 1) j)) := by
  obtain ⟨hij, hj⟩ := hin
  obtain ⟨hik, hkj⟩ := Chart.mem_splits.mp hk
  have hnext : checkedFit bits (k + 1) = .ok (k + 1) := hfits.fit_of_le_succ (by omega)
  have hleft : chart.checkedGet bits i k = .ok (chart.get i k) :=
    Chart.checkedGet_eq hfits ⟨hik, by omega⟩
  have hright : chart.checkedGet bits (k + 1) j = .ok (chart.get (k + 1) j) :=
    Chart.checkedGet_eq hfits ⟨hkj, hj⟩
  rw [checkedCut, hnext, ok_bind, hleft, ok_bind, hright]
  rfl

variable [Monad m] [LawfulMonad m]

theorem deriversFrom_eq (derived : IndexSet) (ps : List (Nat × Nat)) :
    r.deriversFrom derived ps = (do
      r.lookUp ps
      return ps.foldl (fun derived p => derived ∪ r.index.pairDerivers p.1 p.2) derived) :=
  foldlM_visit _ _ _ ps

theorem derivers_pairs (i j : Nat) :
    r.derivers (r.pairs chart i j) =
      (Chart.splits i j).foldlM (fun derived k =>
        r.deriversFrom derived (r.cutPairs i j k (chart.get i k) (chart.get (k + 1) j))) ∅ :=
  foldlM_flatMap _ _ _ _

theorem checkedFillCell_eq {i j : Nat} (hfits : FitsChart bits chart.size)
    (hin : Triangle.Inside chart.size i j) :
    r.checkedFillCell bits chart i j = ExceptT.lift (r.fillCell chart i j) := by
  have hcuts : (Chart.splits i j).foldlM (fun derived k => do
      let pairs ← check (r.checkedCut bits chart i j k)
      ExceptT.lift (r.deriversFrom derived pairs)) ∅ =
        ExceptT.lift (r.derivers (r.pairs chart i j)) := by
    rw [derivers_pairs]
    refine foldlM_lift (fun _ => True) (fun derived k => r.deriversFrom_eq derived _)
      (fun _ _ _ => trivial) (fun derived k _ hk => ?_) trivial
    rw [checkedCut_eq r hfits hin hk, check_ok_bind]
  rw [checkedFillCell, hcuts, fillCell, ExceptT.lift_bind]
  simp only [Chart.checkedSet_eq hfits hin, ExceptT.lift_pure]
  rfl

theorem checkedFillSpan_eq (hfits : FitsChart bits chart.size) (hs : 1 ≤ span)
    (hn : span ≤ chart.size) :
    r.checkedFillSpan bits chart span = ExceptT.lift (r.fillSpan chart span) := by
  rw [checkedFillSpan, checkedSub_eq hn, check_ok_bind, Chart.range_last hn, fillSpan]
  refine foldlM_lift (fun c => c.size = chart.size) (fun c i => r.fillCell_eq c i _)
    (fun c i hc => (Chart.size_set _ _ _ _).trans hc) (fun c i hc hi => ?_) rfl
  rw [checkedStop_eq hfits hs hi, check_ok_bind,
    checkedFillCell_eq r (hc ▸ hfits) (hc ▸ Chart.inside_of_mem_starts hs hi)]

/-- The check of a span length that a chart does not have fails. -/
example : (Sample.g1.grammar.index.recognizer.checkedFillSpan none (.blank 2) 3).run =
    (Except.error (.belowZero 2 3) : Except Trap Chart) := rfl

theorem checkedReport_eq (hfits : FitsChart bits chart.size) (hs : 1 ≤ span)
    (hn : span ≤ chart.size) :
    r.checkedReport bits chart span = ExceptT.lift (r.observer.onSpan chart span) := by
  rw [checkedReport, TraceBlock.checkedOfChart_eq hfits hs hn, check_ok_bind]

/-- An advance in one piece. -/
theorem advance_eq_report (chart : Chart) (span : Nat) :
    r.advance chart span = (do
      (do r.lookUp (r.spanPairs chart span); r.observer.onSpan (r.index.extend chart span) span)
      return r.index.extend chart span) := by
  rw [advance, fillSpan_eq]
  simp only [bind_assoc, pure_bind]

theorem checkedAdvance_eq (hfits : FitsChart bits chart.size) (hs : 1 ≤ span)
    (hn : span ≤ chart.size) :
    r.checkedAdvance bits chart span = ExceptT.lift (r.advance chart span) := by
  have hreport : r.checkedReport bits (r.index.extend chart span) span =
      ExceptT.lift (r.observer.onSpan (r.index.extend chart span) span) := by
    apply checkedReport_eq r _ hs <;> rwa [RuleIndex.size_extend]
  rw [checkedAdvance, checkedFillSpan_eq r hfits hs hn, advance, fillSpan_eq]
  simp only [ExceptT.lift_bind, ExceptT.lift_pure, bind_assoc, pure_bind, hreport]

theorem checkedBase_eq (hfits : FitsChart bits tokens.length) :
    r.checkedBase bits tokens = ExceptT.lift (r.base tokens) := by
  rw [checkedBase, Chart.checkedBlank_eq hfits, check_ok_bind, base]
  refine foldlM_lift (fun c => c.size = tokens.length) (fun _ _ => rfl)
    (fun c p hc => (Chart.size_set _ _ _ _).trans hc) (fun c p hc hp => ?_) rfl
  have hlt : p.2 < tokens.length := List.snd_lt_of_mem_zipIdx hp
  have hin : Triangle.Inside c.size p.2 p.2 := ⟨Nat.le_refl _, by rwa [hc]⟩
  rw [Chart.checkedSet_eq (hc ▸ hfits) hin, ExceptT.lift_bind, ExceptT.lift_pure]
  rfl

theorem begin_of_ne_nil (hne : tokens ≠ []) :
    r.begin tokens = (do
      forM tokens r.observer.onToken
      r.observer.onSpan (r.index.base tokens) 1
      return r.index.base tokens) := by
  have hfull : (r.index.base tokens).isEmpty = false := RuleIndex.isEmpty_fillTo hne 1
  rw [begin, base_eq]
  simp only [bind_assoc, pure_bind, hfull, Bool.not_false, if_true]

theorem checkedReport_base (hfits : FitsChart bits tokens.length) (hne : tokens ≠ []) :
    r.checkedReport bits (r.index.base tokens) 1 =
      ExceptT.lift (r.observer.onSpan (r.index.base tokens) 1) := by
  have hpos := List.length_pos_iff.mpr hne
  apply checkedReport_eq r _ (Nat.le_refl 1) <;> rwa [RuleIndex.size_base]

theorem checkedBegin_eq (hfits : FitsChart bits tokens.length) :
    r.checkedBegin bits tokens = ExceptT.lift (r.begin tokens) := by
  by_cases hne : tokens = []
  · subst hne
    have hempty : (r.index.base []).isEmpty = true := rfl
    rw [checkedBegin, begin, checkedBase_eq r hfits, base_eq]
    simp only [ExceptT.lift_bind, ExceptT.lift_pure, bind_assoc, pure_bind, hempty, Bool.not_true,
      Bool.false_eq_true, if_false]
  · have hfull : (r.index.base tokens).isEmpty = false := RuleIndex.isEmpty_fillTo hne 1
    rw [checkedBegin, checkedBase_eq r hfits, base_eq, begin_of_ne_nil r hne]
    simp only [ExceptT.lift_bind, ExceptT.lift_pure, bind_assoc, pure_bind, hfull, Bool.not_false,
      if_true, checkedReport_base r hfits hne]

theorem checkedFill_eq (hfits : FitsChart bits tokens.length) :
    r.checkedFill bits tokens = ExceptT.lift (r.fill tokens) := by
  have hloop : (Chart.spans tokens.length).foldlM (r.checkedAdvance bits)
      (r.index.fillTo tokens 1) =
        ExceptT.lift ((Chart.spans tokens.length).foldlM r.advance (r.index.fillTo tokens 1)) := by
    refine foldlM_lift (fun c => c.size = tokens.length) r.advance_eq_report
      (fun c span hc => (RuleIndex.size_extend _).trans hc) (fun c span hc hspan => ?_)
      RuleIndex.size_fillTo
    obtain ⟨hs, hn⟩ := Chart.mem_spans.mp hspan
    exact checkedAdvance_eq r (hc ▸ hfits) (by omega) (by omega)
  rw [checkedFill, checkedBegin_eq r hfits, fill, begin_eq]
  simp only [ExceptT.lift_bind, ExceptT.lift_pure, bind_assoc, pure_bind, RuleIndex.size_fillTo,
    hloop]

theorem checkedRecognize_eq (hfits : FitsChart bits tokens.length) :
    r.checkedRecognize bits tokens = ExceptT.lift (r.recognize tokens) := by
  rw [checkedRecognize, recognize]
  split
  · exact (ExceptT.lift_pure _).symm
  · have haccepts : (r.index.fill tokens).checkedAccepts bits r.index.start =
        .ok ((r.index.fill tokens).accepts r.index.start) :=
      Chart.checkedAccepts_eq (by rwa [RuleIndex.size_fill]) _
    rw [checkedFill_eq r hfits, fill_eq]
    simp only [ExceptT.lift_bind, ExceptT.lift_pure, bind_assoc, pure_bind, haccepts]
    rfl

/-- By induction on the span lengths that are left, over charts of one size. -/
theorem checkedGoOn_eq (cancelled : m Bool) {spans : List Nat} (chart : Chart)
    (hfits : FitsChart bits chart.size) (hspans : ∀ s ∈ spans, 1 ≤ s ∧ s ≤ chart.size) :
    r.checkedGoOn bits cancelled spans chart =
      ExceptT.lift ((spans.foldlM (r.advanceUnless cancelled) chart >>= fun chart =>
        pure (chart.accepts r.index.start)).run) := by
  induction spans generalizing chart with
  | nil =>
    rw [checkedGoOn, Chart.checkedAccepts_eq hfits, check_ok_bind, List.foldlM_nil, pure_bind,
      ExceptT.run_pure, ExceptT.lift_pure]
  | cons span spans ih =>
    obtain ⟨⟨hs, hn⟩, hspans⟩ := List.forall_mem_cons.mp hspans
    have hsize : (r.index.extend chart span).size = chart.size := RuleIndex.size_extend _
    have hrest := ih (r.index.extend chart span) (by rwa [hsize]) (by rwa [hsize])
    rw [checkedGoOn, List.foldlM_cons, bind_assoc, run_advanceUnless_bind, ExceptT.lift_bind]
    congr 1
    funext raised
    cases raised with
    | true => exact (ExceptT.lift_pure _).symm
    | false =>
      simp only [Bool.false_eq_true, if_false, checkedAdvance_eq r hfits hs hn, advance_eq_report,
        ExceptT.lift_bind, ExceptT.lift_pure, bind_assoc, pure_bind, hrest]

theorem checkedRecognizeUnless_eq (cancelled : m Bool) (hfits : FitsChart bits tokens.length) :
    r.checkedRecognizeUnless bits cancelled tokens =
      ExceptT.lift (r.recognizeUnless cancelled tokens) := by
  by_cases hne : tokens = []
  · subst hne
    exact (ExceptT.lift_pure _).symm
  · have hspans : ∀ s ∈ Chart.spans tokens.length, 1 ≤ s ∧ s ≤ (r.index.base tokens).size := by
      intro s hs
      obtain ⟨hs, hn⟩ := Chart.mem_spans.mp hs
      rw [RuleIndex.size_base]
      exact ⟨by omega, hn⟩
    have hgoOn := r.checkedGoOn_eq cancelled (r.index.base tokens) (by rwa [RuleIndex.size_base])
      hspans
    rw [checkedRecognizeUnless, if_neg (by rwa [List.isEmpty_iff]), checkedBase_eq r hfits, base_eq,
      recognizeUnless_eq_begin r cancelled hne, begin_of_ne_nil r hne]
    simp only [ExceptT.lift_bind, ExceptT.lift_pure, bind_assoc, pure_bind,
      checkedReport_base r hfits hne, RuleIndex.size_base, hgoOn]

end Equations

/-! ### Runs over some tokens -/

/-- With all their checks the runs over some tokens are the runs without any, and so is what they
are made of. -/
structure StaysInside {m : Type → Type} [Monad m] (r : Recognizer m) (cancelled : m Bool)
    (tokens : List String) (bits : Option Nat) : Prop where
  blank : Chart.checkedBlank bits tokens.length = .ok (.blank tokens.length)
  base : (r.checkedBase bits tokens).run = Except.ok <$> r.base tokens
  fillSpan : ∀ chart span, chart.size = tokens.length → 1 ≤ span → span ≤ chart.size →
    (r.checkedFillSpan bits chart span).run = Except.ok <$> r.fillSpan chart span
  trace : ∀ chart span, chart.size = tokens.length → 1 ≤ span → span ≤ chart.size →
    TraceBlock.checkedOfChart bits chart span = .ok (.ofChart chart span)
  fill : (r.checkedFill bits tokens).run = Except.ok <$> r.fill tokens
  recognize : (r.checkedRecognize bits tokens).run = Except.ok <$> r.recognize tokens
  recognizeUnless : (r.checkedRecognizeUnless bits cancelled tokens).run =
    Except.ok <$> r.recognizeUnless cancelled tokens

section Inside

variable {m : Type → Type} [Monad m] [LawfulMonad m] (r : Recognizer m) (cancelled : m Bool)
  (tokens : List String)

theorem staysInside {bits : Option Nat} (hfits : FitsChart bits tokens.length) :
    r.StaysInside cancelled tokens bits where
  blank := Chart.checkedBlank_eq hfits
  base := by rw [checkedBase_eq r hfits, ExceptT.run_lift]
  fillSpan := fun chart span hsize hs hn => by
    rw [checkedFillSpan_eq r (by rwa [hsize]) hs hn, ExceptT.run_lift]
  trace := fun chart span hsize => TraceBlock.checkedOfChart_eq (by rwa [hsize])
  fill := by rw [checkedFill_eq r hfits, ExceptT.run_lift]
  recognize := by rw [checkedRecognize_eq r hfits, ExceptT.run_lift]
  recognizeUnless := by rw [checkedRecognizeUnless_eq r cancelled hfits, ExceptT.run_lift]

/-- The cells of a triangle have places of their own that fill the storage in row order, and access
to a chart, also by a write, is access to one cell. Every access of every run is to a cell, and no
subtraction on the way to it falls below zero. If twice the number of cells fits into 64 bits then
so does all that is computed. -/
theorem accesses_inside_triangle :
    (∀ n, Triangle.Places n) ∧
    (∀ chart : Chart, chart.Addressed none) ∧
    (∀ n, n * (n + 1) < 2 ^ 64 → ∀ i j, Triangle.Inside n i j →
      Triangle.checkedOffset (some 64) n i j = .ok (Triangle.offset n i j)) ∧
    r.StaysInside cancelled tokens none ∧
    (tokens.length * (tokens.length + 1) < 2 ^ 64 →
      r.StaysInside cancelled tokens (some 64)) := by
  refine ⟨Triangle.places, fun chart => ?_, fun n hn i j hin => ?_, ?_, fun hn => ?_⟩
  · exact Chart.addressed (FitsChart.none chart.size)
  · exact Triangle.checkedOffset_eq (FitsChart.of_lt hn) hin
  · exact r.staysInside cancelled tokens (FitsChart.none tokens.length)
  · exact r.staysInside cancelled tokens (FitsChart.of_lt hn)

end Inside

/-- The last cell of the largest triangle whose product fits into 64 bits, and runs of the sample
grammar G1 with a flag that is raised at the first lookup. -/
theorem accesses_inside_triangle_g1 :
    let r := Probe.recognizer Sample.g1.grammar.index 1
    Triangle.checkedOffset (some 64) 4294967295 4294967294 4294967294 =
      .ok 9223372034707292159 ∧
    ((r.checkedRecognize (some 64) ["a", "a", "a", "b"]).run.run {}).1 = .ok true ∧
    ((r.checkedRecognizeUnless (some 64) (return (← get).raised)
      ["a", "a", "a", "b"]).run.run {}).1 = .ok (.error ⟨3⟩) := by
  intro r
  obtain ⟨-, -, hplace, -, hruns⟩ :=
    accesses_inside_triangle r (return (← get).raised) ["a", "a", "a", "b"]
  have hinside := hruns (by decide)
  refine ⟨hplace 4294967295 (by decide) 4294967294 4294967294 (by decide), ?_, ?_⟩
  · rw [hinside.recognize]
    decide +kernel
  · rw [hinside.recognizeUnless]
    decide +kernel

end Recognizer

end ChomskyChart
