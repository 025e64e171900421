import ChomskyChart.Proofs.Recognition.Exactness

/-!
# A run is its lookups and a fixed answer

Recognition tells an observer of each question it asks. Whatever the observer does, in whatever
lawful monad, and however the cells are enumerated: the charts and the answer are those of the
silent run, and the questions can be listed in advance from the finished chart. So a statement
about the effects of a run is a statement about the list of its lookups.
-/

namespace ChomskyChart.Recognizer

variable {m : Type → Type} (r : Recognizer m)

/-- The pairs that are looked up to fill a span length of a chart. -/
def spanPairs (chart : Chart) (span : Nat) : List (Nat × Nat) :=
  (Chart.starts chart.size span).flatMap fun i => r.pairs chart i (i + span - 1)

theorem spanPairs_congr {span : Nat} {c d : Chart} (hsize : c.size = d.size)
    (h : Chart.AgreeBelow span c d) : r.spanPairs c span = r.spanPairs d span := by
  rw [spanPairs, spanPairs, hsize]
  exact List.flatMap_congr fun i _ => r.pairs_congr h i

variable [Monad m]

/-- Tell the observer of the pairs, one by one. -/
def lookUp (ps : List (Nat × Nat)) : m PUnit :=
  forM ps fun p => r.observer.onPair p.1 p.2

theorem recognize_nil : r.recognize [] = pure r.index.derivesEmpty := rfl

variable [LawfulMonad m]

theorem lookUp_append (ps qs : List (Nat × Nat)) :
    r.lookUp (ps ++ qs) = (do r.lookUp ps; r.lookUp qs) :=
  List.forM_append

/-- A loop that visits each element and computes on the side is its visits, and then the result. -/
theorem foldlM_visit {α β : Type} (visit : α → m PUnit) (f : β → α → β) (b : β) (as : List α) :
    as.foldlM (fun b a => do visit a; return f b a) b =
      (do forM as visit; return as.foldl f b) := by
  induction as generalizing b with
  | nil => simp only [List.foldlM_nil, List.forM_nil, pure_bind, List.foldl_nil]
  | cons a as ih =>
    simp only [List.foldlM_cons, List.forM_cons, bind_assoc, pure_bind, ih, List.foldl_cons]

theorem derivers_eq (ps : List (Nat × Nat)) :
    r.derivers ps = (do r.lookUp ps; return r.index.unite ps) :=
  foldlM_visit _ _ _ ps

theorem fillCell_eq (chart : Chart) (i j : Nat) :
    r.fillCell chart i j =
      (do r.lookUp (r.pairs chart i j); return chart.set i j (r.index.combine chart i j)) := by
  rw [fillCell, derivers_eq, unite_pairs, bind_assoc]
  simp only [pure_bind]

/-- Cells of one length are read by none of the others, so each may be computed from the chart
before the loop. -/
theorem foldlM_fillCell {span : Nat} {chart : Chart} (is : List Nat) {c : Chart}
    (h : Chart.AgreeBelow span c chart) :
    is.foldlM (fun c i => r.fillCell c i (i + span - 1)) c =
      (do r.lookUp (is.flatMap fun i => r.pairs chart i (i + span - 1))
          return c.setAll (r.index.combine chart) (is.map fun i => (i, i + span - 1))) := by
  induction is generalizing c with
  | nil => simp only [List.foldlM_nil, List.flatMap_nil, lookUp, List.forM_nil, pure_bind]; rfl
  | cons i is ih =>
    have hcombine :
        r.index.combine c i (i + span - 1) = r.index.combine chart i (i + span - 1) := by
      rw [RuleIndex.combine, RuleIndex.combine, pairs_congr _ h]
    rw [List.foldlM_cons, fillCell_eq, r.pairs_congr h, hcombine, List.flatMap_cons, lookUp_append]
    simp only [bind_assoc, pure_bind, ih (h.set i _)]
    rfl

theorem fillSpan_eq (chart : Chart) (span : Nat) :
    r.fillSpan chart span =
      (do r.lookUp (r.spanPairs chart span); return r.index.extend chart span) :=
  r.foldlM_fillCell _ (.refl span chart)

theorem base_eq (tokens : List String) :
    r.base tokens = (do forM tokens r.observer.onToken; return r.index.base tokens) := by
  have hvisit : (forM tokens.zipIdx fun p => r.observer.onToken p.1) =
      forM tokens r.observer.onToken := by
    conv_rhs => rw [← List.zipIdx_map_fst 0 tokens, List.forM_map]
  have hfold : tokens.zipIdx.foldl (fun c p => c.set p.2 p.2 (r.index.terminalDerivers p.1))
      (Chart.blank tokens.length) = r.index.base tokens := by
    rw [RuleIndex.base, Chart.setAll, List.foldl_map]
    refine List.foldl_ext _ _ _ fun c p hp => ?_
    rw [RuleIndex.derivers, List.mk_mem_zipIdx_iff_getElem?.mp hp]
  rw [base, foldlM_visit, hvisit, hfold]

/-- What a run shows before the first span length above one. -/
def readTokens (tokens : List String) : m PUnit := do
  forM tokens r.observer.onToken
  if !(r.index.fillTo tokens 1).isEmpty then r.observer.onSpan (r.index.fillTo tokens 1) 1

/-- What a run shows of a span length: its lookups, which can be read off the finished chart, and
then the chart as far as it is filled. -/
def showSpan (tokens : List String) (span : Nat) : m PUnit := do
  r.lookUp (r.spanPairs (r.index.fillTo tokens tokens.length) span)
  r.observer.onSpan (r.index.fillTo tokens span) span

theorem begin_eq (tokens : List String) :
    r.begin tokens = (do r.readTokens tokens; return r.index.fillTo tokens 1) := by
  rw [begin, base_eq, readTokens, RuleIndex.fillTo_one]
  simp only [bind_assoc, pure_bind]
  congr 1
  funext _
  split <;> simp only [pure_bind]

theorem advance_eq {tokens : List String} {s : Nat} (hs : 1 ≤ s) (hn : s < tokens.length) :
    r.advance (r.index.fillTo tokens s) (s + 1) =
      (do r.showSpan tokens (s + 1); return r.index.fillTo tokens (s + 1)) := by
  have hpairs : r.spanPairs (r.index.fillTo tokens s) (s + 1) =
      r.spanPairs (r.index.fillTo tokens tokens.length) (s + 1) :=
    r.spanPairs_congr (by simp) (RuleIndex.agreeBelow_fillTo hs (by omega))
  rw [advance, fillSpan_eq, hpairs, showSpan, RuleIndex.fillTo_succ hs]
  simp only [bind_assoc, pure_bind]

/-- The loop over the remaining span lengths, from any of them, with an action before each. -/
theorem foldlM_advance_after (tokens : List String) (before : m PUnit) (k : Nat) {s : Nat}
    (hs : 1 ≤ s) (hk : s + k ≤ tokens.length) :
    (List.range' (s + 1) k).foldlM (fun chart span => do before; r.advance chart span)
        (r.index.fillTo tokens s) = (do
      forM (List.range' (s + 1) k) fun span => do before; r.showSpan tokens span
      return r.index.fillTo tokens (s + k)) := by
  induction k generalizing s with
  | zero => simp only [List.range'_zero, List.foldlM_nil, List.forM_nil, pure_bind, Nat.add_zero]
  | succ k ih =>
    rw [List.range'_succ, List.foldlM_cons, advance_eq r hs (by omega)]
    simp only [bind_assoc, pure_bind, List.forM_cons, ih (s := s + 1) (by omega) (by omega)]
    rw [show s + 1 + k = s + (k + 1) by omega]

theorem foldlM_advance {tokens : List String} (k : Nat) {s : Nat} (hs : 1 ≤ s)
    (hk : s + k ≤ tokens.length) :
    (List.range' (s + 1) k).foldlM r.advance (r.index.fillTo tokens s) =
      (do forM (List.range' (s + 1) k) (r.showSpan tokens)
          return r.index.fillTo tokens (s + k)) := by
  simpa only [pure_bind] using r.foldlM_advance_after tokens (pure ⟨⟩) k hs hk

theorem fill_eq_fillTo (tokens : List String) :
    r.fill tokens = (do
      r.readTokens tokens
      forM (Chart.spans tokens.length) (r.showSpan tokens)
      return r.index.fillTo tokens tokens.length) := by
  rw [fill, begin_eq]
  simp only [bind_assoc, pure_bind, RuleIndex.size_fillTo]
  by_cases h : tokens.length = 0
  · obtain rfl := List.length_eq_zero_iff.mp h
    have hspans : Chart.spans ([] : List String).length = [] := rfl
    simp only [hspans, List.foldlM_nil, List.forM_nil, pure_bind]
    rfl
  · rw [Chart.spans, foldlM_advance r (s := 1) _ (by omega) (by omega),
      show 1 + (tokens.length - 1) = tokens.length by omega]

/-- The silent run ends with the chart of the invariant. -/
theorem index_fill (index : RuleIndex) (tokens : List String) :
    index.fill tokens = index.fillTo tokens tokens.length :=
  congrArg Id.run (index.recognizer.fill_eq_fillTo tokens)

theorem fill_eq (tokens : List String) :
    r.fill tokens = (do
      r.readTokens tokens
      forM (Chart.spans tokens.length) (r.showSpan tokens)
      return r.index.fill tokens) := by
  rw [fill_eq_fillTo, index_fill]

theorem index_recognize (index : RuleIndex) (tokens : List String) :
    index.recognize tokens =
      if tokens.isEmpty then index.derivesEmpty
      else (index.fill tokens).accepts index.start := by
  rw [RuleIndex.recognize, recognize]
  split <;> rfl

/-- The answer is the same for every observer and every order. -/
theorem recognize_eq {tokens : List String} (h : tokens ≠ []) :
    r.recognize tokens = (do
      r.readTokens tokens
      forM (Chart.spans tokens.length) (r.showSpan tokens)
      return r.index.recognize tokens) := by
  have hne : ¬ tokens.isEmpty := by rwa [List.isEmpty_iff]
  rw [recognize, if_neg hne, fill_eq, index_recognize, if_neg hne]
  simp only [bind_assoc, pure_bind]

end ChomskyChart.Recognizer
