import ChomskyChart.Proofs.Recognition.Cells
import ChomskyChart.Proofs.Recognition.Records
import ChomskyChart.Recognition.Probe

/-!
# Checkpoints of a run that can be cancelled

The flag is an action of the monad the run lives in. So it may be raised and lowered by anyone, at
any moment, also by the observer in the middle of a lookup. What counts is its value when it is
read, and that is defined by the run of someone who reads it at the same moments and goes on
whatever it says.
-/

namespace ChomskyChart.Recognizer

variable {m : Type → Type} (r : Recognizer m)

/-- The lookups of the span lengths from two up to but not including `stop`, read off the finished
chart. -/
def lookupsBelow (tokens : List String) (stop : Nat) : List (Nat × Nat) :=
  (List.range' 2 (stop - 2)).flatMap (r.spanPairs (r.index.fill tokens))

/-- An answer tells where a run has stopped, and so what it has looked up. -/
def lookupsOf (tokens : List String) : Except Cancelled Bool → List (Nat × Nat)
  | .ok _ => r.lookupsBelow tokens (tokens.length + 1)
  | .error stop => r.lookupsBelow tokens stop.span

/-- The pairs that are looked up, in order, as a record. -/
def pairLog : Record (List (Nat × Nat)) where
  onPair b c log := log ++ [(b, c)]

theorem recordBelow_pairLog (tokens : List String) (stop : Nat) :
    r.recordBelow pairLog tokens [] stop = r.lookupsBelow tokens stop := by
  have hread : r.afterTokens pairLog tokens [] = [] := by
    have hfold : tokens.foldl (fun log t => pairLog.onToken t log) [] = [] :=
      List.foldl_fixed tokens
    rw [afterTokens, hfold]
    exact ite_self _
  have hspan : r.afterSpan pairLog tokens =
      fun log span => log ++ r.spanPairs (r.index.fill tokens) span := by
    funext log span
    rw [index_fill, afterSpan]
    exact List.foldl_append_eq_append.trans (congrArg (log ++ ·) (List.flatMap_singleton' _))
  rw [recordBelow, hread, hspan, lookupsBelow, List.flatMap_eq_foldl]

variable [Monad m] (cancelled : m Bool) (tokens : List String)

/-- What a run does from the checkpoint before the first of some span lengths. -/
def goOn : List Nat → m (Except Cancelled Bool)
  | [] => return .ok (r.index.recognize tokens)
  | span :: spans => do
    if ← cancelled then
      return .error ⟨span⟩
    else
      r.showSpan tokens span
      goOn spans

theorem recognizeUnless_nil : r.recognizeUnless cancelled [] = pure (.ok r.index.derivesEmpty) :=
  rfl

/-- The flag, read before a span length by a run that went on at every checkpoint before that. -/
def flagAt (span : Nat) : m Bool := do
  let chart ← r.begin tokens
  let _ ← (List.range' 2 (span - 2)).foldlM (fun chart s => do
    let _ ← cancelled
    r.advance chart s) chart
  cancelled

/-- A checkpoint at which the run goes on, and the span length after it. -/
def pass (span : Nat) : m PUnit := do
  let _ ← cancelled
  r.showSpan tokens span

variable {tokens} [LawfulMonad m]

theorem run_advanceUnless_bind {α : Type} (chart : Chart) (span : Nat)
    (f : Chart → ExceptT Cancelled m α) :
    (r.advanceUnless cancelled chart span >>= f).run = (do
      if ← cancelled then
        return .error ⟨span⟩
      else
        let chart ← r.advance chart span
        (f chart).run) := by
  rw [advanceUnless, bind_assoc]
  change (ExceptT.lift cancelled >>= _).run = _
  rw [ExceptT.run_bind_lift]
  congr 1
  funext raised
  cases raised with
  | true => simp
  | false =>
    change (ExceptT.lift (r.advance chart span) >>= f).run = _
    rw [ExceptT.run_bind_lift]
    rfl

theorem run_foldlM_advanceUnless (k : Nat) {s : Nat} (hne : tokens ≠ []) (hs : 1 ≤ s)
    (hk : s + k = tokens.length) :
    ((List.range' (s + 1) k).foldlM (r.advanceUnless cancelled) (r.index.fillTo tokens s) >>=
        fun chart => pure (chart.accepts r.index.start)).run =
      r.goOn cancelled tokens (List.range' (s + 1) k) := by
  induction k generalizing s with
  | zero =>
    rw [List.range'_zero, List.foldlM_nil, pure_bind, goOn, RuleIndex.recognize_of_ne_nil hne,
      index_fill, ← hk]
    rfl
  | succ k ih =>
    rw [List.range'_succ, List.foldlM_cons, goOn, bind_assoc, run_advanceUnless_bind,
      advance_eq r hs (by omega)]
    simp only [bind_assoc, pure_bind, ih (s := s + 1) (by omega) (by omega)]

theorem recognizeUnless_eq_begin (hne : tokens ≠ []) :
    r.recognizeUnless cancelled tokens = (do
      let chart ← r.begin tokens
      ((Chart.spans chart.size).foldlM (r.advanceUnless cancelled) chart >>= fun chart =>
        pure (chart.accepts r.index.start)).run) := by
  rw [recognizeUnless, if_neg (by rwa [List.isEmpty_iff])]
  show (ExceptT.lift (r.begin tokens) >>= _).run = _
  rw [ExceptT.run_bind_lift]

theorem recognizeUnless_eq (hne : tokens ≠ []) :
    r.recognizeUnless cancelled tokens =
      (do r.readTokens tokens; r.goOn cancelled tokens (Chart.spans tokens.length)) := by
  have hpos := List.length_pos_iff.mpr hne
  rw [recognizeUnless_eq_begin r cancelled hne, begin_eq]
  simp only [bind_assoc, pure_bind, RuleIndex.size_fillTo]
  rw [Chart.spans, run_foldlM_advanceUnless r cancelled _ hne (Nat.le_refl 1) (by omega)]

/-- A run without a checkpoint is a run that cannot be cancelled. -/
theorem recognizeUnless_of_length_le_one (h : tokens.length ≤ 1) :
    r.recognizeUnless cancelled tokens = Except.ok <$> r.recognize tokens := by
  by_cases hne : tokens = []
  · subst hne
    rw [recognizeUnless_nil, recognize_nil, map_pure]
  · have hspans : Chart.spans tokens.length = [] := by
      rw [Chart.spans, Nat.sub_eq_zero_of_le h, List.range'_zero]
    rw [recognizeUnless_eq r cancelled hne, recognize_eq r hne, hspans, goOn]
    simp only [List.forM_nil, pure_bind, map_bind, map_pure]

/-! ### What is looked up -/

/-- The same recognizer with a log of the pairs it looks up, in order. -/
def logged : Recognizer (StateT (List (Nat × Nat)) m) where
  index := r.index
  order := r.order
  observer := {
    onToken := fun t => StateT.lift (r.observer.onToken t)
    onPair := fun b c => do
      modify (· ++ [(b, c)])
      StateT.lift (r.observer.onPair b c)
    onSpan := fun chart span => StateT.lift (r.observer.onSpan chart span) }

theorem logged_eq : r.logged = r.recorded pairLog := by
  have hlift : ∀ x : m PUnit, (StateT.lift x : StateT (List (Nat × Nat)) m PUnit) =
      (do modify fun log => log; StateT.lift x) := fun x =>
    StateT.ext fun log => (run_modify_lift (fun log => log) x log).symm
  rw [logged, recorded]
  congr 2
  · exact funext fun t => hlift (r.observer.onToken t)
  · exact funext fun chart => funext fun span => hlift (r.observer.onSpan chart span)

/-! The record of a run that can be cancelled, by any account that gives for each answer the record
with which a run comes to it. -/

section Account

variable {ω : Type} (record : Record ω) {w : ω} {account : Except Cancelled Bool → ω}
  (hok : ∀ b, account (.ok b) = r.recordBelow record tokens w (tokens.length + 1))
  (herror : ∀ s, 2 ≤ s → s ≤ tokens.length →
    account (.error ⟨s⟩) = r.recordBelow record tokens w s)

include hok herror

/-- By induction on the span lengths that are left. -/
theorem run_recorded_goOn (k : Nat) {s : Nat} (hs : 1 ≤ s) (hk : s + k = tokens.length) :
    ((r.recorded record).goOn (StateT.lift cancelled) tokens (List.range' (s + 1) k)).run
        (r.recordBelow record tokens w (s + 1)) =
      (do let answer ← r.goOn cancelled tokens (List.range' (s + 1) k)
          return (answer, account answer)) := by
  induction k generalizing s with
  | zero =>
    obtain rfl : s = tokens.length := hk
    rw [List.range'_zero, goOn, goOn, pure_bind, hok]
    rfl
  | succ k ih =>
    rw [List.range'_succ, goOn, goOn, StateT.run_bind_lift, bind_assoc]
    congr 1
    funext raised
    cases raised with
    | true =>
      simp only [if_true, StateT.run_pure, pure_bind, herror (s + 1) (by omega) (by omega)]
    | false =>
      simp only [Bool.false_eq_true, if_false, StateT.run_bind, run_recorded_showSpan, bind_assoc,
        pure_bind]
      rw [← recordBelow_succ r record (by omega)]
      simp only [ih (s := s + 1) (by omega) (by omega)]

theorem run_recorded_recognizeUnless :
    ((r.recorded record).recognizeUnless (StateT.lift cancelled) tokens).run w =
      (do let answer ← r.recognizeUnless cancelled tokens
          return (answer, account answer)) := by
  by_cases hne : tokens = []
  · subst hne
    rw [recognizeUnless_nil, recognizeUnless_nil, pure_bind, hok]
    rfl
  · have hpos := List.length_pos_iff.mpr hne
    have hrun := r.run_recorded_goOn cancelled record hok herror (tokens.length - 1)
      (Nat.le_refl 1) (show 1 + (tokens.length - 1) = tokens.length by omega)
    rw [recognizeUnless_eq _ _ hne, recognizeUnless_eq _ _ hne, StateT.run_bind,
      run_recorded_readTokens]
    simp only [bind_assoc, pure_bind]
    congr 1
    funext _
    exact hrun

end Account

/-- A run that can be cancelled has looked up exactly what its answer tells. -/
theorem run_logged_recognizeUnless :
    (r.logged.recognizeUnless (StateT.lift cancelled) tokens).run [] =
      (do let answer ← r.recognizeUnless cancelled tokens
          return (answer, r.lookupsOf tokens answer)) := by
  rw [logged_eq]
  refine r.run_recorded_recognizeUnless cancelled pairLog (fun _ => ?_) fun s _ _ => ?_
  · exact (r.recordBelow_pairLog tokens (tokens.length + 1)).symm
  · exact (r.recordBelow_pairLog tokens s).symm

/-- A run that cannot be cancelled looks up all span lengths. -/
theorem run_logged_recognize :
    (r.logged.recognize tokens).run [] =
      (do let answer ← r.recognize tokens
          return (answer, r.lookupsBelow tokens (tokens.length + 1))) := by
  rw [logged_eq, run_recorded_recognize, recordBelow_pairLog]

/-! ### Where a run stops -/

theorem flagAt_eq {span : Nat} (h : 2 ≤ span) (hn : span ≤ tokens.length) :
    r.flagAt cancelled tokens span = (do
      r.readTokens tokens
      forM (List.range' 2 (span - 2)) (r.pass cancelled tokens)
      cancelled) := by
  have hloop := r.foldlM_advance_after tokens (do let _ ← cancelled; return ⟨⟩)
    (span - 2) (Nat.le_refl 1) (by omega)
  simp only [bind_assoc, pure_bind] at hloop
  rw [flagAt, begin_eq]
  simp only [bind_assoc, pure_bind, hloop]
  rfl

section State

variable {σ : Type} (r : Recognizer (StateM σ)) (cancelled : StateM σ Bool)

theorem run_goOn_cons (span : Nat) (spans : List Nat) (w : σ) :
    (r.goOn cancelled tokens (span :: spans)).run w =
      if (cancelled.run w).1 then (.error ⟨span⟩, (cancelled.run w).2)
      else (r.goOn cancelled tokens spans).run ((r.pass cancelled tokens span).run w).2 := by
  rw [goOn, StateT.run_bind]
  change (if (cancelled.run w).1 then _ else _ : StateM σ _).run (cancelled.run w).2 = _
  split <;> rfl

/-- The flag as it is read after some passed checkpoints. -/
def flagAfter (tokens : List String) (passed : List Nat) (w : σ) : Bool :=
  (cancelled.run ((forM passed (r.pass cancelled tokens) : StateM σ PUnit).run w).2).1

/-- The run stops at the first checkpoint that finds the flag raised. -/
theorem run_goOn_of_raised {before : List Nat} {span : Nat} (after : List Nat) {w : σ}
    (hbefore : ∀ passed s rest, before = passed ++ s :: rest →
      r.flagAfter cancelled tokens passed w = false)
    (hspan : r.flagAfter cancelled tokens before w = true) :
    ((r.goOn cancelled tokens (before ++ span :: after)).run w).1 = .error ⟨span⟩ := by
  induction before generalizing w with
  | nil =>
    have hfirst : (cancelled.run w).1 = true := hspan
    rw [List.nil_append, run_goOn_cons, if_pos hfirst]
  | cons s before ih =>
    have hfirst : (cancelled.run w).1 = false := hbefore [] s before rfl
    rw [List.cons_append, run_goOn_cons, hfirst]
    exact ih (fun passed s' rest he => hbefore (s :: passed) s' rest (by rw [he]; rfl)) hspan

/-- The run is completed when no checkpoint finds the flag raised. -/
theorem run_goOn_of_not_raised {spans : List Nat} {w : σ}
    (h : ∀ passed s rest, spans = passed ++ s :: rest →
      r.flagAfter cancelled tokens passed w = false) :
    ((r.goOn cancelled tokens spans).run w).1 = .ok (r.index.recognize tokens) := by
  induction spans generalizing w with
  | nil => rfl
  | cons s spans ih =>
    have hfirst : (cancelled.run w).1 = false := h [] s spans rfl
    rw [run_goOn_cons, hfirst]
    exact ih fun passed s' rest he => h (s :: passed) s' rest (by rw [he]; rfl)

theorem run_flagAt {span : Nat} (h : 2 ≤ span) (hn : span ≤ tokens.length) (w : σ) :
    ((r.flagAt cancelled tokens span).run w).1 =
      r.flagAfter cancelled tokens (List.range' 2 (span - 2))
        ((r.readTokens tokens).run w).2 := by
  rw [flagAt_eq r cancelled h hn]
  rfl

theorem run_recognizeUnless (hne : tokens ≠ []) (w : σ) :
    ((r.recognizeUnless cancelled tokens).run w).1 =
      ((r.goOn cancelled tokens (Chart.spans tokens.length)).run
        ((r.readTokens tokens).run w).2).1 := by
  rw [recognizeUnless_eq r cancelled hne]
  rfl

/-- The span lengths before one of a loop that starts at two. -/
theorem passed_eq {k span : Nat} {passed rest : List Nat}
    (he : List.range' 2 k = passed ++ span :: rest) :
    passed = List.range' 2 (span - 2) ∧ 2 ≤ span ∧ span < 2 + k := by
  obtain ⟨j, hj, rfl, htail⟩ := List.range'_eq_append_iff.mp he
  obtain ⟨rfl, hpos, -⟩ := List.range'_eq_cons_iff.mp htail.symm
  rw [show 2 + j * 1 - 2 = j by omega]
  exact ⟨rfl, by omega, by omega⟩

theorem spans_split {n span : Nat} (h : 2 ≤ span) (hn : span ≤ n) :
    Chart.spans n = List.range' 2 (span - 2) ++ span :: List.range' (span + 1) (n - span) := by
  have htail : span :: List.range' (span + 1) (n - span) = List.range' span (n - span + 1) :=
    List.range'_succ.symm
  have hcut := List.range'_append_1 (s := 2) (m := span - 2) (n := n - span + 1)
  rw [show 2 + (span - 2) = span by omega,
    show span - 2 + (n - span + 1) = n - 1 by omega] at hcut
  rw [htail, hcut, Chart.spans]

theorem run_recognize (tokens : List String) (w : σ) :
    ((r.recognize tokens).run w).1 = r.index.recognize tokens := by
  by_cases hne : tokens = []
  · subst hne
    rfl
  · rw [recognize_eq r hne]
    rfl

/-- Answers of a run that can be cancelled, by the first checkpoint that finds the flag raised. -/
theorem run_recognizeUnless_of_raised {span : Nat} (h : 2 ≤ span) (hn : span ≤ tokens.length)
    {w : σ} (hbefore : ∀ s, 2 ≤ s → s < span → ((r.flagAt cancelled tokens s).run w).1 = false)
    (hspan : ((r.flagAt cancelled tokens span).run w).1 = true) :
    ((r.recognizeUnless cancelled tokens).run w).1 = .error ⟨span⟩ := by
  have hne : tokens ≠ [] := List.ne_nil_of_length_pos (by omega)
  rw [run_recognizeUnless r cancelled hne, spans_split h hn]
  refine run_goOn_of_raised r cancelled _ (fun passed s rest he => ?_) ?_
  · obtain ⟨rfl, hs, hlt⟩ := passed_eq he
    rw [← run_flagAt r cancelled hs (by omega)]
    exact hbefore s hs (by omega)
  · rw [← run_flagAt r cancelled h hn]
    exact hspan

theorem run_recognizeUnless_of_not_raised {w : σ}
    (h : ∀ s, 2 ≤ s → s ≤ tokens.length → ((r.flagAt cancelled tokens s).run w).1 = false) :
    ((r.recognizeUnless cancelled tokens).run w).1 = .ok (r.index.recognize tokens) := by
  by_cases hne : tokens = []
  · subst hne
    rfl
  · rw [run_recognizeUnless r cancelled hne]
    refine run_goOn_of_not_raised r cancelled fun passed s rest he => ?_
    obtain ⟨rfl, hs, hlt⟩ := passed_eq he
    rw [← run_flagAt r cancelled hs (by omega)]
    exact h s hs (by omega)

/-- The log of a run is read off its answer. -/
theorem run_run_logged (w : σ) :
    (((r.logged.recognizeUnless (StateT.lift cancelled) tokens).run []).run w).1 =
      (((r.recognizeUnless cancelled tokens).run w).1,
        r.lookupsOf tokens ((r.recognizeUnless cancelled tokens).run w).1) := by
  rw [run_logged_recognizeUnless]
  rfl

end State

/-- Recognition stops at the least span length before which the flag is found raised, after the
lookups of the shorter ones. If there is none it answers as without a flag, after all lookups. A
single token has no checkpoint at all. -/
theorem recognizeUnless_first_raised {σ : Type} (r : Recognizer (StateM σ))
    (cancelled : StateM σ Bool) (tokens : List String) (w : σ) :
    let raised := fun s => ((r.flagAt cancelled tokens s).run w).1
    let answer := ((r.recognizeUnless cancelled tokens).run w).1
    let log := (((r.logged.recognizeUnless (StateT.lift cancelled) tokens).run []).run w).1
    (∀ s, 2 ≤ s → s ≤ tokens.length → raised s = true →
      (∀ s', 2 ≤ s' → s' < s → raised s' = false) →
      answer = .error ⟨s⟩ ∧ log = (answer, r.lookupsBelow tokens s)) ∧
    ((∀ s, 2 ≤ s → s ≤ tokens.length → raised s = false) →
      answer = .ok ((r.recognize tokens).run w).1 ∧
        log = (answer, r.lookupsBelow tokens (tokens.length + 1))) ∧
    (tokens.length ≤ 1 → r.recognizeUnless cancelled tokens = Except.ok <$> r.recognize tokens) ∧
    (∀ w', ((r.recognize tokens).run w').1 = r.index.recognize tokens) ∧
    (((r.logged.recognize tokens).run []).run w).1 =
      (r.index.recognize tokens, r.lookupsBelow tokens (tokens.length + 1)) := by
  intro raised answer log
  have hlog : log = (answer, r.lookupsOf tokens answer) := run_run_logged r cancelled w
  refine ⟨fun s hs hn hraised hbefore => ?_, fun h => ?_, ?_, run_recognize r tokens, ?_⟩
  · have hanswer : answer = .error ⟨s⟩ :=
      run_recognizeUnless_of_raised r cancelled hs hn hbefore hraised
    exact ⟨hanswer, by rw [hlog, hanswer]; rfl⟩
  · have hanswer : answer = .ok (r.index.recognize tokens) :=
      run_recognizeUnless_of_not_raised r cancelled h
    exact ⟨by rw [run_recognize, hanswer], by rw [hlog, hanswer]; rfl⟩
  · exact recognizeUnless_of_length_le_one r cancelled
  · rw [run_logged_recognize, ← run_recognize r tokens w]
    rfl

/-- A probe that raises the flag at the first lookup, which belongs to span length two; one that
raises no flag; and a flag that is up from the start, over a single token. -/
theorem recognizeUnless_first_raised_g1 :
    (Probe.recognizeUnless Sample.g1.grammar.index 1 false ["a", "a", "a", "b"]).1 = .error ⟨3⟩ ∧
    (Probe.recognizeUnless Sample.g1.grammar.index 0 false ["a", "a", "a", "b"]).1 =
      .ok (Sample.g1.grammar.recognize ["a", "a", "a", "b"]) ∧
    (Probe.recognizeUnless Sample.g1.grammar.index 0 true ["a"]).1 =
      .ok (Sample.g1.grammar.recognize ["a"]) := by
  refine ⟨?_, ?_, ?_⟩
  · obtain ⟨hraised, -⟩ := recognizeUnless_first_raised (Probe.recognizer Sample.g1.grammar.index 1)
      (return (← get).raised) ["a", "a", "a", "b"] { raised := false }
    refine (hraised 3 (by decide) (by decide) (by decide +kernel) fun s hs hlt => ?_).1
    obtain rfl : s = 2 := by omega
    decide +kernel
  · obtain ⟨-, hdown, -, hanswer, -⟩ := recognizeUnless_first_raised
      (Probe.recognizer Sample.g1.grammar.index 0) (return (← get).raised) ["a", "a", "a", "b"]
      { raised := false }
    refine (hdown fun s hs hn => ?_).1.trans (congrArg Except.ok (hanswer _))
    have hcases : s = 2 ∨ s = 3 ∨ s = 4 := by
      change s ≤ 4 at hn
      omega
    rcases hcases with rfl | rfl | rfl <;> decide +kernel
  · obtain ⟨-, -, hshort, hanswer, -⟩ := recognizeUnless_first_raised
      (Probe.recognizer Sample.g1.grammar.index 0) (return (← get).raised) ["a"]
      { raised := true }
    have hrun := congrArg (fun run => (run.run { raised := true }).1) (hshort (by decide))
    exact hrun.trans (congrArg Except.ok (hanswer { raised := true }))

end ChomskyChart.Recognizer
