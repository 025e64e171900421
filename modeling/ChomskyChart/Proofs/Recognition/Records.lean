import ChomskyChart.Proofs.Recognition.Lookups

/-!
# Records of a run

An observer may keep a record of what they are told and pass everything on to another one. Whoever
keeps it, the run is the one that it was, and the record can be computed in advance: its changes
follow the list of lookups, which is read off the finished chart.
-/

namespace ChomskyChart

/-- How a record changes with each thing that an observer is told. -/
structure Record (ω : Type) where
  onToken : String → ω → ω := fun _ w => w
  onPair : Nat → Nat → ω → ω := fun _ _ w => w
  onSpan : Chart → Nat → ω → ω := fun _ _ w => w

namespace Recognizer

variable {m : Type → Type} {ω : Type} (r : Recognizer m) (record : Record ω) (tokens : List String)

/-- The record when the tokens are read and the diagonal is filled. -/
def afterTokens (w : ω) : ω :=
  let w := tokens.foldl (fun w t => record.onToken t w) w
  if !(r.index.fillTo tokens 1).isEmpty then record.onSpan (r.index.fillTo tokens 1) 1 w else w

/-- The record when one more span length is filled. -/
def afterSpan (w : ω) (span : Nat) : ω :=
  record.onSpan (r.index.fillTo tokens span) span
    ((r.spanPairs (r.index.fillTo tokens tokens.length) span).foldl
      (fun w p => record.onPair p.1 p.2 w) w)

/-- The record when the span lengths below one are filled. -/
def recordBelow (w : ω) (stop : Nat) : ω :=
  (List.range' 2 (stop - 2)).foldl (r.afterSpan record tokens) (r.afterTokens record tokens w)

variable {tokens}

theorem recordBelow_succ {w : ω} {span : Nat} (hs : 2 ≤ span) :
    r.recordBelow record tokens w (span + 1) =
      r.afterSpan record tokens (r.recordBelow record tokens w span) span := by
  rw [recordBelow, recordBelow, show span + 1 - 2 = span - 2 + 1 by omega, List.range'_concat,
    List.foldl_append, show 2 + 1 * (span - 2) = span by omega]
  rfl

variable [Monad m]

/-- The same recognizer with a record of what its observer is told. -/
def recorded : Recognizer (StateT ω m) where
  index := r.index
  order := r.order
  observer := {
    onToken := fun t => do
      modify (record.onToken t)
      StateT.lift (r.observer.onToken t)
    onPair := fun b c => do
      modify (record.onPair b c)
      StateT.lift (r.observer.onPair b c)
    onSpan := fun chart span => do
      modify (record.onSpan chart span)
      StateT.lift (r.observer.onSpan chart span) }

variable [LawfulMonad m]

/-- A loop over actions of which each changes the state in its own way, whatever else it does. -/
theorem run_forM_lift {α : Type} {f : α → StateT ω m PUnit} {g : α → m PUnit} (step : ω → α → ω)
    (h : ∀ x w, (f x).run w = (do g x; return (⟨⟩, step w x))) (xs : List α) (w : ω) :
    StateT.run (forM xs f) w = (do forM xs g; return (⟨⟩, xs.foldl step w)) := by
  induction xs generalizing w with
  | nil => simp only [List.forM_nil, StateT.run_pure, pure_bind, List.foldl_nil]
  | cons x xs ih =>
    simp only [List.forM_cons, StateT.run_bind, h, bind_assoc, pure_bind, ih, List.foldl_cons]

/-- An action that changes the record and then is the one it was. -/
theorem run_modify_lift (change : ω → ω) (x : m PUnit) (w : ω) :
    (do modify change; StateT.lift x : StateT ω m PUnit).run w =
      (do x; return (⟨⟩, change w)) := by
  rw [StateT.run_bind, StateT.run_modify, pure_bind]
  rfl

theorem run_recorded_onToken (t : String) (w : ω) :
    ((r.recorded record).observer.onToken t).run w =
      (do r.observer.onToken t; return (⟨⟩, record.onToken t w)) :=
  run_modify_lift _ _ w

theorem run_recorded_onPair (b c : Nat) (w : ω) :
    ((r.recorded record).observer.onPair b c).run w =
      (do r.observer.onPair b c; return (⟨⟩, record.onPair b c w)) :=
  run_modify_lift _ _ w

theorem run_recorded_onSpan (chart : Chart) (span : Nat) (w : ω) :
    ((r.recorded record).observer.onSpan chart span).run w =
      (do r.observer.onSpan chart span; return (⟨⟩, record.onSpan chart span w)) :=
  run_modify_lift _ _ w

theorem run_recorded_lookUp (ps : List (Nat × Nat)) (w : ω) :
    ((r.recorded record).lookUp ps).run w =
      (do r.lookUp ps; return (⟨⟩, ps.foldl (fun w p => record.onPair p.1 p.2 w) w)) :=
  run_forM_lift (fun w p => record.onPair p.1 p.2 w)
    (fun p w => r.run_recorded_onPair record p.1 p.2 w) ps w

theorem run_recorded_readTokens (w : ω) :
    ((r.recorded record).readTokens tokens).run w =
      (do r.readTokens tokens; return (⟨⟩, r.afterTokens record tokens w)) := by
  have hindex : (r.recorded record).index = r.index := rfl
  rw [readTokens, readTokens, StateT.run_bind,
    run_forM_lift (fun w t => record.onToken t w) (r.run_recorded_onToken record), bind_assoc,
    bind_assoc, hindex]
  congr 1
  funext _
  rw [pure_bind, afterTokens]
  split
  · rw [run_recorded_onSpan]
  · rw [StateT.run_pure, pure_bind]

theorem run_recorded_showSpan (span : Nat) (w : ω) :
    ((r.recorded record).showSpan tokens span).run w =
      (do r.showSpan tokens span; return (⟨⟩, r.afterSpan record tokens w span)) := by
  rw [showSpan, showSpan, StateT.run_bind, run_recorded_lookUp, bind_assoc, bind_assoc]
  simp only [pure_bind, run_recorded_onSpan]
  rfl

theorem run_recorded_forM_showSpan (spans : List Nat) (w : ω) :
    StateT.run (forM spans ((r.recorded record).showSpan tokens)) w =
      (do forM spans (r.showSpan tokens)
          return (⟨⟩, spans.foldl (r.afterSpan record tokens) w)) :=
  run_forM_lift _ (fun span w => r.run_recorded_showSpan record span w) spans w

/-- The record of recognition. Without tokens nothing is recorded. -/
theorem run_recorded_recognize (w : ω) :
    ((r.recorded record).recognize tokens).run w =
      (do let answer ← r.recognize tokens
          return (answer, r.recordBelow record tokens w (tokens.length + 1))) := by
  by_cases hne : tokens = []
  · subst hne
    rw [recognize_nil, recognize_nil, pure_bind]
    rfl
  · rw [recognize_eq _ hne, recognize_eq _ hne]
    simp only [StateT.run_bind, run_recorded_readTokens, run_recorded_forM_showSpan, bind_assoc,
      pure_bind]
    rfl

end Recognizer

end ChomskyChart
