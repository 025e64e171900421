import ChomskyChart.IndexSet

/-!
# Sets of indices by key

A `Lookup` gives a set of indices for every key, the empty set for almost all of them. It is made
from pairs of a key and an index, in any order and with any repetition. It serves as the inverted
index from rule bodies to left sides.
-/

namespace ChomskyChart

structure Lookup (κ : Type) where
  entries : List (κ × IndexSet) := []

namespace Lookup

variable {κ : Type} [DecidableEq κ]

instance : EmptyCollection (Lookup κ) := ⟨{}⟩

def getIn (key : κ) : List (κ × IndexSet) → IndexSet
  | [] => ∅
  | (k, s) :: rest => if k = key then s else getIn key rest

def get (l : Lookup κ) (key : κ) : IndexSet :=
  getIn key l.entries

def insertIn (key : κ) (a : Nat) : List (κ × IndexSet) → List (κ × IndexSet)
  | [] => [(key, IndexSet.insert ∅ a)]
  | (k, s) :: rest => if k = key then (k, s.insert a) :: rest else (k, s) :: insertIn key a rest

/-- Add an index to the set at a key. -/
def insert (l : Lookup κ) (key : κ) (a : Nat) : Lookup κ :=
  ⟨insertIn key a l.entries⟩

def ofPairs (pairs : List (κ × Nat)) : Lookup κ :=
  pairs.foldl (fun l p => l.insert p.1 p.2) ∅

@[simp]
theorem get_empty (key : κ) : (∅ : Lookup κ).get key = ∅ := rfl

theorem getIn_insertIn (key other : κ) (a : Nat) (es : List (κ × IndexSet)) :
    getIn other (insertIn key a es) =
      if other = key then (getIn key es).insert a else getIn other es := by
  fun_induction insertIn key a es with
  | case1 =>
    by_cases h : other = key
    · simp [getIn, h]
    · simp [getIn, h, Ne.symm h]
  | case2 s rest =>
    by_cases h : other = key
    · simp [getIn, h]
    · simp [getIn, h, Ne.symm h]
  | case3 k s rest hk ih =>
    by_cases h : k = other
    · subst h
      simp [getIn, hk]
    · simp [getIn, h, hk, ih]

theorem get_insert (l : Lookup κ) (key other : κ) (a : Nat) :
    (l.insert key a).get other = if other = key then (l.get key).insert a else l.get other :=
  getIn_insertIn key other a l.entries

theorem mem_get_foldl {pairs : List (κ × Nat)} {l : Lookup κ} {key : κ} {x : Nat} :
    x ∈ (pairs.foldl (fun l p => l.insert p.1 p.2) l).get key ↔
      (key, x) ∈ pairs ∨ x ∈ l.get key := by
  induction pairs generalizing l with
  | nil => simp
  | cons p pairs ih =>
    obtain ⟨k, a⟩ := p
    rw [List.foldl_cons, ih, get_insert, List.mem_cons]
    by_cases h : key = k
    · subst h
      simp [or_assoc, or_left_comm]
    · simp [h]

@[simp]
theorem mem_get_ofPairs {pairs : List (κ × Nat)} {key : κ} {x : Nat} :
    x ∈ (ofPairs pairs).get key ↔ (key, x) ∈ pairs := by
  simp [ofPairs, mem_get_foldl]

end Lookup

end ChomskyChart
