/-!
# Finite sets of symbol indices

A set is kept as the strictly ascending list of its members. So equality of sets is equality of
lists, and the list is the order in which a set is printed.
-/

namespace ChomskyChart

structure IndexSet where
  toList : List Nat
  ascending : toList.Pairwise (· < ·)
  deriving DecidableEq

namespace IndexSet

instance : Membership Nat IndexSet := ⟨fun s a => a ∈ s.toList⟩

instance : EmptyCollection IndexSet := ⟨⟨[], .nil⟩⟩

instance : Inhabited IndexSet := ⟨∅⟩

instance (a : Nat) (s : IndexSet) : Decidable (a ∈ s) :=
  inferInstanceAs (Decidable (a ∈ s.toList))

@[simp]
theorem mem_toList {a : Nat} {s : IndexSet} : a ∈ s.toList ↔ a ∈ s := Iff.rfl

@[simp]
theorem toList_empty : (∅ : IndexSet).toList = [] := rfl

@[simp]
theorem not_mem_empty (a : Nat) : a ∉ (∅ : IndexSet) := List.not_mem_nil

/-- Put a number at its place in an ascending list, unless it is there already. -/
def insertAscending (a : Nat) : List Nat → List Nat
  | [] => [a]
  | b :: bs => if a < b then a :: b :: bs else if a = b then b :: bs else b :: insertAscending a bs

theorem mem_insertAscending {a x : Nat} {bs : List Nat} :
    x ∈ insertAscending a bs ↔ x = a ∨ x ∈ bs := by
  fun_induction insertAscending a bs with
  | case1 => simp
  | case2 => simp
  | case3 => simp
  | case4 b bs _ _ ih => simp [ih, or_left_comm]

theorem pairwise_insertAscending {a : Nat} {bs : List Nat} (h : bs.Pairwise (· < ·)) :
    (insertAscending a bs).Pairwise (· < ·) := by
  fun_induction insertAscending a bs with
  | case1 => simp
  | case2 b bs hab =>
    refine List.pairwise_cons.mpr ⟨fun x hx => ?_, h⟩
    rcases List.mem_cons.mp hx with rfl | hx
    · exact hab
    · exact Nat.lt_trans hab ((List.pairwise_cons.mp h).1 x hx)
  | case3 => exact h
  | case4 b bs hab hne ih =>
    obtain ⟨hb, hbs⟩ := List.pairwise_cons.mp h
    refine List.pairwise_cons.mpr ⟨fun x hx => ?_, ih hbs⟩
    rcases mem_insertAscending.mp hx with rfl | hx
    · omega
    · exact hb x hx

def insert (s : IndexSet) (a : Nat) : IndexSet :=
  ⟨insertAscending a s.toList, pairwise_insertAscending s.ascending⟩

@[simp]
theorem mem_insert {s : IndexSet} {a x : Nat} : x ∈ s.insert a ↔ x = a ∨ x ∈ s :=
  mem_insertAscending

/-- The set with all members of a list added. -/
def insertMany (s : IndexSet) (as : List Nat) : IndexSet :=
  as.foldl insert s

@[simp]
theorem mem_insertMany {s : IndexSet} {as : List Nat} {x : Nat} :
    x ∈ s.insertMany as ↔ x ∈ as ∨ x ∈ s := by
  induction as generalizing s with
  | nil => simp [insertMany]
  | cons a as ih =>
    have h := ih (s := s.insert a)
    simp only [insertMany, List.foldl_cons] at h ⊢
    rw [h, mem_insert, List.mem_cons, or_left_comm, or_assoc]

def ofList (as : List Nat) : IndexSet :=
  insertMany ∅ as

@[simp]
theorem mem_ofList {as : List Nat} {x : Nat} : x ∈ ofList as ↔ x ∈ as := by
  simp [ofList]

instance : Union IndexSet := ⟨fun s t => s.insertMany t.toList⟩

@[simp]
theorem mem_union {s t : IndexSet} {x : Nat} : x ∈ s ∪ t ↔ x ∈ s ∨ x ∈ t := by
  change x ∈ s.insertMany t.toList ↔ _
  rw [mem_insertMany, mem_toList, or_comm]

def isEmpty (s : IndexSet) : Bool :=
  s.toList.isEmpty

def card (s : IndexSet) : Nat :=
  s.toList.length

/-- Ascending lists with the same members are equal. -/
theorem eq_of_pairwise_lt {as bs : List Nat} (ha : as.Pairwise (· < ·)) (hb : bs.Pairwise (· < ·))
    (h : ∀ x, x ∈ as ↔ x ∈ bs) : as = bs := by
  induction as generalizing bs with
  | nil =>
    cases bs with
    | nil => rfl
    | cons b bs => exact absurd ((h b).mpr List.mem_cons_self) List.not_mem_nil
  | cons a as ih =>
    cases bs with
    | nil => exact absurd ((h a).mp List.mem_cons_self) List.not_mem_nil
    | cons b bs =>
      obtain ⟨ha₁, ha₂⟩ := List.pairwise_cons.mp ha
      obtain ⟨hb₁, hb₂⟩ := List.pairwise_cons.mp hb
      have hab : a = b := by
        rcases List.mem_cons.mp ((h a).mp List.mem_cons_self) with hab | hab
        · exact hab
        · rcases List.mem_cons.mp ((h b).mpr List.mem_cons_self) with hba | hba
          · exact hba.symm
          · exact absurd (Nat.lt_trans (hb₁ a hab) (ha₁ b hba)) (Nat.lt_irrefl b)
      subst hab
      congr 1
      refine ih ha₂ hb₂ fun x => ?_
      have hx := h x
      simp only [List.mem_cons] at hx
      constructor
      · intro hxa
        exact (hx.mp (.inr hxa)).resolve_left fun e => absurd (e ▸ ha₁ x hxa) (Nat.lt_irrefl _)
      · intro hxb
        exact (hx.mpr (.inr hxb)).resolve_left fun e => absurd (e ▸ hb₁ x hxb) (Nat.lt_irrefl _)

@[ext]
theorem ext {s t : IndexSet} (h : ∀ x, x ∈ s ↔ x ∈ t) : s = t := by
  cases s with
  | mk as ha =>
    cases t with
    | mk bs hb =>
      congr 1
      exact eq_of_pairwise_lt ha hb h

end IndexSet

end ChomskyChart
