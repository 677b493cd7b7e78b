/-!
# References to schema elements

A reference names an element of some schema by the number of the schema and the index of the element
in its table.  References are ordered by schema first and index second.

* `Ref.insert`, `Ref.canonical` — strictly increasing lists, the canonical form of a finite set of
  references.
* `Ref.canonical_eq_iff` — two lists have the same canonical form exactly when they have the same
  members.
-/

set_option autoImplicit false

namespace Hypercube

/-- An element of a schema: the schema's number, and the element's index in its table. -/
structure Ref where
  schema : Nat
  index : Nat
deriving DecidableEq, Repr

namespace Ref

instance : Ord Ref where
  compare a b := (compare a.schema b.schema).then (compare a.index b.index)

/-- Order by schema first and index second. -/
def Before (a b : Ref) : Prop :=
  a.schema < b.schema ∨ a.schema = b.schema ∧ a.index < b.index

instance (a b : Ref) : Decidable (Before a b) :=
  inferInstanceAs (Decidable (_ ∨ _))

/-- Add a reference to an increasing list, unless it is there already. -/
def insert (r : Ref) : List Ref → List Ref
  | [] => [r]
  | x :: xs =>
    if r = x then x :: xs
    else if Before r x then r :: x :: xs
    else x :: insert r xs

/-- The increasing list, without repeats, of the references of a list. -/
def canonical (rs : List Ref) : List Ref :=
  rs.foldr insert []

/-- Strictly increasing. -/
def Increasing (rs : List Ref) : Prop :=
  rs.Pairwise Before

instance (rs : List Ref) : Decidable (Increasing rs) :=
  inferInstanceAs (Decidable (List.Pairwise _ _))

/-! ## The order -/

theorem before_irrefl (a : Ref) : ¬ Before a a := by
  unfold Before
  omega

theorem before_trans {a b c : Ref} (h₁ : Before a b) (h₂ : Before b c) : Before a c := by
  unfold Before at *
  omega

theorem before_or_eq_or_before (a b : Ref) : Before a b ∨ a = b ∨ Before b a := by
  obtain ⟨s, i⟩ := a
  obtain ⟨t, j⟩ := b
  simp only [Before, mk.injEq]
  omega

theorem ne_of_before {a b : Ref} (h : Before a b) : a ≠ b := by
  rintro rfl
  exact before_irrefl a h

/-! ## Members of canonical lists -/

@[simp] theorem mem_insert {r x : Ref} {xs : List Ref} : r ∈ insert x xs ↔ r = x ∨ r ∈ xs := by
  induction xs with
  | nil => simp [insert]
  | cons y ys ih =>
    unfold insert
    split
    · rename_i h; subst h; simp
    · split
      · simp
      · simp only [List.mem_cons, ih]
        constructor
        · rintro (h | h | h) <;> simp [h]
        · rintro (h | h | h) <;> simp [h]

@[simp] theorem mem_canonical {r : Ref} {rs : List Ref} : r ∈ canonical rs ↔ r ∈ rs := by
  induction rs with
  | nil => simp [canonical]
  | cons x xs ih =>
    show r ∈ insert x (canonical xs) ↔ _
    rw [mem_insert, ih, List.mem_cons]

/-! ## Canonical lists are increasing -/

theorem increasing_cons {r : Ref} {rs : List Ref} :
    Increasing (r :: rs) ↔ (∀ x ∈ rs, Before r x) ∧ Increasing rs :=
  List.pairwise_cons

theorem increasing_insert {r : Ref} {rs : List Ref} (h : Increasing rs) :
    Increasing (insert r rs) := by
  induction rs with
  | nil => simp [insert, Increasing]
  | cons x xs ih =>
    obtain ⟨hx, hxs⟩ := increasing_cons.1 h
    unfold insert
    split
    · exact h
    · rename_i hne
      split
      · rename_i hlt
        refine increasing_cons.2 ⟨fun y hy => ?_, h⟩
        rcases List.mem_cons.1 hy with rfl | hy
        · exact hlt
        · exact before_trans hlt (hx y hy)
      · rename_i hnlt
        refine increasing_cons.2 ⟨fun y hy => ?_, ih hxs⟩
        rcases mem_insert.1 hy with rfl | hy
        · rcases before_or_eq_or_before y x with h' | h' | h'
          · exact absurd h' hnlt
          · exact absurd h' hne
          · exact h'
        · exact hx y hy

theorem increasing_canonical (rs : List Ref) : Increasing (canonical rs) := by
  induction rs with
  | nil => exact List.Pairwise.nil
  | cons x xs ih => exact increasing_insert ih

/-- An increasing list is determined by its members. -/
theorem eq_of_increasing {as bs : List Ref} (ha : Increasing as) (hb : Increasing bs)
    (h : ∀ r, r ∈ as ↔ r ∈ bs) : as = bs := by
  induction as generalizing bs with
  | nil =>
    cases bs with
    | nil => rfl
    | cons b bs => simpa using h b
  | cons a as ih =>
    cases bs with
    | nil => simpa using h a
    | cons b bs =>
      obtain ⟨ha₁, ha₂⟩ := increasing_cons.1 ha
      obtain ⟨hb₁, hb₂⟩ := increasing_cons.1 hb
      have hab : a = b := by
        rcases List.mem_cons.1 ((h a).1 (by simp)) with h₁ | h₁
        · exact h₁
        · rcases List.mem_cons.1 ((h b).2 (by simp)) with h₂ | h₂
          · exact h₂.symm
          · exact absurd (before_trans (ha₁ b h₂) (hb₁ a h₁)) (before_irrefl a)
      subst hab
      refine congrArg (a :: ·) (ih ha₂ hb₂ fun r => ⟨fun hr => ?_, fun hr => ?_⟩)
      · rcases List.mem_cons.1 ((h r).1 (List.mem_cons_of_mem a hr)) with h₁ | h₁
        · exact absurd h₁.symm (ne_of_before (ha₁ r hr))
        · exact h₁
      · rcases List.mem_cons.1 ((h r).2 (List.mem_cons_of_mem a hr)) with h₁ | h₁
        · exact absurd h₁.symm (ne_of_before (hb₁ r hr))
        · exact h₁

/-- Lists have the same canonical form exactly when they have the same members. -/
theorem canonical_eq_iff {as bs : List Ref} :
    canonical as = canonical bs ↔ ∀ r, r ∈ as ↔ r ∈ bs := by
  constructor
  · intro h r
    have hr : r ∈ canonical as ↔ r ∈ canonical bs := by rw [h]
    rwa [mem_canonical, mem_canonical] at hr
  · intro h
    exact eq_of_increasing (increasing_canonical as) (increasing_canonical bs) fun r => by
      rw [mem_canonical, mem_canonical, h r]

theorem canonical_append_comm (as bs : List Ref) : canonical (as ++ bs) = canonical (bs ++ as) := by
  rw [canonical_eq_iff]
  intro r
  rw [List.mem_append, List.mem_append, or_comm]

/-- An increasing list is its own canonical form. -/
theorem canonical_of_increasing {rs : List Ref} (h : Increasing rs) : canonical rs = rs :=
  eq_of_increasing (increasing_canonical rs) h fun _ => mem_canonical

end Ref

end Hypercube
