import Hypercube.Unify.Atom

/-!
# Shared paths and the kinds that remain

Two bindings have in common the longest path with which both start.  It is their greatest lower
bound in the order of prefixes, which is all that later proofs need to know about it.

* `Binding.shared_prefix_left`, `Binding.prefix_shared` — the shared path is a lower bound, and the
  greatest one.
* `Metadata.sharedKind_depth` — the depth of the kind that remains for two bound types.
* `Metadata.common?_cases` — the three ways in which two metadata types have a common type.
* `Metadata.Covers`, `Metadata.covers_of_common?`, `Metadata.common?_of_covers` — a common type
  covers both of its sides, and a type that covers another is what the two have in common.
-/

set_option autoImplicit false

namespace Hypercube

/-! ## Kinds -/

namespace Kind

theorem depth_le_three (k : Kind) : k.depth ≤ 3 := by
  cases k <;> decide

theorem ofDepth?_eq_some_iff {n : Nat} {k : Kind} : ofDepth? n = some k ↔ k.depth = n := by
  constructor
  · intro h
    unfold ofDepth? at h
    split at h <;> cases h <;> rfl
  · rintro rfl
    exact ofDepth?_depth k

theorem exists_depth {n : Nat} (h : n ≤ 3) : ∃ k : Kind, k.depth = n :=
  match n, h with
  | 0, _ => ⟨dimension, rfl⟩
  | 1, _ => ⟨hierarchy, rfl⟩
  | 2, _ => ⟨level, rfl⟩
  | 3, _ => ⟨member, rfl⟩

theorem outer_depth (a b : Kind) : (outer a b).depth = min a.depth b.depth := by
  unfold outer
  split
  · rename_i h
    exact (Nat.min_eq_left h).symm
  · rename_i h
    exact (Nat.min_eq_right (by omega)).symm

theorem outer_eq_left {a b : Kind} (h : a.depth ≤ b.depth) : outer a b = a := by
  unfold outer
  rw [if_pos h]

/-- A kind, or the kind at depth `n` if that is further out. -/
def cut (k : Kind) (n : Nat) : Kind :=
  match ofDepth? n with
  | some j => j.outer k
  | none => k

theorem cut_depth (k : Kind) (n : Nat) : (k.cut n).depth = min n k.depth := by
  unfold cut
  split
  · rename_i j hj
    rw [outer_depth, ofDepth?_eq_some_iff.1 hj]
  · -- no kind is at that depth, so it is beyond every kind
    rename_i hn
    have hdeep : 3 < n := by
      refine Nat.lt_of_not_le fun hle => ?_
      obtain ⟨j, rfl⟩ := exists_depth hle
      rw [ofDepth?_depth] at hn
      cases hn
    have hk := k.depth_le_three
    omega

end Kind

/-! ## The path that two bindings share -/

namespace Binding

theorem shared_comm (a b : Binding) : shared a b = shared b a := by
  induction a generalizing b with
  | nil => cases b <;> rfl
  | cons x xs ih =>
    cases b with
    | nil => rfl
    | cons y ys =>
      by_cases h : x = y
      · subst h
        simp only [shared, if_true, ih ys]
      · simp only [shared, if_neg h, if_neg (Ne.symm h)]

theorem shared_prefix_left (a b : Binding) : shared a b <+: a := by
  induction a generalizing b with
  | nil => cases b <;> exact List.nil_prefix
  | cons x xs ih =>
    cases b with
    | nil => exact List.nil_prefix
    | cons y ys =>
      unfold shared
      split
      · exact List.cons_prefix_cons.2 ⟨rfl, ih ys⟩
      · exact List.nil_prefix

theorem shared_prefix_right (a b : Binding) : shared a b <+: b := by
  rw [shared_comm]
  exact shared_prefix_left b a

/-- Every path with which both bindings start is a prefix of the one that they share. -/
theorem prefix_shared {p a b : Binding} (ha : p <+: a) (hb : p <+: b) : p <+: shared a b := by
  induction p generalizing a b with
  | nil => exact List.nil_prefix
  | cons x xs ih =>
    obtain ⟨as, rfl, has⟩ := List.cons_prefix_iff.1 ha
    obtain ⟨bs, rfl, hbs⟩ := List.cons_prefix_iff.1 hb
    simp only [shared, if_true]
    exact List.cons_prefix_cons.2 ⟨rfl, ih has hbs⟩

theorem getElem?_prefix_eq {p b : Binding} (h : p <+: b) {i : Nat} (hi : i < p.length) :
    p[i]? = b[i]? := by
  rw [List.prefix_iff_eq_take.1 h, List.getElem?_take_of_lt hi]

theorem shared_of_prefix {a b : Binding} (h : a <+: b) : shared a b = a :=
  (shared_prefix_left a b).eq_of_length_le (prefix_shared List.prefix_rfl h).length_le

theorem diverge_comm (a b : Binding) : diverge a b = diverge b a := by
  unfold diverge
  rw [shared_comm a b, Bool.and_comm]

theorem diverge_iff {a b : Binding} :
    diverge a b = true ↔
      (shared a b).length < a.length ∧ (shared a b).length < b.length := by
  simp [diverge]

theorem not_diverge_of_prefix {a b : Binding} (h : a <+: b) : diverge a b = false := by
  rw [Bool.eq_false_iff, Ne, diverge_iff, shared_of_prefix h]
  omega

theorem take_fields_ne_nil (k : Kind) {p : Binding} (hp : p ≠ []) : p.take k.fields ≠ [] := by
  cases p with
  | nil => exact absurd rfl hp
  | cons x xs => simp [Kind.fields]

end Binding

/-! ## The common type of two metadata types -/

namespace Metadata

theorem sharedKind_comm (a b : Metadata) : sharedKind a b = sharedKind b a := by
  unfold sharedKind
  rw [Binding.diverge_comm, Binding.shared_comm, Kind.outer_comm a.kind]

/-- Where bindings diverge, the kind is cut off at the first element in which they differ. -/
theorem sharedKind_eq_cut (a b : Metadata) :
    sharedKind a b =
      if Binding.diverge a.binding b.binding then
        (a.kind.outer b.kind).cut (Binding.shared a.binding b.binding).length
      else a.kind.outer b.kind := by
  unfold sharedKind Kind.cut
  simp only
  cases Binding.diverge a.binding b.binding with
  | false => rfl
  | true =>
    cases Kind.ofDepth? (Binding.shared a.binding b.binding).length <;> rfl

theorem sharedKind_depth (a b : Metadata) :
    (sharedKind a b).depth =
      if Binding.diverge a.binding b.binding then
        min (Binding.shared a.binding b.binding).length (min a.kind.depth b.kind.depth)
      else min a.kind.depth b.kind.depth := by
  rw [sharedKind_eq_cut]
  split
  · rw [Kind.cut_depth, Kind.outer_depth]
  · rw [Kind.outer_depth]

theorem sharedKind_depth_le (a b : Metadata) :
    (sharedKind a b).depth ≤ min a.kind.depth b.kind.depth := by
  rw [sharedKind_depth]
  split
  · exact Nat.min_le_right _ _
  · exact Nat.le_refl _

theorem common?_of_unknown {a : Metadata} (b : Metadata) (ha : a.binding = []) :
    common? a b =
      some ⟨a.kind.outer b.kind, b.binding.take (a.kind.outer b.kind).fields⟩ := by
  simp [common?, ha]

theorem common?_of_bound {a b : Metadata} (ha : a.binding ≠ []) (hb : b.binding ≠ []) :
    common? a b =
      if Binding.shared a.binding b.binding = [] then none
      else some ⟨sharedKind a b,
        (Binding.shared a.binding b.binding).take (sharedKind a b).fields⟩ := by
  simp [common?, ha, hb]

theorem common?_comm (a b : Metadata) : common? a b = common? b a := by
  by_cases ha : a.binding = []
  · by_cases hb : b.binding = []
    · rw [common?_of_unknown b ha, common?_of_unknown a hb, ha, hb, Kind.outer_comm]
    · simp [common?, ha, hb, Kind.outer_comm a.kind]
  · by_cases hb : b.binding = []
    · simp [common?, ha, hb, Kind.outer_comm a.kind]
    · rw [common?_of_bound ha hb, common?_of_bound hb ha, sharedKind_comm, Binding.shared_comm]

/-- Metadata types have a common type if one of them is unknown, or if they share a path. -/
theorem common?_cases {a b m : Metadata} (h : common? a b = some m) :
    (a.binding = [] ∧
      m = ⟨a.kind.outer b.kind, b.binding.take (a.kind.outer b.kind).fields⟩) ∨
    (b.binding = [] ∧
      m = ⟨a.kind.outer b.kind, a.binding.take (a.kind.outer b.kind).fields⟩) ∨
    (Binding.shared a.binding b.binding ≠ [] ∧
      m = ⟨sharedKind a b,
        (Binding.shared a.binding b.binding).take (sharedKind a b).fields⟩) := by
  by_cases ha : a.binding = []
  · rw [common?_of_unknown b ha] at h
    exact .inl ⟨ha, (Option.some.inj h).symm⟩
  · by_cases hb : b.binding = []
    · rw [common?_comm, common?_of_unknown a hb, Kind.outer_comm] at h
      exact .inr (.inl ⟨hb, (Option.some.inj h).symm⟩)
    · rw [common?_of_bound ha hb] at h
      split at h
      · cases h
      · rename_i hs
        exact .inr (.inr ⟨hs, (Option.some.inj h).symm⟩)

/-! ## Covering -/

/-- A type covers another if its kind is not further in, it binds nothing beyond its kind, and its
binding is a known beginning of the other's.  Every type covers an unknown one. -/
structure Covers (m a : Metadata) : Prop where
  kind : m.kind.depth ≤ a.kind.depth
  within : m.binding.length ≤ m.kind.fields
  path : a.binding = [] ∨ m.binding ≠ [] ∧ m.binding <+: a.binding

theorem common?_of_covers {m a : Metadata} (h : m.Covers a) : common? m a = some m := by
  have hout : m.kind.outer a.kind = m.kind := Kind.outer_eq_left h.kind
  obtain ha | ⟨hm, hpre⟩ := h.path
  · rw [common?_comm, common?_of_unknown m ha, Kind.outer_comm, hout,
      List.take_of_length_le h.within]
  · have hkind : sharedKind m a = m.kind := by
      apply Kind.depth_injective
      rw [sharedKind_depth, Binding.not_diverge_of_prefix hpre]
      exact Nat.min_eq_left h.kind
    rw [common?_of_bound hm (hpre.ne_nil hm), Binding.shared_of_prefix hpre, if_neg hm, hkind,
      List.take_of_length_le h.within]

theorem covers_left_of_common? {a b m : Metadata} (h : common? a b = some m) : m.Covers a := by
  obtain ⟨ha, rfl⟩ | ⟨-, rfl⟩ | ⟨hs, rfl⟩ := common?_cases h
  · refine ⟨?_, List.length_take_le _ _, .inl ha⟩
    simp only [Kind.outer_depth]
    omega
  · refine ⟨?_, List.length_take_le _ _, ?_⟩
    · simp only [Kind.outer_depth]
      omega
    · by_cases ha : a.binding = []
      · exact .inl ha
      · exact .inr ⟨Binding.take_fields_ne_nil _ ha, List.take_prefix _ _⟩
  · have hk := sharedKind_depth_le a b
    refine ⟨by simp only; omega, List.length_take_le _ _,
      .inr ⟨Binding.take_fields_ne_nil _ hs, ?_⟩⟩
    exact (List.take_prefix _ _).trans (Binding.shared_prefix_left _ _)

theorem covers_of_common? {a b m : Metadata} (h : common? a b = some m) :
    m.Covers a ∧ m.Covers b :=
  ⟨covers_left_of_common? h, covers_left_of_common? (common?_comm a b ▸ h)⟩

end Metadata

end Hypercube
