import Hypercube.Proofs.Containers
import Hypercube.Proofs.WellFormed

/-!
# A common type takes in both of its sides

Unifying the common type of two types with either of them gives the common type again.  The
conversions of the first unification are at least those of taking in either side, and at most those
of taking in both.

* `Settles` — that statement for one layer of types, with rules to pass from a layer to the next.
* `Scalar.settles_join`, `Metadata.settles_join`, `Atom.settles_join`, `Item.settles_join`,
  `Item.settles_joinElements` — the layers.
* `Ty.common_type_absorbs` — the statement for types.
-/

set_option autoImplicit false

namespace Hypercube

variable {α β : Type}

/-- `z` takes in `a` and `b` unchanged, and the price `n` lies between the prices of the two. -/
def Settles (join : α → α → Attempt α) (a b z : α) (n : Nat) : Prop :=
  ∃ k l, (join z a).outcome? = some (z, k) ∧ (join z b).outcome? = some (z, l) ∧
    max k l ≤ n ∧ n ≤ k + l

namespace Settles

theorem symm {join : α → α → Attempt α} {a b z : α} {n : Nat} (h : Settles join a b z n) :
    Settles join b a z n := by
  obtain ⟨k, l, hk, hl, hmax, hadd⟩ := h
  exact ⟨l, k, hl, hk, by omega, by omega⟩

/-- A layer whose unification is that of the layer below settles where that one does. -/
theorem map {join : α → α → Attempt α} {join' : β → β → Attempt β} {f : α → β} {a b z : α}
    {n : Nat} (hf : ∀ x y, join' (f x) (f y) = (join x y).map f) (h : Settles join a b z n) :
    Settles join' (f a) (f b) (f z) n := by
  obtain ⟨k, l, hk, hl, hn⟩ := h
  refine ⟨k, l, ?_, ?_, hn⟩
  · rw [hf]
    exact Attempt.outcome?_map_eq_some_iff.2 ⟨z, hk, rfl⟩
  · rw [hf]
    exact Attempt.outcome?_map_eq_some_iff.2 ⟨z, hl, rfl⟩

end Settles

/-! ## Scalars -/

namespace Scalar

theorem join_self (s : Scalar) : s.join s = .free s := by
  rw [join, if_pos rfl]

theorem common?_of_common? {a b z : Scalar} (h : common? a b = some z) (hne : z ≠ a) :
    common? z a = some z := by
  unfold common? at h
  split at h
  · split at h
    · rename_i x y d hd
      cases h
      simp only [common?, Decimal.widen?_of_widened hd]
    · cases h
      rfl
  · cases h
    rfl
  · exact absurd (Option.some.inj h).symm hne
  · exact absurd (Option.some.inj h).symm hne
  · cases h
    cases a <;> rfl
  · cases h

/-- The common type takes in a scalar with one conversion, unless it is that scalar. -/
theorem outcome?_of_common? {a b z : Scalar} (h : common? a b = some z) :
    (z.join a).outcome? = some (z, if a = z then 0 else 1) := by
  by_cases hne : z = a
  · subst hne
    rw [join_self, if_pos rfl, Attempt.outcome?_free]
  · rw [join, if_neg hne, common?_of_common? h hne]
    simp [settle]

theorem settles_join {a b z : Scalar} {n : Nat} (h : (a.join b).outcome? = some (z, n)) :
    Settles join a b z n := by
  by_cases hab : a = b
  · subst hab
    rw [join_self] at h
    cases h
    exact ⟨0, 0, by simp [join_self], by simp [join_self], Nat.le_refl _, Nat.le_refl _⟩
  · rw [join, if_neg hab] at h
    split at h
    · rename_i joined hj
      rw [settle, Attempt.outcome?_paying] at h
      cases h
      have hj' : common? b a = some z := common?_comm a b ▸ hj
      exact ⟨_, _, outcome?_of_common? hj, outcome?_of_common? hj', by omega, Nat.le_refl _⟩
    · cases h

end Scalar

/-! ## Metadata -/

namespace Metadata

/-- A covering type takes in another one at the price of the elements that it does not know. -/
theorem outcome?_of_covers {m a : Metadata} (h : m.Covers a) :
    (m.join a).outcome? = some (m, a.binding.length - m.binding.length) := by
  rw [join, common?_of_covers h]
  simp only [Attempt.outcome?_paying, Option.some.injEq, Prod.mk.injEq, true_and]
  omega

theorem settles_join {a b m : Metadata} {n : Nat} (h : (a.join b).outcome? = some (m, n)) :
    Settles join a b m n := by
  unfold join at h
  split at h
  · rename_i joined hj
    rw [Attempt.outcome?_paying] at h
    cases h
    obtain ⟨ha, hb⟩ := covers_of_common? hj
    refine ⟨_, _, outcome?_of_covers ha, outcome?_of_covers hb, by omega, by omega⟩
  · cases h

end Metadata

/-! ## Atoms -/

namespace Atom

theorem settles_join {a b z : Atom} {n : Nat} (h : (a.join b).outcome? = some (z, n)) :
    Settles join a b z n := by
  have null_scalar : ∀ s, Settles join null (scalar s) (scalar s) 0 := by
    intro s
    refine ⟨0, 0, rfl, ?_, Nat.le_refl _, Nat.le_refl _⟩
    rw [join, Scalar.join_self]
    rfl
  have generic_member : ∀ p, Settles join (scalar .generic) (metadata ⟨.member, p⟩)
      (scalar .generic) 1 := by
    intro p
    exact ⟨0, 1, rfl, rfl, Nat.le_refl _, Nat.le_refl _⟩
  unfold join at h
  split at h
  · cases h
    exact ⟨0, 0, rfl, rfl, Nat.le_refl _, Nat.le_refl _⟩
  · cases h
    exact null_scalar _
  · cases h
    exact (null_scalar _).symm
  · obtain ⟨s, hs, rfl⟩ := Attempt.outcome?_map_eq_some_iff.1 h
    exact (Scalar.settles_join hs).map fun _ _ => rfl
  · obtain ⟨m, hm, rfl⟩ := Attempt.outcome?_map_eq_some_iff.1 h
    exact (Metadata.settles_join hm).map fun _ _ => rfl
  · cases h
    exact generic_member _
  · cases h
    exact (generic_member _).symm
  · cases h

end Atom

/-! ## Tuples -/

theorem joinPositions_cons_outcome {x y z : Atom} {xs ys zs : List Atom} {n k : Nat}
    (h : (x.join y).outcome? = some (z, n)) (hs : (joinPositions xs ys).outcome? = some (zs, k)) :
    (joinPositions (x :: xs) (y :: ys)).outcome? = some (z :: zs, n + k) := by
  obtain ⟨hr, hn⟩ := Attempt.outcome?_eq_some_iff.1 h
  obtain ⟨hrs, hk⟩ := Attempt.outcome?_eq_some_iff.1 hs
  rw [Attempt.outcome?_eq_some_iff]
  simp [joinPositions_cons, Attempt.free, hr, hrs, hn, hk]

/-- Prices of positions add up, and so do their bounds. -/
theorem settles_joinPositions {xs ys zs : List Atom} {n : Nat} (hlen : xs.length = ys.length)
    (h : (joinPositions xs ys).outcome? = some (zs, n)) : Settles joinPositions xs ys zs n := by
  induction xs generalizing ys zs n with
  | nil =>
    cases ys with
    | nil =>
      cases h
      exact ⟨0, 0, rfl, rfl, Nat.le_refl _, Nat.le_refl _⟩
    | cons y ys => cases hlen
  | cons x xs ih =>
    cases ys with
    | nil => cases hlen
    | cons y ys =>
      obtain ⟨hr, hn⟩ := Attempt.outcome?_eq_some_iff.1 h
      obtain ⟨z, zs', hz, hzs, rfl⟩ := joinPositions_cons_result.1 hr
      have hz' := Attempt.outcome?_eq_some_iff.2 ⟨hz, rfl⟩
      have hzs' := Attempt.outcome?_eq_some_iff.2 ⟨hzs, rfl⟩
      obtain ⟨k, l, hk, hl, hkl⟩ := Atom.settles_join hz'
      obtain ⟨ks, ls, hks, hls, hkls⟩ := ih (Nat.succ.inj hlen) hzs'
      have hsum : n = (x.join y).conversions + (joinPositions xs ys).conversions := by
        have := joinPositions_cons_outcome hz' hzs'
        rw [h] at this
        cases this
        rfl
      exact ⟨k + ks, l + ls, joinPositions_cons_outcome hk hks,
        joinPositions_cons_outcome hl hls, by omega, by omega⟩

theorem settles_joinTuples {xs ys zs : List Atom} {n : Nat}
    (h : (joinTuples xs ys).outcome? = some (zs, n)) : Settles joinTuples xs ys zs n := by
  obtain ⟨hz, hlen⟩ := joinTuples_length (Attempt.outcome?_eq_some_iff.1 h).1
  rw [joinTuples_eq, if_pos hlen] at h
  obtain ⟨k, l, hk, hl, hkl⟩ := settles_joinPositions hlen h
  refine ⟨k, l, ?_, ?_, hkl⟩
  · rw [joinTuples_eq, if_pos hz]
    exact hk
  · rw [joinTuples_eq, if_pos (hz.trans hlen)]
    exact hl

/-! ## Items -/

namespace Item

/-- An amorphous item takes in what depends on none but its dimensions, with one conversion unless
it is that item. -/
theorem outcome?_absorb {ds : List Ref} {y : Item} (hds : Ref.Increasing ds)
    (hy : y.absorbable = true) (hsub : ∀ r ∈ y.dimensions, r ∈ ds) :
    (absorb ds y).outcome? = some (amorphous ds, if y = amorphous ds then 0 else 1) := by
  have hcan : Ref.canonical (ds ++ y.dimensions) = ds := by
    rw [← Ref.canonical_of_increasing hds, Ref.canonical_eq_iff]
    intro r
    rw [List.mem_append, Ref.mem_canonical]
    exact ⟨fun h => h.elim id (hsub r ∘ by simp), .inl⟩
  have hnull : y ≠ .atom .null := by
    rintro rfl
    cases hy
  simp only [absorb, if_neg hnull, hy, if_true, hcan, Nat.add_zero, Attempt.outcome?_paying]

/-- The dimensions of two items, as an amorphous item, take in each of the two. -/
theorem outcome?_absorb_union {x y : Item} {u : List Ref} (hx : x.absorbable = true)
    (hy : y.absorbable = true) (hu : u = Ref.canonical (x.dimensions ++ y.dimensions)) :
    (absorb u x).outcome? = some (amorphous u, if x = amorphous u then 0 else 1) ∧
      (absorb u y).outcome? = some (amorphous u, if y = amorphous u then 0 else 1) := by
  subst hu
  have hinc := Ref.increasing_canonical (x.dimensions ++ y.dimensions)
  constructor
  · refine outcome?_absorb hinc hx fun r hr => ?_
    rw [Ref.mem_canonical]
    exact List.mem_append_left _ hr
  · refine outcome?_absorb hinc hy fun r hr => ?_
    rw [Ref.mem_canonical]
    exact List.mem_append_right _ hr

theorem settles_absorb {ds : List Ref} {y z : Item} {n : Nat} (hds : Ref.Increasing ds)
    (h : (absorb ds y).outcome? = some (z, n)) : Settles join (amorphous ds) y z n := by
  have hself : (absorb ds (amorphous ds)).outcome? = some (amorphous ds, 0) := by
    rw [outcome?_absorb (y := amorphous ds) hds rfl fun r hr => hr, if_pos rfl]
  by_cases hnull : y = .atom .null
  · subst hnull
    cases h
    exact ⟨0, 0, hself, rfl, Nat.le_refl _, Nat.le_refl _⟩
  · rw [absorb, if_neg hnull] at h
    split at h
    · rename_i hy
      rw [Attempt.outcome?_paying] at h
      cases h
      obtain ⟨hleft, hright⟩ := outcome?_absorb_union (x := amorphous ds)
        (u := Ref.canonical (ds ++ y.dimensions)) rfl hy rfl
      exact ⟨_, _, hleft, hright, by omega, by omega⟩
    · cases h

/-- A member type that a member and a tuple have in common takes in both. -/
theorem settles_unwrap? {m b : Binding} {t : List Atom} {n : Nat}
    (h : unwrap? m t = some (⟨.member, b⟩, n)) :
    Settles join (member m) (tuple t) (member b) n := by
  obtain ⟨-, only, rfl, ho⟩ := unwrap?_eq_some_iff.1 h
  obtain ⟨k, l, hk, hl, hkl⟩ := Atom.settles_join ho
  refine ⟨k, l, ?_, ?_, hkl⟩
  · rw [join_atoms]
    exact Attempt.outcome?_map_eq_some_iff.2 ⟨_, hk, rfl⟩
  · have hu : unwrap? b [only] = some (⟨.member, b⟩, l) :=
      unwrap?_eq_some_iff.2 ⟨rfl, only, rfl, hl⟩
    rw [join_member_tuple, joinMemberTuple_eq, hu, Attempt.outcome?_paying]

theorem settles_join {c : Catalog} {x y z : Item} {n : Nat} (hx : x.WellFormed c)
    (hy : y.WellFormed c) (h : (x.join y).outcome? = some (z, n)) : Settles join x y z n := by
  induction x, y using pair_cases with
  | symm x y ih => exact (ih hy hx (join_comm x y ▸ h)).symm
  | amorphous ds y => exact settles_absorb hx h
  | tuples xs ys =>
    obtain ⟨zs, hzs, rfl⟩ := Attempt.outcome?_map_eq_some_iff.1 h
    exact (settles_joinTuples hzs).map fun _ _ => rfl
  | member_tuple m t =>
    rw [join_member_tuple] at h
    obtain ⟨b, k, hu, hj⟩ | ⟨-, hj⟩ := joinMemberTuple_cases m t
      (.noting (.asScalars m t) generic)
    · rw [hj] at h
      cases h
      exact settles_unwrap? hu
    · rw [hj, Attempt.outcome?_noting] at h
      cases h
      exact ⟨1, 1, rfl, rfl, Nat.le_refl _, by omega⟩
  | generic_tuple t =>
    cases h
    exact ⟨0, 1, rfl, rfl, Nat.le_refl _, Nat.le_refl _⟩
  | atom_tuple a t ha =>
    rw [join_atom_tuple t ha] at h
    cases h
  | atoms a b =>
    rw [join_atoms] at h
    obtain ⟨a', ha', rfl⟩ := Attempt.outcome?_map_eq_some_iff.1 h
    exact (Atom.settles_join ha').map join_atoms

/-! ## Elements of sets -/

/-- What an item takes in unchanged, it takes in unchanged as element of a set: where the rules
differ, the result is another item. -/
theorem outcome?_joinElements {x z : Item} {n : Nat} (h : (z.join x).outcome? = some (z, n)) :
    (z.joinElements x).outcome? = some (z, n) := by
  obtain ⟨m, t, rfl, rfl⟩ | ⟨m, t, rfl, rfl⟩ | hzx := joinElements_cases z x
  · rw [join_member_tuple] at h
    obtain ⟨b, k, hu, hj⟩ | ⟨-, hj⟩ := joinMemberTuple_cases m t
      (.noting (.asScalars m t) generic)
    · rw [joinElements_member_tuple, joinMemberTuple_eq, hu]
      rwa [joinMemberTuple_eq, hu] at h
    · rw [hj] at h
      cases h
  · rw [join_comm, join_member_tuple] at h
    obtain ⟨b, k, hu, hj⟩ | ⟨-, hj⟩ := joinMemberTuple_cases m t
      (.noting (.asScalars m t) generic)
    · rw [hj] at h
      cases h
    · rw [hj] at h
      cases h
  · rw [hzx]
    exact h

theorem settles_elements {x y z : Item} {n : Nat} (h : Settles join x y z n) :
    Settles joinElements x y z n := by
  obtain ⟨k, l, hk, hl, hkl⟩ := h
  exact ⟨k, l, outcome?_joinElements hk, outcome?_joinElements hl, hkl⟩

theorem settles_member_tuple {m : Binding} {t : List Atom} {z : Item} {n : Nat}
    (h : ((member m).joinElements (tuple t)).outcome? = some (z, n)) :
    Settles joinElements (member m) (tuple t) z n := by
  rw [joinElements_member_tuple] at h
  obtain ⟨b, k, hu, hj⟩ | ⟨-, hj⟩ := joinMemberTuple_cases m t
    (.noting (.structureLost m t) (fused m t))
  · rw [hj] at h
    cases h
    exact settles_elements (settles_unwrap? hu)
  · rw [hj, Attempt.outcome?_noting] at h
    cases h
    obtain ⟨hleft, hright⟩ := outcome?_absorb_union (x := member m) (y := tuple t) rfl rfl rfl
    exact ⟨1, 1, hleft, hright, Nat.le_refl _, by omega⟩

theorem settles_joinElements {c : Catalog} {x y z : Item} {n : Nat} (hx : x.WellFormed c)
    (hy : y.WellFormed c) (h : (x.joinElements y).outcome? = some (z, n)) :
    Settles joinElements x y z n := by
  obtain ⟨m, t, rfl, rfl⟩ | ⟨m, t, rfl, rfl⟩ | hxy := joinElements_cases x y
  · exact settles_member_tuple h
  · exact (settles_member_tuple h).symm
  · exact settles_elements (settles_join hx hy (hxy ▸ h))

end Item

/-! ## Types -/

namespace Ty

theorem settles_join {c : Catalog} {a b z : Ty} {n : Nat} (ha : a.WellFormed c)
    (hb : b.WellFormed c) (h : (a.join b).outcome? = some (z, n)) : Settles join a b z n := by
  rw [join_eq] at h
  split at h
  · obtain ⟨i, hi, rfl⟩ := Attempt.outcome?_map_eq_some_iff.1 h
    exact (Item.settles_join ha hb hi).map fun _ _ => rfl
  · obtain ⟨i, hi, rfl⟩ := Attempt.outcome?_map_eq_some_iff.1 h
    exact (Item.settles_joinElements ha hb hi).map fun _ _ => rfl
  · split at h
    · rename_i hxy
      subst hxy
      cases h
      refine ⟨0, 0, ?_, ?_, Nat.le_refl _, Nat.le_refl _⟩ <;>
        rw [join_cubes, if_pos rfl, Attempt.outcome?_free]
    · cases h
  · cases h

/-- The common type of two well-formed types takes in each of them unchanged.  The conversions that
were needed to find it are at least those of taking in one side and at most those of taking in both,
so they are none exactly if each side is taken in for free. -/
theorem common_type_absorbs (c : Catalog) {a b j : Ty} {n : Nat} (ha : a.WellFormed c)
    (hb : b.WellFormed c) (h : (a.join b).outcome? = some (j, n)) :
    ∃ k l, (j.join a).outcome? = some (j, k) ∧ (j.join b).outcome? = some (j, l) ∧
      max k l ≤ n ∧ n ≤ k + l ∧ (n = 0 ↔ k = 0 ∧ l = 0) := by
  obtain ⟨k, l, hk, hl, hmax, hadd⟩ := settles_join ha hb h
  exact ⟨k, l, hk, hl, hmax, hadd, by omega⟩

/-- A set of cities and a set of pairs of a city and a gender lose their structure, and what they
become takes in each of them. -/
theorem common_type_absorbs_fused_sets :
    let oslo : Binding := [⟨0, 0⟩, ⟨0, 0⟩, ⟨0, 0⟩, ⟨0, 0⟩]
    let rome : Binding := [⟨0, 0⟩, ⟨0, 0⟩, ⟨0, 0⟩, ⟨0, 1⟩]
    let female : Binding := [⟨0, 1⟩, ⟨0, 1⟩, ⟨0, 1⟩, ⟨0, 2⟩]
    let members : Ty := .set (.member oslo)
    let pairs : Ty := .set (.tuple [.metadata ⟨.member, rome⟩, .metadata ⟨.member, female⟩])
    let fused : Ty := .set (.amorphous [⟨0, 0⟩, ⟨0, 1⟩])
    Catalog.retail.Built ∧ members.WellFormed .retail ∧ pairs.WellFormed .retail ∧
      (members.join pairs).outcome? = some (fused, 1) ∧
      ∃ k l, (fused.join members).outcome? = some (fused, k) ∧
        (fused.join pairs).outcome? = some (fused, l) ∧
        max k l ≤ 1 ∧ 1 ≤ k + l ∧ (1 = 0 ↔ k = 0 ∧ l = 0) := by
  intro oslo rome female members pairs fused
  have hm : members.WellFormed .retail := by decide
  have hp : pairs.WellFormed .retail := by decide
  have hj : (members.join pairs).outcome? = some (fused, 1) := by decide
  exact ⟨Catalog.retail_built, hm, hp, hj, common_type_absorbs .retail hm hp hj⟩

end Ty

end Hypercube
