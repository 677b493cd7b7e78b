import Hypercube.Proofs.Absorption
import Mathlib.Data.List.Forall2

/-!
# What a type takes in

A type takes in another one if unifying the two gives it back, for free or, where conversions are
allowed, at whatever price.  Unification decides this by trial; here it is described by the shapes
of the two types.

* `Scalar.Takes`, `Metadata.Takes`, `Atom.Takes`, `Item.Takes`, `Ty.Takes` — the description, layer
  by layer.
* `Scalar.takes_iff`, …, `Ty.takes_iff` — a type is taken in exactly if unification gives the other
  one back.
* `Ty.Takes.refl`, `Ty.takes_operands` — a type takes in itself, and a common type takes in both of
  its sides.
-/

set_option autoImplicit false

namespace Hypercube

variable {conversions : Bool}

namespace Attempt

variable {α β : Type}

/-- Prices of attempts that follow each other add up. -/
theorem outcome?_bind_eq_some_iff {x : Attempt α} {f : α → Attempt β} {b : β} {n : Nat} :
    (x >>= f).outcome? = some (b, n) ↔
      ∃ a k l, x.outcome? = some (a, k) ∧ (f a).outcome? = some (b, l) ∧ n = k + l := by
  simp only [outcome?_eq_some_iff, result_bind, conversions_bind, Option.bind_eq_some_iff]
  constructor
  · rintro ⟨⟨a, ha, hb⟩, rfl⟩
    exact ⟨a, _, _, ⟨ha, rfl⟩, ⟨hb, rfl⟩, by rw [ha]; rfl⟩
  · rintro ⟨a, k, l, ⟨ha, rfl⟩, ⟨hb, rfl⟩, rfl⟩
    exact ⟨⟨a, ha, hb⟩, by rw [ha]; rfl⟩

/-- A result is kept if conversions are allowed or none were needed. -/
theorem outcome?_allowing_eq_some_iff {x : Attempt α} {a : α} {n : Nat} :
    (x.allowing conversions).outcome? = some (a, n) ↔
      x.outcome? = some (a, n) ∧ (conversions = true ∨ n = 0) := by
  simp only [outcome?_eq_some_iff]
  unfold allowing
  split
  · rename_i h
    constructor
    · rintro ⟨ha, rfl⟩
      exact ⟨⟨ha, rfl⟩, h⟩
    · exact And.left
  · rename_i h
    constructor
    · rintro ⟨ha, -⟩
      cases ha
    · rintro ⟨⟨-, rfl⟩, hn⟩
      exact absurd hn h

theorem result_allowing_eq_some_iff {x : Attempt α} {a : α} :
    (x.allowing conversions).result = some a ↔
      ∃ n, x.outcome? = some (a, n) ∧ (conversions = true ∨ n = 0) := by
  constructor
  · intro hr
    exact ⟨_, outcome?_allowing_eq_some_iff.1 (outcome?_eq_some_iff.2 ⟨hr, rfl⟩)⟩
  · rintro ⟨n, hn⟩
    exact (outcome?_eq_some_iff.1 (outcome?_allowing_eq_some_iff.2 hn)).1

/-- What is free is always allowed. -/
theorem result_allowing_of_free {x : Attempt α} {a : α} (h : x.outcome? = some (a, 0)) :
    (x.allowing conversions).result = some a :=
  result_allowing_eq_some_iff.2 ⟨0, h, .inr rfl⟩

theorem result_allowing_map (f : α → β) (x : Attempt α) :
    ((x.map f).allowing conversions).result = (x.allowing conversions).result.map f := by
  unfold allowing
  rw [conversions_map]
  split <;> rfl

end Attempt

/-! ## Scalars -/

namespace Scalar

/-- A scalar takes in itself and, at the price of a conversion, what it is the common type of. -/
def Takes (conversions : Bool) (z x : Scalar) : Prop :=
  z = x ∨ conversions = true ∧ common? z x = some z

theorem takes_iff {z x : Scalar} :
    ((z.join x).allowing conversions).result = some z ↔ z.Takes conversions x := by
  rw [Attempt.result_allowing_eq_some_iff]
  unfold Takes
  by_cases h : z = x
  · subst h
    simp [join_self]
  · rw [join, if_neg h]
    cases hc : common? z x with
    | none => simp [Attempt.outcome?, Attempt.refuse, h]
    | some j =>
      simp only [settle, Attempt.outcome?_paying]
      by_cases hj : j = z
      · subst hj
        simp [h, Ne.symm h]
      · simp [h, hj]

end Scalar

/-! ## Metadata -/

namespace Metadata

/-- A metadata type takes in what it covers, for free if that is not bound further. -/
def Takes (conversions : Bool) (m a : Metadata) : Prop :=
  m.Covers a ∧ (conversions = true ∨ a.binding.length ≤ m.binding.length)

theorem takes_iff {m a : Metadata} :
    ((m.join a).allowing conversions).result = some m ↔ m.Takes conversions a := by
  rw [Attempt.result_allowing_eq_some_iff]
  constructor
  · rintro ⟨n, h, hn⟩
    unfold join at h
    split at h
    · rename_i joined hj
      rw [Attempt.outcome?_paying] at h
      cases h
      exact ⟨(covers_of_common? hj).2, hn.imp_right fun hn => by omega⟩
    · cases h
  · rintro ⟨hcovers, hn⟩
    exact ⟨_, outcome?_of_covers hcovers, hn.imp_right fun hn => by omega⟩

theorem Takes.refl {c : Catalog} {m : Metadata} (hm : m.WellFormed c) : m.Takes conversions m := by
  refine ⟨⟨Nat.le_refl _, hm.within, ?_⟩, .inr (Nat.le_refl _)⟩
  by_cases hb : m.binding = []
  · exact .inl hb
  · exact .inr ⟨hb, List.prefix_rfl⟩

/-- What a member type takes in is a member type. -/
theorem Takes.kind_eq_member {m a : Metadata} (h : m.Takes conversions a)
    (hm : m.kind = .member) : a.kind = .member := by
  have hle := h.1.kind
  have hmax := a.kind.depth_le_three
  rw [hm] at hle
  exact Kind.depth_injective (Nat.le_antisymm hmax hle)

end Metadata

/-! ## Atoms -/

/-- What an atom takes in. -/
inductive Atom.Takes (conversions : Bool) : Atom → Atom → Prop
  | null : Takes conversions .null .null
  | scalar_null (s : Scalar) : Takes conversions (.scalar s) .null
  | scalars {z x : Scalar} : z.Takes conversions x → Takes conversions (.scalar z) (.scalar x)
  | metadata {m a : Metadata} : m.Takes conversions a →
      Takes conversions (.metadata m) (.metadata a)
  | generic_member (b : Binding) : conversions = true →
      Takes conversions (.scalar .generic) (.metadata ⟨.member, b⟩)

namespace Atom

theorem takes_iff {z x : Atom} :
    ((z.join x).allowing conversions).result = some z ↔ z.Takes conversions x := by
  constructor
  · intro h
    cases z with
    | null =>
      rw [Attempt.result_allowing_eq_some_iff] at h
      obtain ⟨n, h, -⟩ := h
      cases x with
      | null => exact .null
      | scalar s => cases h
      | metadata m => cases h
    | scalar s =>
      cases x with
      | null => exact .scalar_null s
      | scalar s' =>
        rw [join, Attempt.result_allowing_map] at h
        obtain ⟨j, hj, hs⟩ := Option.map_eq_some_iff.1 h
        cases hs
        exact .scalars (Scalar.takes_iff.1 hj)
      | metadata m =>
        rw [join_scalar_metadata, Attempt.result_allowing_eq_some_iff] at h
        obtain ⟨n, h, hn⟩ := h
        split at h
        · rename_i hs
          obtain ⟨k, b⟩ := m
          obtain ⟨rfl, rfl⟩ := hs
          cases h
          exact .generic_member b (hn.resolve_right Nat.one_ne_zero)
        · cases h
    | metadata m =>
      cases x with
      | null =>
        rw [Attempt.result_allowing_eq_some_iff] at h
        obtain ⟨n, h, -⟩ := h
        cases h
      | scalar s =>
        rw [join_metadata_scalar, Attempt.result_allowing_eq_some_iff] at h
        obtain ⟨n, h, -⟩ := h
        split at h <;> cases h
      | metadata a =>
        rw [join, Attempt.result_allowing_map] at h
        obtain ⟨j, hj, hm⟩ := Option.map_eq_some_iff.1 h
        cases hm
        exact .metadata (Metadata.takes_iff.1 hj)
  · intro h
    cases h with
    | null => exact Attempt.result_allowing_of_free rfl
    | scalar_null s => exact Attempt.result_allowing_of_free rfl
    | scalars h =>
      rw [join, Attempt.result_allowing_map, Scalar.takes_iff.2 h]
      rfl
    | metadata h =>
      rw [join, Attempt.result_allowing_map, Metadata.takes_iff.2 h]
      rfl
    | generic_member b hpay => exact Attempt.result_allowing_eq_some_iff.2 ⟨1, rfl, .inl hpay⟩

theorem Takes.refl {c : Catalog} {a : Atom} (ha : a.WellFormed c) : a.Takes conversions a := by
  cases a with
  | null => exact .null
  | scalar s => exact .scalars (.inl rfl)
  | metadata m => exact .metadata (.refl ha)

end Atom

/-! ## Tuples -/

theorem joinPositions_cons_outcome_iff {x y : Atom} {xs ys zs : List Atom} {n : Nat} :
    (joinPositions (x :: xs) (y :: ys)).outcome? = some (zs, n) ↔
      ∃ z zs' k l, (x.join y).outcome? = some (z, k) ∧
        (joinPositions xs ys).outcome? = some (zs', l) ∧ zs = z :: zs' ∧ n = k + l := by
  constructor
  · intro h
    obtain ⟨z, k, _, hz, hrest, rfl⟩ := Attempt.outcome?_bind_eq_some_iff.1 h
    obtain ⟨zs', l, _, hzs, hpure, rfl⟩ := Attempt.outcome?_bind_eq_some_iff.1 hrest
    cases hpure
    exact ⟨z, zs', k, l, hz, hzs, rfl, rfl⟩
  · rintro ⟨z, zs', k, l, hz, hzs, rfl, rfl⟩
    exact joinPositions_cons_outcome hz hzs

/-- Tuples take in tuples position by position. -/
theorem takes_positions_iff {zs xs : List Atom} (hlen : zs.length = xs.length) :
    ((joinPositions zs xs).allowing conversions).result = some zs ↔
      List.Forall₂ (Atom.Takes conversions) zs xs := by
  induction zs generalizing xs with
  | nil =>
    cases xs with
    | nil =>
      refine iff_of_true ?_ .nil
      exact Attempt.result_allowing_of_free rfl
    | cons x xs => cases hlen
  | cons z zs ih =>
    cases xs with
    | nil => cases hlen
    | cons x xs =>
      rw [List.forall₂_cons, ← Atom.takes_iff, ← ih (Nat.succ.inj hlen)]
      simp only [Attempt.result_allowing_eq_some_iff]
      constructor
      · rintro ⟨n, h, hn⟩
        obtain ⟨_, _, k, l, hz, hzs, heq, rfl⟩ := joinPositions_cons_outcome_iff.1 h
        cases heq
        exact ⟨⟨k, hz, hn.imp_right fun hn => by omega⟩, l, hzs, hn.imp_right fun hn => by omega⟩
      · rintro ⟨⟨k, hz, hk⟩, l, hzs, hl⟩
        refine ⟨k + l, joinPositions_cons_outcome hz hzs, ?_⟩
        obtain hpay | rfl := hk
        · exact .inl hpay
        · exact hl.imp_right fun hl => by omega

theorem takes_tuples_iff {zs xs : List Atom} :
    ((joinTuples zs xs).allowing conversions).result = some zs ↔
      List.Forall₂ (Atom.Takes conversions) zs xs := by
  by_cases hlen : zs.length = xs.length
  · rw [joinTuples_eq, if_pos hlen, takes_positions_iff hlen]
  · rw [joinTuples_eq, if_neg hlen, Attempt.result_allowing_eq_some_iff]
    refine iff_of_false ?_ fun h => hlen h.length_eq
    rintro ⟨n, h, -⟩
    cases h

/-! ## Items -/

/-- What an item takes in. -/
inductive Item.Takes (conversions : Bool) : Item → Item → Prop
  | atoms {z x : Atom} : z.Takes conversions x → Takes conversions (.atom z) (.atom x)
  | tuples {zs xs : List Atom} : List.Forall₂ (Atom.Takes conversions) zs xs →
      Takes conversions (.tuple zs) (.tuple xs)
  | member_singleton {b p : Binding} :
      Metadata.Takes conversions ⟨.member, b⟩ ⟨.member, p⟩ →
      Takes conversions (.member b) (.tuple [.metadata ⟨.member, p⟩])
  | generic_tuple (t : List Atom) : conversions = true → Takes conversions .generic (.tuple t)
  | amorphous_null (ds : List Ref) : Takes conversions (.amorphous ds) (.atom .null)
  | amorphous {ds : List Ref} {x : Item} : x.absorbable = true → Ref.Increasing ds →
      (∀ r ∈ x.dimensions, r ∈ ds) → (conversions = true ∨ x = .amorphous ds) →
      Takes conversions (.amorphous ds) x

namespace Item

/-- What comes of absorbing an item is amorphous. -/
theorem amorphous_of_absorb {ds : List Ref} {y z : Item} {n : Nat}
    (h : (absorb ds y).outcome? = some (z, n)) : ∃ es, z = amorphous es := by
  unfold absorb at h
  split at h
  · cases h
    exact ⟨ds, rfl⟩
  · split at h
    · cases h
      exact ⟨_, rfl⟩
    · cases h

/-- What comes of an atom and a tuple is an atom. -/
theorem atom_of_join_tuple {a : Atom} {t : List Atom} {z : Item} {n : Nat}
    (h : ((atom a).join (tuple t)).outcome? = some (z, n)) : ∃ a', z = atom a' := by
  cases ha : evaluates a with
  | false =>
    rw [join_atom_tuple t ha] at h
    cases h
  | true =>
    unfold evaluates at ha
    split at ha
    · cases h
      exact ⟨_, rfl⟩
    · rename_i m
      rw [join_member_tuple] at h
      obtain ⟨b, k, -, hj⟩ | ⟨-, hj⟩ := joinMemberTuple_cases m t
        (.noting (.asScalars m t) generic)
      · rw [hj] at h
        cases h
        exact ⟨_, rfl⟩
      · rw [hj] at h
        cases h
        exact ⟨_, rfl⟩
    · cases ha

/-- A member takes in a tuple that it is the unwrapped form of. -/
theorem takes_member_tuple {b : Binding} {t : List Atom} {n : Nat}
    (h : ((member b).join (tuple t)).outcome? = some (member b, n))
    (hn : conversions = true ∨ n = 0) : (member b).Takes conversions (tuple t) := by
  rw [join_member_tuple] at h
  obtain ⟨p, k, hu, hj⟩ | ⟨-, hj⟩ := joinMemberTuple_cases b t (.noting (.asScalars b t) generic)
  · rw [hj] at h
    cases h
    obtain ⟨-, only, rfl, ho⟩ := unwrap?_eq_some_iff.1 hu
    have htakes := Atom.takes_iff.1 (Attempt.result_allowing_eq_some_iff.2 ⟨k, ho, hn⟩)
    cases htakes with
    | @metadata _ a ha =>
      obtain ⟨j, p⟩ := a
      cases ha.kind_eq_member rfl
      exact .member_singleton ha
  · rw [hj] at h
    cases h

theorem takes_of_absorb {ds : List Ref} {x : Item} {n : Nat}
    (h : (absorb ds x).outcome? = some (amorphous ds, n)) (hn : conversions = true ∨ n = 0) :
    (amorphous ds).Takes conversions x := by
  unfold absorb at h
  split at h
  · rename_i hnull
    rw [hnull]
    exact .amorphous_null ds
  · split at h
    · rename_i hx
      rw [Attempt.outcome?_paying] at h
      obtain ⟨hz, hprice⟩ := Prod.mk.inj (Option.some.inj h)
      obtain hcan : Ref.canonical (ds ++ x.dimensions) = ds := by simpa using hz
      rw [hcan, if_pos rfl] at hprice
      refine .amorphous hx ?_ (fun r hr => ?_) (hn.imp_right fun hn => ?_)
      · rw [← hcan]
        exact Ref.increasing_canonical _
      · rw [← hcan, Ref.mem_canonical]
        exact List.mem_append_right _ hr
      · by_contra hne
        rw [if_neg hne] at hprice
        omega
    · cases h

theorem takes_of_join {z x : Item} (h : ((z.join x).allowing conversions).result = some z) :
    z.Takes conversions x := by
  obtain ⟨n, ho, hn⟩ := Attempt.result_allowing_eq_some_iff.1 h
  cases z with
  | amorphous ds =>
    rw [join_amorphous] at ho
    exact takes_of_absorb ho hn
  | tuple zs =>
    cases x with
    | amorphous ds =>
      rw [join_comm, join_amorphous] at ho
      obtain ⟨es, hes⟩ := amorphous_of_absorb ho
      cases hes
    | tuple xs =>
      rw [join_tuples, Attempt.result_allowing_map] at h
      obtain ⟨ws, hws, heq⟩ := Option.map_eq_some_iff.1 h
      cases heq
      exact .tuples (takes_tuples_iff.1 hws)
    | atom a =>
      rw [join_tuple_atom] at ho
      obtain ⟨a', ha'⟩ := atom_of_join_tuple ho
      cases ha'
  | atom a =>
    cases x with
    | amorphous ds =>
      rw [join_comm, join_amorphous] at ho
      obtain ⟨es, hes⟩ := amorphous_of_absorb ho
      cases hes
    | tuple t =>
      cases ha : evaluates a with
      | false =>
        rw [join_atom_tuple t ha] at ho
        cases ho
      | true =>
        unfold evaluates at ha
        split at ha
        · cases ho
          exact .generic_tuple t (hn.resolve_right Nat.one_ne_zero)
        · exact takes_member_tuple ho hn
        · cases ha
    | atom b =>
      rw [join_atoms, Attempt.result_allowing_map] at h
      obtain ⟨c, hc, heq⟩ := Option.map_eq_some_iff.1 h
      cases heq
      exact .atoms (Atom.takes_iff.1 hc)

theorem takes_iff {z x : Item} :
    ((z.join x).allowing conversions).result = some z ↔ z.Takes conversions x := by
  refine ⟨takes_of_join, fun h => ?_⟩
  cases h with
  | atoms h =>
    rw [join_atoms, Attempt.result_allowing_map, Atom.takes_iff.2 h]
    rfl
  | tuples h =>
    rw [join_tuples, Attempt.result_allowing_map, takes_tuples_iff.2 h]
    rfl
  | @member_singleton b p h =>
    obtain ⟨n, ho, hn⟩ := Attempt.result_allowing_eq_some_iff.1 (Atom.takes_iff.2 (.metadata h))
    have hu : unwrap? b [.metadata ⟨.member, p⟩] = some (⟨.member, b⟩, n) :=
      unwrap?_eq_some_iff.2 ⟨rfl, _, rfl, ho⟩
    refine Attempt.result_allowing_eq_some_iff.2 ⟨n, ?_, hn⟩
    rw [join_member_tuple, joinMemberTuple_eq, hu, Attempt.outcome?_paying]
  | generic_tuple t hpay => exact Attempt.result_allowing_eq_some_iff.2 ⟨1, rfl, .inl hpay⟩
  | amorphous_null ds => exact Attempt.result_allowing_of_free rfl
  | @amorphous ds x hx hds hsub hpay =>
    refine Attempt.result_allowing_eq_some_iff.2 ⟨_, outcome?_absorb hds hx hsub, ?_⟩
    exact hpay.imp_right fun heq => if_pos heq

theorem Takes.refl {c : Catalog} {i : Item} (hi : i.WellFormed c) : i.Takes conversions i := by
  cases i with
  | atom a => exact .atoms (.refl hi)
  | tuple t => exact .tuples (List.forall₂_same.2 fun a ha => .refl (hi.2 a ha))
  | amorphous ds => exact .amorphous rfl hi (fun _ hr => hr) (.inr rfl)

/-! ## Elements of sets -/

/-- As elements of sets, items give back no more than otherwise: where the rules differ, another
item comes out. -/
theorem outcome?_join_of_elements {x z : Item} {n : Nat}
    (h : (z.joinElements x).outcome? = some (z, n)) : (z.join x).outcome? = some (z, n) := by
  obtain ⟨m, t, rfl, rfl⟩ | ⟨m, t, rfl, rfl⟩ | hzx := joinElements_cases z x
  · rw [joinElements_member_tuple] at h
    obtain ⟨b, k, hu, hj⟩ | ⟨-, hj⟩ := joinMemberTuple_cases m t
      (.noting (.structureLost m t) (fused m t))
    · rw [join_member_tuple, joinMemberTuple_eq, hu]
      rwa [joinMemberTuple_eq, hu] at h
    · rw [hj] at h
      cases h
  · rw [joinElements_tuple_member, joinElements_member_tuple] at h
    obtain ⟨b, k, hu, hj⟩ | ⟨-, hj⟩ := joinMemberTuple_cases m t
      (.noting (.structureLost m t) (fused m t))
    · rw [hj] at h
      cases h
    · rw [hj] at h
      cases h
  · rwa [hzx] at h

theorem takes_elements_iff {z x : Item} :
    ((z.joinElements x).allowing conversions).result = some z ↔ z.Takes conversions x := by
  rw [← takes_iff, Attempt.result_allowing_eq_some_iff, Attempt.result_allowing_eq_some_iff]
  constructor
  · rintro ⟨n, h, hn⟩
    exact ⟨n, outcome?_join_of_elements h, hn⟩
  · rintro ⟨n, h, hn⟩
    exact ⟨n, outcome?_joinElements h, hn⟩

end Item

/-! ## Types -/

namespace Ty

/-- Items related to items, elements of sets to elements of sets, and cubes to themselves. -/
inductive Lift (R : Item → Item → Prop) : Ty → Ty → Prop
  | item {z x : Item} : R z x → Lift R (.item z) (.item x)
  | set {z x : Item} : R z x → Lift R (.set z) (.set x)
  | cube (r : Ref) : Lift R (.cube r) (.cube r)

theorem lift_item_iff {R : Item → Item → Prop} {z x : Item} : Lift R (.item z) (.item x) ↔ R z x :=
  ⟨fun | .item h => h, .item⟩

theorem lift_set_iff {R : Item → Item → Prop} {z x : Item} : Lift R (.set z) (.set x) ↔ R z x :=
  ⟨fun | .set h => h, .set⟩

/-- What a type takes in. -/
def Takes (conversions : Bool) : Ty → Ty → Prop :=
  Lift (Item.Takes conversions)

theorem takes_of_join {z x : Ty} (h : ((z.join x).allowing conversions).result = some z) :
    z.Takes conversions x := by
  rw [join_eq] at h
  split at h
  · rw [Attempt.result_allowing_map] at h
    obtain ⟨j, hj, heq⟩ := Option.map_eq_some_iff.1 h
    cases heq
    exact .item (Item.takes_iff.1 hj)
  · rw [Attempt.result_allowing_map] at h
    obtain ⟨j, hj, heq⟩ := Option.map_eq_some_iff.1 h
    cases heq
    exact .set (Item.takes_elements_iff.1 hj)
  · split at h
    · rename_i heq
      cases heq
      exact .cube _
    · obtain ⟨n, h, -⟩ := Attempt.result_allowing_eq_some_iff.1 h
      cases h
  · obtain ⟨n, h, -⟩ := Attempt.result_allowing_eq_some_iff.1 h
    cases h

theorem takes_iff {z x : Ty} :
    ((z.join x).allowing conversions).result = some z ↔ z.Takes conversions x := by
  refine ⟨takes_of_join, fun h => ?_⟩
  cases h with
  | item h =>
    rw [join_items, Attempt.result_allowing_map, Item.takes_iff.2 h]
    rfl
  | set h =>
    rw [join_sets, Attempt.result_allowing_map, Item.takes_elements_iff.2 h]
    rfl
  | cube r =>
    rw [join_cubes, if_pos rfl]
    exact Attempt.result_allowing_of_free rfl

theorem Takes.refl {c : Catalog} {t : Ty} (ht : t.WellFormed c) : t.Takes conversions t := by
  cases t with
  | item i => exact .item (.refl ht)
  | set e => exact .set (.refl ht)
  | cube r => exact .cube r

/-- The common type of two types takes in both of them, for free if it was found for free. -/
theorem takes_operands {c : Catalog} {a b z : Ty} (ha : a.WellFormed c) (hb : b.WellFormed c)
    (h : ((a.join b).allowing conversions).result = some z) :
    z.Takes conversions a ∧ z.Takes conversions b := by
  obtain ⟨n, h, hn⟩ := Attempt.result_allowing_eq_some_iff.1 h
  obtain ⟨k, l, hk, hl, hmax, -⟩ := settles_join ha hb h
  simp only [← takes_iff, Attempt.result_allowing_eq_some_iff]
  exact ⟨⟨k, hk, hn.imp_right fun hn => by omega⟩, l, hl, hn.imp_right fun hn => by omega⟩

end Ty

end Hypercube
