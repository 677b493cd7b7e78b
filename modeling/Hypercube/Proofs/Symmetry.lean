import Hypercube.Proofs.Digits
import Hypercube.Proofs.Paths
import Hypercube.Unify.Basic
import Hypercube.Unify.Report

/-!
# Unification does not depend on the order of its operands

The rules of unification are read from the top, and several of them name a left and a right side.
Here each rule is stated once for each pair of shapes, and the whole is shown to be symmetric: the
result, the conversions, and the notes.

* `Item.join_atoms`, `Item.join_member_tuple`, … — the rule for each pair of shapes.
* `Item.pair_cases` — a symmetric statement about two items needs one case for each rule.
* `Ty.join_comm` — unifying `a` with `b` is unifying `b` with `a`.
-/

set_option autoImplicit false

namespace Hypercube

/-! ## Parts of an attempt -/

namespace Attempt

variable {α β : Type}

@[simp] theorem result_map (f : α → β) (x : Attempt α) : (x.map f).result = x.result.map f := rfl

@[simp] theorem conversions_map (f : α → β) (x : Attempt α) :
    (x.map f).conversions = x.conversions := rfl

@[simp] theorem outcome?_free (a : α) : (free a).outcome? = some (a, 0) := rfl

@[simp] theorem outcome?_paying (n : Nat) (a : α) : (paying n a).outcome? = some (a, n) := rfl

@[simp] theorem outcome?_noting (note : Note) (a : α) :
    (noting note a).outcome? = some (a, 1) := rfl

/-- An attempt has an outcome where it has a result. -/
theorem outcome?_eq_some_iff {x : Attempt α} {a : α} {n : Nat} :
    x.outcome? = some (a, n) ↔ x.result = some a ∧ x.conversions = n := by
  unfold outcome?
  cases x.result with
  | none => simp
  | some a' => simp

theorem outcome?_map_eq_some_iff {f : α → β} {x : Attempt α} {b : β} {n : Nat} :
    (x.map f).outcome? = some (b, n) ↔ ∃ a, x.outcome? = some (a, n) ∧ f a = b := by
  simp only [outcome?_eq_some_iff, result_map, conversions_map, Option.map_eq_some_iff]
  constructor
  · rintro ⟨⟨a, ha, hb⟩, hn⟩
    exact ⟨a, ⟨ha, hn⟩, hb⟩
  · rintro ⟨a, ⟨ha, hn⟩, hb⟩
    exact ⟨⟨a, ha, hb⟩, hn⟩

end Attempt

/-! ## Scalars -/

namespace Scalar

theorem common?_comm (a b : Scalar) : common? a b = common? b a := by
  cases a <;> cases b <;> simp only [common?, Decimal.widen?_comm]

theorem settle_comm (a b joined : Scalar) : settle a b joined = settle b a joined := by
  unfold settle
  rw [Nat.add_comm]

theorem join_comm (a b : Scalar) : a.join b = b.join a := by
  by_cases h : a = b
  · rw [h]
  · unfold join
    rw [if_neg h, if_neg (Ne.symm h), common?_comm]
    split
    · exact settle_comm a b _
    · rfl

end Scalar

/-! ## Metadata -/

theorem Metadata.join_comm (a b : Metadata) : a.join b = b.join a := by
  unfold join
  rw [common?_comm, Nat.max_comm]

/-! ## Atoms -/

/-- Scalar and metadata types meet only as the generic scalar and a member. -/
theorem Atom.join_scalar_metadata (s : Scalar) (m : Metadata) :
    (scalar s).join (metadata m) =
      if s = .generic ∧ m.kind = .member then .paying 1 (.scalar .generic) else .refuse := by
  obtain ⟨k, b⟩ := m
  cases s <;> cases k <;> rfl

theorem Atom.join_metadata_scalar (s : Scalar) (m : Metadata) :
    (metadata m).join (scalar s) =
      if s = .generic ∧ m.kind = .member then .paying 1 (.scalar .generic) else .refuse := by
  obtain ⟨k, b⟩ := m
  cases s <;> cases k <;> rfl

theorem Atom.join_comm (a b : Atom) : a.join b = b.join a := by
  cases a with
  | null => cases b <;> rfl
  | scalar x =>
    cases b with
    | null => rfl
    | scalar y => simp only [join, Scalar.join_comm x y]
    | metadata y => rw [join_scalar_metadata, join_metadata_scalar]
  | metadata x =>
    cases b with
    | null => rfl
    | scalar y => rw [join_scalar_metadata, join_metadata_scalar]
    | metadata y => simp only [join, Metadata.join_comm x y]

/-! ## Tuples -/

theorem joinPositions_comm (xs ys : List Atom) : joinPositions xs ys = joinPositions ys xs := by
  induction xs generalizing ys with
  | nil => cases ys <;> rfl
  | cons x xs ih =>
    cases ys with
    | nil => rfl
    | cons y ys => simp only [joinPositions_cons, Atom.join_comm x y, ih ys]

/-- The first positions are unified first, and the rest if that succeeds. -/
theorem joinPositions_cons_result {x y : Atom} {xs ys zs : List Atom} :
    (joinPositions (x :: xs) (y :: ys)).result = some zs ↔
      ∃ z zs', (x.join y).result = some z ∧ (joinPositions xs ys).result = some zs' ∧
        zs = z :: zs' := by
  simp only [joinPositions_cons, Attempt.result_bind, Option.bind_eq_some_iff, Attempt.pure_eq_free,
    Attempt.free, Option.some.injEq]
  constructor
  · rintro ⟨z, hz, zs', hzs, rfl⟩
    exact ⟨z, zs', hz, hzs, rfl⟩
  · rintro ⟨z, zs', hz, hzs, rfl⟩
    exact ⟨z, hz, zs', hzs, rfl⟩

theorem joinTuples_comm (xs ys : List Atom) : joinTuples xs ys = joinTuples ys xs := by
  by_cases h : xs.length = ys.length
  · simp only [joinTuples_eq, if_pos h, if_pos h.symm, joinPositions_comm xs ys]
  · simp only [joinTuples_eq, if_neg h, if_neg (Ne.symm h)]

/-- The member type that a member and the only position of a tuple have in common. -/
def unwrap? (member : Binding) : List Atom → Option (Metadata × Nat)
  | [only] =>
    let joined := (Atom.metadata ⟨.member, member⟩).join only
    match joined.result with
    | some (.metadata ⟨.member, b⟩) => some (⟨.member, b⟩, joined.conversions)
    | _ => none
  | _ => none

/-- A tuple is unwrapped if it has one position, and this has a member type in common with the
member. -/
theorem unwrap?_eq_some_iff {m : Binding} {t : List Atom} {joined : Metadata} {n : Nat} :
    unwrap? m t = some (joined, n) ↔
      joined.kind = .member ∧ ∃ only, t = [only] ∧
        ((Atom.metadata ⟨.member, m⟩).join only).outcome? = some (.metadata joined, n) := by
  obtain ⟨k, b⟩ := joined
  unfold unwrap?
  constructor
  · intro h
    split at h
    · rename_i only
      simp only at h
      split at h
      · rename_i b' hb
        cases h
        exact ⟨rfl, only, rfl, Attempt.outcome?_eq_some_iff.2 ⟨hb, rfl⟩⟩
      · cases h
    · cases h
  · rintro ⟨hk, only, rfl, h⟩
    obtain ⟨hr, hn⟩ := Attempt.outcome?_eq_some_iff.1 h
    cases hk
    simp only [hr, hn]

/-! ## Items -/

namespace Item

/-- The item of a member type. -/
@[match_pattern] abbrev member (b : Binding) : Item := .atom (.metadata ⟨.member, b⟩)

/-- The item of the generic scalar. -/
@[match_pattern] abbrev generic : Item := .atom (.scalar .generic)

/-- Atoms that evaluate to a scalar of which nothing more is known, as tuples do. -/
def evaluates : Atom → Bool
  | .scalar .generic | .metadata ⟨.member, _⟩ => true
  | _ => false

theorem join_amorphous (ds : List Ref) (y : Item) : (amorphous ds).join y = absorb ds y := by
  cases y <;> rfl

theorem join_atoms (x y : Atom) : (atom x).join (atom y) = .map .atom (x.join y) := by
  cases x with
  | null => rfl
  | scalar s => cases s <;> rfl
  | metadata m =>
    obtain ⟨k, b⟩ := m
    cases k <;> rfl

theorem join_tuples (xs ys : List Atom) :
    (tuple xs).join (tuple ys) = .map .tuple (joinTuples xs ys) := rfl

theorem join_member_tuple (m : Binding) (t : List Atom) :
    (member m).join (tuple t) =
      joinMemberTuple m t (.noting (.asScalars m t) generic) := rfl

theorem joinMemberTuple_eq (m : Binding) (t : List Atom) (fallback : Attempt Item) :
    joinMemberTuple m t fallback =
      match unwrap? m t with
      | some (joined, n) => .paying n (.atom (.metadata joined))
      | none => fallback := by
  rcases t with _ | ⟨only, _ | ⟨second, rest⟩⟩
  · rfl
  · show Attempt.trial ((Atom.metadata ⟨.member, m⟩).join only) ofMember? fallback = _
    simp only [Attempt.trial, unwrap?]
    rcases ((Atom.metadata ⟨.member, m⟩).join only).result with _ | _ | _ | ⟨k, b⟩
    · rfl
    · rfl
    · rfl
    · cases k <;> rfl
  · rfl

/-- A member and a tuple become the member type that they have in common, or the fallback. -/
theorem joinMemberTuple_cases (m : Binding) (t : List Atom) (fallback : Attempt Item) :
    (∃ b n, unwrap? m t = some (⟨.member, b⟩, n) ∧
      joinMemberTuple m t fallback = .paying n (member b)) ∨
    (unwrap? m t = none ∧ joinMemberTuple m t fallback = fallback) := by
  rw [joinMemberTuple_eq]
  cases h : unwrap? m t with
  | none => exact .inr ⟨rfl, rfl⟩
  | some p =>
    obtain ⟨⟨k, b⟩, n⟩ := p
    obtain ⟨hk, -⟩ := unwrap?_eq_some_iff.1 h
    cases hk
    exact .inl ⟨b, n, rfl, rfl⟩

theorem join_atom_tuple {a : Atom} (t : List Atom) (h : evaluates a = false) :
    (atom a).join (tuple t) = .refuse := by
  cases a with
  | null => rfl
  | scalar s =>
    cases s with
    | generic => cases h
    | string | numeric | decimal | dateTime | boolean | symbol => rfl
  | metadata m =>
    obtain ⟨k, b⟩ := m
    cases k with
    | member => cases h
    | dimension | hierarchy | level => rfl

theorem join_tuple_atom (a : Atom) (t : List Atom) :
    (tuple t).join (atom a) = (atom a).join (tuple t) := by
  cases a with
  | null => rfl
  | scalar s => cases s <;> rfl
  | metadata m =>
    obtain ⟨k, b⟩ := m
    cases k <;> rfl

theorem absorb_amorphous (ds es : List Ref) :
    absorb ds (.amorphous es) =
      .paying ((if amorphous es = amorphous (Ref.canonical (ds ++ es)) then 0 else 1) +
          (if amorphous ds = amorphous (Ref.canonical (ds ++ es)) then 0 else 1))
        (amorphous (Ref.canonical (ds ++ es))) := rfl

/-- Two amorphous items take each other in, to the same item at the same price. -/
theorem absorb_comm (ds es : List Ref) : absorb ds (.amorphous es) = absorb es (.amorphous ds) := by
  rw [absorb_amorphous, absorb_amorphous, Ref.canonical_append_comm, Nat.add_comm]

theorem join_comm (x y : Item) : x.join y = y.join x := by
  cases x with
  | amorphous ds =>
    cases y with
    | amorphous es => exact absorb_comm ds es
    | atom a => cases a <;> rfl
    | tuple t => rfl
  | atom a =>
    cases y with
    | amorphous ds => cases a <;> rfl
    | atom b => rw [join_atoms, join_atoms, Atom.join_comm]
    | tuple t => exact (join_tuple_atom a t).symm
  | tuple t =>
    cases y with
    | amorphous ds => rfl
    | atom a => exact join_tuple_atom a t
    | tuple u => rw [join_tuples, join_tuples, joinTuples_comm]

/-- A symmetric statement about two items has one case for each rule of unification. -/
theorem pair_cases {P : Item → Item → Prop} (symm : ∀ x y, P x y → P y x)
    (amorphous : ∀ ds y, P (.amorphous ds) y)
    (tuples : ∀ xs ys, P (.tuple xs) (.tuple ys))
    (member_tuple : ∀ m t, P (member m) (.tuple t))
    (generic_tuple : ∀ t, P generic (.tuple t))
    (atom_tuple : ∀ a t, evaluates a = false → P (.atom a) (.tuple t))
    (atoms : ∀ a b, P (.atom a) (.atom b)) (x y : Item) : P x y := by
  have mixed : ∀ a t, P (.atom a) (.tuple t) := by
    intro a t
    cases h : evaluates a with
    | false => exact atom_tuple a t h
    | true =>
      unfold evaluates at h
      split at h
      · exact generic_tuple t
      · exact member_tuple _ t
      · cases h
  cases x with
  | amorphous ds => exact amorphous ds y
  | atom a =>
    cases y with
    | amorphous ds => exact symm _ _ (amorphous ds _)
    | atom b => exact atoms a b
    | tuple t => exact mixed a t
  | tuple t =>
    cases y with
    | amorphous ds => exact symm _ _ (amorphous ds _)
    | atom a => exact symm _ _ (mixed a t)
    | tuple u => exact tuples t u

/-! ## Elements of sets -/

/-- The item over the dimensions of a member and a tuple that share no structure. -/
abbrev fused (m : Binding) (t : List Atom) : Item :=
  .amorphous (Ref.canonical ((member m).dimensions ++ (tuple t).dimensions))

theorem joinElements_member_tuple (m : Binding) (t : List Atom) :
    (member m).joinElements (tuple t) =
      joinMemberTuple m t (.noting (.structureLost m t) (fused m t)) := rfl

theorem joinElements_tuple_member (m : Binding) (t : List Atom) :
    (tuple t).joinElements (member m) = (member m).joinElements (tuple t) := rfl

/-- As elements of sets, items are unified as usual unless they are a member and a tuple. -/
theorem joinElements_cases (x y : Item) :
    (∃ m t, x = member m ∧ y = tuple t) ∨ (∃ m t, x = tuple t ∧ y = member m) ∨
      x.joinElements y = x.join y := by
  unfold joinElements joinElementsM
  split
  · rename_i m t
    exact .inl ⟨m, t, rfl, rfl⟩
  · rename_i t m
    exact .inr (.inl ⟨m, t, rfl, rfl⟩)
  · exact .inr (.inr rfl)

theorem joinElements_comm (x y : Item) : x.joinElements y = y.joinElements x := by
  obtain ⟨m, t, rfl, rfl⟩ | ⟨m, t, rfl, rfl⟩ | hx := joinElements_cases x y
  · exact (joinElements_tuple_member m t).symm
  · exact joinElements_tuple_member m t
  · obtain ⟨m, t, rfl, rfl⟩ | ⟨m, t, rfl, rfl⟩ | hy := joinElements_cases y x
    · exact joinElements_tuple_member m t
    · exact (joinElements_tuple_member m t).symm
    · rw [hx, hy, join_comm]

end Item

/-! ## Types -/

namespace Ty

theorem join_comm (a b : Ty) : a.join b = b.join a := by
  cases a with
  | item x =>
    cases b with
    | item y => rw [join_items, join_items, Item.join_comm]
    | set y => rfl
    | cube r => rfl
  | set x =>
    cases b with
    | item y => rfl
    | set y => rw [join_sets, join_sets, Item.joinElements_comm]
    | cube r => rfl
  | cube q =>
    cases b with
    | item y => rfl
    | set y => rfl
    | cube r =>
      by_cases h : q = r
      · rw [h]
      · rw [join_cubes, join_cubes, if_neg h, if_neg (Ne.symm h)]

/-- Metadata types are unified as such. -/
theorem join_metadata (a b : Metadata) :
    (Ty.metadata a).join (.metadata b) = (a.join b).map .metadata := by
  simp only [join_items, Item.join_atoms, Atom.join, Attempt.map, Option.map_map]
  rfl

/-- Where conversions are allowed, unifying a list goes on from each common type. -/
theorem joinFrom_allowing_result (t u : Ty) (us : List Ty) :
    (joinFrom true t (u :: us)).result =
      (t.join u).result.bind fun j => (joinFrom true j us).result := by
  have hallow : (t.join u).allowing true = t.join u := if_pos (.inl rfl)
  rw [joinFrom_cons, hallow, Attempt.result_bind]

/-- Unifying two types in either order has the same outcome, common type and conversions alike, and
reports the same messages. -/
theorem unification_is_symmetric (a b : Ty) :
    (a.join b).outcome? = (b.join a).outcome? ∧
      ∀ c : Catalog,
        (a.join b).notes.map (Note.render c) = (b.join a).notes.map (Note.render c) := by
  rw [join_comm a b]
  exact ⟨rfl, fun _ => rfl⟩

end Ty

end Hypercube
