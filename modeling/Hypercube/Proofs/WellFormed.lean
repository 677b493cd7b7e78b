import Hypercube.Proofs.Symmetry
import Hypercube.Ty.Define

/-!
# Well-formed types

A type is well-formed in a catalog if its digit counts make sense, its bindings are paths of the
catalog that stay within its kind, its tuples have positions, and its amorphous items list their
dimensions in increasing order.  That positions are atoms and elements of sets are items is part of
the types themselves.

* `Ty.WellFormed` — the predicate, with a decision procedure.
* `Metadata.wellFormed_join`, `Item.wellFormed_join`, `Ty.wellFormed_join` — unification keeps types
  well-formed, although it builds its results without checking them.
* `Ty.wellFormed_joinAll` — so does unification of a whole list.
-/

set_option autoImplicit false

namespace Hypercube

/-! ## The predicate -/

/-- Every element of a binding but the first lies in the element before it. -/
def Binding.Linked (c : Catalog) (b : Binding) : Prop :=
  ∀ k : Kind, ∀ r ∈ b[k.depth]?, k ≠ .dimension → c.container? ⟨k, r⟩ = b[k.depth - 1]?

instance (c : Catalog) (b : Binding) : Decidable (b.Linked c) :=
  decidable_of_iff
    (∀ k ∈ Kind.all, ∀ r ∈ b[k.depth]?, k ≠ .dimension → c.container? ⟨k, r⟩ = b[k.depth - 1]?)
    ⟨fun h k => h k (by cases k <;> decide), fun h k _ => h k⟩

/-- The binding is a path that ends within the kind. -/
structure Metadata.WellFormed (c : Catalog) (m : Metadata) : Prop where
  within : m.binding.length ≤ m.kind.fields
  linked : Binding.Linked c m.binding

instance (c : Catalog) (m : Metadata) : Decidable (m.WellFormed c) :=
  decidable_of_iff (m.binding.length ≤ m.kind.fields ∧ Binding.Linked c m.binding)
    ⟨fun h => ⟨h.1, h.2⟩, fun h => ⟨h.within, h.linked⟩⟩

/-- Scalars are valid and metadata types are well-formed. -/
def Atom.WellFormed (c : Catalog) : Atom → Prop
  | null => True
  | scalar s => s.Valid
  | metadata m => m.WellFormed c

instance (c : Catalog) : (a : Atom) → Decidable (a.WellFormed c)
  | .null => isTrue trivial
  | .scalar s => inferInstanceAs (Decidable s.Valid)
  | .metadata m => inferInstanceAs (Decidable (m.WellFormed c))

/-- Tuples have well-formed positions, at least one of them, and dimensions are increasing. -/
def Item.WellFormed (c : Catalog) : Item → Prop
  | atom a => a.WellFormed c
  | tuple positions => positions ≠ [] ∧ ∀ a ∈ positions, a.WellFormed c
  | amorphous ds => Ref.Increasing ds

instance (c : Catalog) : (i : Item) → Decidable (i.WellFormed c)
  | .atom a => inferInstanceAs (Decidable (a.WellFormed c))
  | .tuple positions =>
    inferInstanceAs (Decidable (positions ≠ [] ∧ ∀ a ∈ positions, a.WellFormed c))
  | .amorphous ds => inferInstanceAs (Decidable (Ref.Increasing ds))

/-- A type is well-formed if its item or its element is. -/
def Ty.WellFormed (c : Catalog) : Ty → Prop
  | item i => i.WellFormed c
  | set e => e.WellFormed c
  | cube _ => True

instance (c : Catalog) : (t : Ty) → Decidable (t.WellFormed c)
  | .item i => inferInstanceAs (Decidable (i.WellFormed c))
  | .set e => inferInstanceAs (Decidable (e.WellFormed c))
  | .cube _ => isTrue trivial

variable {c : Catalog}

/-! ## Scalars -/

theorem Decimal.integerDigits_of_valid {d : Decimal} (h : d.Valid) :
    d.integerDigits.toNat = d.precision.toNat - d.scale.toNat :=
  toNat_integerDigits h.2

theorem Decimal.valid_of_widen? {a b d : Decimal} (ha : a.Valid) (h : a.widen? b = some d) :
    d.Valid := by
  have hint := integerDigits_of_valid ha
  obtain ⟨hs, hp, -⟩ := widen?_eq_some_iff.1 h
  obtain ⟨h₁, h₂⟩ := ha
  exact ⟨by omega, by omega⟩

theorem Scalar.valid_of_common? {a b s : Scalar} (ha : a.Valid) (h : common? a b = some s) :
    s.Valid := by
  unfold common? at h
  split at h
  · split at h
    · rename_i hd
      cases h
      exact Decimal.valid_of_widen? ha hd
    · cases h
      trivial
  · cases h
    trivial
  · cases h
    trivial
  · cases h
    trivial
  · cases h
    trivial
  · cases h

theorem Scalar.valid_join {a b s : Scalar} (ha : a.Valid) (h : (a.join b).result = some s) :
    s.Valid := by
  unfold join at h
  split at h
  · cases h
    exact ha
  · split at h
    · rename_i hs
      cases h
      exact valid_of_common? ha hs
    · cases h

/-! ## Metadata -/

/-- Where a path ends early, the rest of it is still a path. -/
theorem Binding.Linked.of_prefix {b p : Binding} (h : b.Linked c) (hp : p <+: b) : p.Linked c := by
  intro k r hr hk
  have hlt : k.depth < p.length := (List.getElem?_eq_some_iff.1 hr).1
  rw [getElem?_prefix_eq hp (by omega)]
  exact h k r (getElem?_prefix_eq hp hlt ▸ hr) hk

/-- The common type knows nothing that none of its sides knows. -/
theorem Metadata.prefix_of_common? {a b m : Metadata} (h : common? a b = some m) :
    m.binding <+: a.binding ∨ m.binding <+: b.binding := by
  obtain ⟨-, rfl⟩ | ⟨-, rfl⟩ | ⟨-, rfl⟩ := common?_cases h
  · exact .inr (List.take_prefix _ _)
  · exact .inl (List.take_prefix _ _)
  · exact .inl ((List.take_prefix _ _).trans (Binding.shared_prefix_left _ _))

theorem Metadata.wellFormed_of_common? {a b m : Metadata} (ha : a.WellFormed c)
    (hb : b.WellFormed c) (h : common? a b = some m) : m.WellFormed c := by
  refine ⟨(covers_left_of_common? h).within, ?_⟩
  obtain hp | hp := prefix_of_common? h
  · exact ha.linked.of_prefix hp
  · exact hb.linked.of_prefix hp

theorem Metadata.wellFormed_join {a b m : Metadata} (ha : a.WellFormed c) (hb : b.WellFormed c)
    (h : (a.join b).result = some m) : m.WellFormed c := by
  unfold join at h
  split at h
  · rename_i hm
    cases h
    exact wellFormed_of_common? ha hb hm
  · cases h

/-! ## Atoms and tuples -/

theorem Atom.wellFormed_join {a b z : Atom} (ha : a.WellFormed c) (hb : b.WellFormed c)
    (h : (a.join b).result = some z) : z.WellFormed c := by
  unfold join at h
  split at h
  · cases h
    trivial
  · cases h
    exact hb
  · cases h
    exact ha
  · obtain ⟨s, hs, rfl⟩ := Option.map_eq_some_iff.1 h
    exact Scalar.valid_join ha hs
  · obtain ⟨m, hm, rfl⟩ := Option.map_eq_some_iff.1 h
    exact Metadata.wellFormed_join ha hb hm
  · cases h
    trivial
  · cases h
    trivial
  · cases h

theorem wellFormed_joinPositions {xs ys zs : List Atom} (hx : ∀ a ∈ xs, a.WellFormed c)
    (hy : ∀ a ∈ ys, a.WellFormed c) (h : (joinPositions xs ys).result = some zs) :
    ∀ a ∈ zs, a.WellFormed c := by
  induction xs generalizing ys zs with
  | nil =>
    cases h
    exact hx
  | cons x xs ih =>
    cases ys with
    | nil =>
      cases h
      exact hy
    | cons y ys =>
      obtain ⟨z, zs', hz, hzs, rfl⟩ := joinPositions_cons_result.1 h
      intro a ha
      rcases List.mem_cons.1 ha with rfl | ha
      · exact Atom.wellFormed_join (hx x (by simp)) (hy y (by simp)) hz
      · exact ih (fun b hb => hx b (List.mem_cons_of_mem x hb))
          (fun b hb => hy b (List.mem_cons_of_mem y hb)) hzs a ha

/-- A joined tuple has as many positions as each of its sides. -/
theorem joinTuples_length {xs ys zs : List Atom} (h : (joinTuples xs ys).result = some zs) :
    zs.length = xs.length ∧ xs.length = ys.length := by
  rw [joinTuples_eq] at h
  split at h
  · rename_i hlen
    refine ⟨?_, hlen⟩
    induction xs generalizing ys zs with
    | nil =>
      cases h
      rfl
    | cons x xs ih =>
      cases ys with
      | nil => cases hlen
      | cons y ys =>
        obtain ⟨z, zs', -, hzs, rfl⟩ := joinPositions_cons_result.1 h
        simp only [List.length_cons]
        rw [ih (Nat.succ.inj hlen) hzs]
  · cases h

theorem wellFormed_joinTuples {xs ys zs : List Atom} (hx : (Item.tuple xs).WellFormed c)
    (hy : (Item.tuple ys).WellFormed c) (h : (joinTuples xs ys).result = some zs) :
    (Item.tuple zs).WellFormed c := by
  obtain ⟨hlen, hlen'⟩ := joinTuples_length h
  rw [joinTuples_eq, if_pos hlen'] at h
  refine ⟨?_, wellFormed_joinPositions hx.2 hy.2 h⟩
  intro hnil
  rw [hnil] at hlen
  exact hx.1 (List.eq_nil_of_length_eq_zero hlen.symm)

/-! ## Items -/

namespace Item

theorem wellFormed_joinMemberTuple {m : Binding} {t : List Atom} {fallback : Attempt Item}
    {z : Item} (hm : (member m).WellFormed c) (ht : (tuple t).WellFormed c)
    (hf : ∀ i, fallback.result = some i → i.WellFormed c)
    (h : (joinMemberTuple m t fallback).result = some z) : z.WellFormed c := by
  obtain ⟨b, n, hu, hj⟩ | ⟨-, hj⟩ := joinMemberTuple_cases m t fallback
  · rw [hj] at h
    cases h
    obtain ⟨-, only, rfl, ho⟩ := unwrap?_eq_some_iff.1 hu
    exact Atom.wellFormed_join (a := .metadata ⟨.member, m⟩) hm (ht.2 only (by simp))
      (Attempt.outcome?_eq_some_iff.1 ho).1
  · rw [hj] at h
    exact hf z h

theorem wellFormed_absorb {ds : List Ref} {y z : Item} (hd : Ref.Increasing ds)
    (h : (absorb ds y).result = some z) : z.WellFormed c := by
  unfold absorb at h
  split at h
  · cases h
    exact hd
  · split at h
    · cases h
      exact Ref.increasing_canonical _
    · cases h

theorem wellFormed_join {x y z : Item} (hx : x.WellFormed c) (hy : y.WellFormed c)
    (h : (x.join y).result = some z) : z.WellFormed c := by
  induction x, y using pair_cases with
  | symm x y ih => exact ih hy hx (join_comm x y ▸ h)
  | amorphous ds y => exact wellFormed_absorb hx h
  | tuples xs ys =>
    obtain ⟨zs, hzs, rfl⟩ := Option.map_eq_some_iff.1 h
    exact wellFormed_joinTuples hx hy hzs
  | member_tuple m t =>
    refine wellFormed_joinMemberTuple hx hy ?_ h
    intro i hi
    cases hi
    trivial
  | generic_tuple t =>
    cases h
    trivial
  | atom_tuple a t ha =>
    rw [join_atom_tuple t ha] at h
    cases h
  | atoms a b =>
    rw [join_atoms] at h
    obtain ⟨a', ha', rfl⟩ := Option.map_eq_some_iff.1 h
    exact Atom.wellFormed_join hx hy ha'

theorem wellFormed_joinElements {x y z : Item} (hx : x.WellFormed c) (hy : y.WellFormed c)
    (h : (x.joinElements y).result = some z) : z.WellFormed c := by
  have mixed : ∀ m t, (member m).WellFormed c → (tuple t).WellFormed c →
      ((member m).joinElements (tuple t)).result = some z → z.WellFormed c := by
    intro m t hm ht h
    rw [joinElements_member_tuple] at h
    refine wellFormed_joinMemberTuple hm ht ?_ h
    intro i hi
    cases hi
    exact Ref.increasing_canonical _
  obtain ⟨m, t, rfl, rfl⟩ | ⟨m, t, rfl, rfl⟩ | hxy := joinElements_cases x y
  · exact mixed m t hx hy h
  · exact mixed m t hy hx h
  · exact wellFormed_join hx hy (hxy ▸ h)

end Item

/-! ## Types -/

namespace Ty

theorem wellFormed_join {a b t : Ty} (ha : a.WellFormed c) (hb : b.WellFormed c)
    (h : (a.join b).result = some t) : t.WellFormed c := by
  rw [join_eq] at h
  split at h
  · obtain ⟨z, hz, rfl⟩ := Option.map_eq_some_iff.1 h
    exact Item.wellFormed_join ha hb hz
  · obtain ⟨z, hz, rfl⟩ := Option.map_eq_some_iff.1 h
    exact Item.wellFormed_joinElements ha hb hz
  · split at h
    · cases h
      trivial
    · cases h
  · cases h

/-- Keeping results that are free, or all of them, leaves them as they are. -/
theorem result_of_allowing {x : Attempt Ty} {conversions : Bool} {t : Ty}
    (h : (x.allowing conversions).result = some t) : x.result = some t := by
  unfold Attempt.allowing at h
  split at h
  · exact h
  · cases h

theorem wellFormed_joinFrom {conversions : Bool} {t z : Ty} {us : List Ty} (ht : t.WellFormed c)
    (hus : ∀ u ∈ us, u.WellFormed c) (h : (joinFrom conversions t us).result = some z) :
    z.WellFormed c := by
  induction us generalizing t with
  | nil =>
    cases h
    exact ht
  | cons u us ih =>
    rw [joinFrom_cons, Attempt.result_bind] at h
    obtain ⟨joined, hj, hz⟩ := Option.bind_eq_some_iff.1 h
    exact ih (wellFormed_join ht (hus u (by simp)) (result_of_allowing hj))
      (fun v hv => hus v (List.mem_cons_of_mem u hv)) hz

theorem wellFormed_joinAll {conversions : Bool} {ts : List Ty} {z : Ty}
    (hts : ∀ t ∈ ts, t.WellFormed c) (h : (joinAll conversions ts).result = some z) :
    z.WellFormed c := by
  cases ts with
  | nil => cases h
  | cons t ts =>
    exact wellFormed_joinFrom (hts t (by simp)) (fun u hu => hts u (List.mem_cons_of_mem t hu)) h

end Ty

end Hypercube
