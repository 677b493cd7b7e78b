import Hypercube.Proofs.SharedBindings
import Hypercube.Ty.Shape

/-!
# Sets that can be united have a common type of the same hierarchies

Whether two sets can be united is asked of the hierarchies of their elements alone.  Unification
looks at kinds, levels and members as well, and gives up what they do not agree on.  Where the
hierarchies are known, it never gives up so much that a hierarchy is lost, and the sets have a
common type which can be united with both of them.

* `Metadata.common?_of_hierarchy` — types that are bound to one hierarchy have a common type that is
  bound to it.
* `joinPositions_of_hierarchies` — the same for tuples, position by position.
* `Item.joinElements_of_hierarchies` — the same for elements of sets, unless a tuple meets something
  else.
* `Ty.unionCompatible_iff` — sets whose elements have the same hierarchies.
* `Ty.union_compatible_sets_unify` — the statement for sets.
-/

set_option autoImplicit false

namespace Hypercube

variable {c : Catalog}

/-! ## Metadata types of one hierarchy -/

/-- Types that are bound to one hierarchy share the path down to it, whatever they are bound to
below. -/
theorem Metadata.common?_of_hierarchy {a b : Metadata} {h : Ref} (ha : a.WellFormed c)
    (hb : b.WellFormed c) (hah : a.bound? .hierarchy = some h)
    (hbh : b.bound? .hierarchy = some h) :
    ∃ m, common? a b = some m ∧ m.bound? .hierarchy = some h := by
  have hna : a.binding ≠ [] := List.ne_nil_of_mem (List.mem_of_getElem? hah)
  have hnb : b.binding ≠ [] := List.ne_nil_of_mem (List.mem_of_getElem? hbh)
  have hshared : (Binding.shared a.binding b.binding)[Kind.hierarchy.depth]? = some h :=
    (Binding.getElem?_shared_iff ha.linked hb.linked).2 ⟨hah, hbh⟩
  have hne : Binding.shared a.binding b.binding ≠ [] :=
    List.ne_nil_of_mem (List.mem_of_getElem? hshared)
  refine ⟨⟨sharedKind a b, Binding.shared a.binding b.binding⟩, ?_, hshared⟩
  rw [common?_eq_shared ha hb hna hnb, if_neg hne]

namespace Atom

theorem exists_metadata_of_bound? {a : Atom} {k : Kind} {r : Ref} (h : a.bound? k = some r) :
    ∃ m, a = metadata m ∧ m.bound? k = some r := by
  cases a with
  | null => cases h
  | scalar s => cases h
  | metadata m => exact ⟨m, rfl, h⟩

theorem join_of_hierarchy {x y : Atom} {h : Ref} (hx : x.WellFormed c) (hy : y.WellFormed c)
    (hxh : x.bound? .hierarchy = some h) (hyh : y.bound? .hierarchy = some h) :
    ∃ z, (x.join y).result = some z ∧ z.bound? .hierarchy = some h := by
  obtain ⟨a, rfl, ha⟩ := exists_metadata_of_bound? hxh
  obtain ⟨b, rfl, hb⟩ := exists_metadata_of_bound? hyh
  obtain ⟨m, hm, hmh⟩ := Metadata.common?_of_hierarchy hx hy ha hb
  refine ⟨metadata m, ?_, hmh⟩
  rw [join, Attempt.result_map, Metadata.join, hm]
  rfl

end Atom

/-! ## Tuples -/

/-- Tuples of the same known hierarchies are unified in every position, and keep all of them. -/
theorem joinPositions_of_hierarchies {xs ys : List Atom} (hx : ∀ a ∈ xs, a.WellFormed c)
    (hy : ∀ a ∈ ys, a.WellFormed c)
    (hsame : xs.map (·.bound? .hierarchy) = ys.map (·.bound? .hierarchy))
    (hknown : ∀ o ∈ xs.map (·.bound? .hierarchy), o ≠ none) :
    ∃ zs, (joinPositions xs ys).result = some zs ∧
      zs.map (·.bound? .hierarchy) = xs.map (·.bound? .hierarchy) := by
  induction xs generalizing ys with
  | nil => exact ⟨[], rfl, rfl⟩
  | cons x xs ih =>
    cases ys with
    | nil => cases hsame
    | cons y ys =>
      obtain ⟨hfirst, hrest⟩ := List.cons.inj hsame
      obtain ⟨hxk, hxsk⟩ := List.forall_mem_cons.1 hknown
      obtain ⟨hxw, hxsw⟩ := List.forall_mem_cons.1 hx
      obtain ⟨hyw, hysw⟩ := List.forall_mem_cons.1 hy
      obtain ⟨h, hxh⟩ : ∃ h, x.bound? .hierarchy = some h := Option.ne_none_iff_exists'.1 hxk
      obtain ⟨z, hz, hzh⟩ := Atom.join_of_hierarchy hxw hyw hxh (hfirst.symm.trans hxh)
      obtain ⟨zs, hzs, hzsh⟩ := ih hxsw hysw hrest hxsk
      refine ⟨z :: zs, joinPositions_cons_result.2 ⟨z, zs, hz, hzs, rfl⟩, ?_⟩
      rw [List.map_cons, List.map_cons, hzh, hxh, hzsh]

/-! ## Elements of sets -/

namespace Item

/-- What is no tuple, and has a known hierarchy, is a metadata type. -/
theorem exists_atom_of_known {i : Item} (htuple : ¬∃ t, i = tuple t)
    (hknown : ∀ o ∈ i.hierarchies, o ≠ none) :
    ∃ a h, i = atom a ∧ a.bound? .hierarchy = some h ∧ i.hierarchies = [some h] := by
  cases i with
  | tuple t => exact absurd ⟨t, rfl⟩ htuple
  | amorphous ds => exact absurd rfl (hknown none (List.mem_singleton.2 rfl))
  | atom a =>
    obtain ⟨h, hh⟩ := Option.ne_none_iff_exists'.1 (hknown (a.bound? .hierarchy)
      (List.mem_singleton.2 rfl))
    exact ⟨a, h, rfl, hh, congrArg ([·]) hh⟩

/-- Atoms are unified as elements of sets in the same way as otherwise. -/
theorem joinElements_atoms (a b : Atom) :
    (atom a).joinElements (atom b) = (atom a).join (atom b) := by
  obtain ⟨m, t, -, hb⟩ | ⟨m, t, ha, -⟩ | hjoin := joinElements_cases (atom a) (atom b)
  · cases hb
  · cases ha
  · exact hjoin

/-- Elements of the same known hierarchies have a common element of these hierarchies, if both or
none of them are tuples.  Otherwise a member and a tuple of one position may meet, which can lose
their structure. -/
theorem joinElements_of_hierarchies {x y : Item} (hx : x.WellFormed c) (hy : y.WellFormed c)
    (hsame : x.hierarchies = y.hierarchies) (hknown : ∀ o ∈ x.hierarchies, o ≠ none)
    (hshape : (∃ t, x = tuple t) ↔ ∃ t, y = tuple t) :
    ∃ z, (x.joinElements y).result = some z ∧ z.hierarchies = x.hierarchies := by
  by_cases htuple : ∃ t, x = tuple t
  · obtain ⟨u, rfl⟩ := hshape.1 htuple
    obtain ⟨t, rfl⟩ := htuple
    have hlen : t.length = u.length := by
      have := congrArg List.length hsame
      simpa only [hierarchies, List.length_map] using this
    obtain ⟨zs, hzs, hzsh⟩ := joinPositions_of_hierarchies hx.2 hy.2 hsame hknown
    refine ⟨tuple zs, ?_, hzsh⟩
    show ((tuple t).join (tuple u)).result = _
    rw [join_tuples, Attempt.result_map, joinTuples_eq, if_pos hlen, hzs]
    rfl
  · obtain ⟨a, h, rfl, ha, hxh⟩ := exists_atom_of_known htuple hknown
    obtain ⟨b, h', rfl, hb, hyh⟩ := exists_atom_of_known (mt hshape.2 htuple) (hsame ▸ hknown)
    obtain rfl : h = h' := by
      rw [hxh, hyh] at hsame
      exact Option.some.inj (List.cons.inj hsame).1
    obtain ⟨z, hz, hzh⟩ := Atom.join_of_hierarchy hx hy ha hb
    refine ⟨atom z, ?_, ?_⟩
    · rw [joinElements_atoms, join_atoms, Attempt.result_map, hz]
      rfl
    · rw [hxh]
      exact congrArg ([·]) hzh

end Item

/-! ## Sets -/

namespace Ty

/-- Sets can be united if their elements have the same hierarchies. -/
theorem unionCompatible_iff {a b : Ty} :
    a.unionCompatible b = true ↔
      ∃ x y, a = .set x ∧ b = .set y ∧ x.hierarchies = y.hierarchies := by
  constructor
  · intro h
    simp only [unionCompatible, Bool.and_eq_true, beq_iff_eq] at h
    obtain ⟨⟨ha, hb⟩, hsame⟩ := h
    cases a with
    | item i => cases ha
    | cube r => cases ha
    | set x =>
      cases b with
      | item i => cases hb
      | cube r => cases hb
      | set y => exact ⟨x, y, rfl, rfl, hsame⟩
  · rintro ⟨x, y, rfl, rfl, hsame⟩
    simp only [unionCompatible, isSet, hierarchies, hsame, beq_self_eq_true, Bool.and_self]

/-- Two sets that can be united have a common type if all their hierarchies are known, and both or
none of them are sets of tuples.  It is a set of the same hierarchies, and so it can be united with
either of them. -/
theorem union_compatible_sets_unify {a b : Ty} (ha : a.WellFormed c) (hb : b.WellFormed c)
    (hcompatible : a.unionCompatible b = true) (hknown : ∀ o ∈ a.hierarchies, o ≠ none)
    (hshape : (∃ t, a = .set (.tuple t)) ↔ ∃ t, b = .set (.tuple t)) :
    ∃ j n, (a.join b).outcome? = some (j, n) ∧ j.isSet = true ∧
      j.hierarchies = a.hierarchies ∧ j.unionCompatible a = true ∧ j.unionCompatible b = true := by
  obtain ⟨x, y, rfl, rfl, hsame⟩ := unionCompatible_iff.1 hcompatible
  simp only [Ty.set.injEq] at hshape
  obtain ⟨z, hz, hzh⟩ := Item.joinElements_of_hierarchies ha hb hsame hknown hshape
  have hjoin : (((Ty.set x).join (.set y))).result = some (.set z) := by
    rw [join_sets, Attempt.result_map, hz]
    rfl
  exact ⟨.set z, _, Attempt.outcome?_eq_some_iff.2 ⟨hjoin, rfl⟩, rfl, hzh,
    unionCompatible_iff.2 ⟨z, x, rfl, rfl, hzh⟩,
    unionCompatible_iff.2 ⟨z, y, rfl, rfl, hzh.trans hsame⟩⟩

/-- Pairs of a city and a country can be united with pairs of the country and some level.  In both
positions, some level of the hierarchy is all that is left. -/
theorem union_compatible_sets_unify_of_pairs :
    let c : Catalog := ⟨#[Schema.italianCity]⟩
    let rome : Atom := .metadata ⟨.member, [⟨0, 0⟩, ⟨0, 0⟩, ⟨0, 2⟩, ⟨0, 2⟩]⟩
    let italy : Atom := .metadata ⟨.member, [⟨0, 0⟩, ⟨0, 0⟩, ⟨0, 1⟩, ⟨0, 1⟩]⟩
    let someLevel : Atom := .metadata ⟨.level, [⟨0, 0⟩, ⟨0, 0⟩]⟩
    let a : Ty := .set (.tuple [rome, italy])
    let b : Ty := .set (.tuple [italy, someLevel])
    (a.WellFormed c ∧ b.WellFormed c ∧ a.unionCompatible b = true ∧
      ∀ o ∈ a.hierarchies, o ≠ none) ∧
      a.commonType? b = some (.set (.tuple [someLevel, someLevel])) ∧
      ∃ j n, (a.join b).outcome? = some (j, n) ∧ j.isSet = true ∧
        j.hierarchies = a.hierarchies ∧ j.unionCompatible a = true ∧
        j.unionCompatible b = true := by
  intro c rome italy someLevel a b
  have ha : a.WellFormed c := by decide +kernel
  have hb : b.WellFormed c := by decide +kernel
  have hcompatible : a.unionCompatible b = true := by decide +kernel
  have hknown : ∀ o ∈ a.hierarchies, o ≠ none := by decide +kernel
  have hshape : (∃ t, a = .set (.tuple t)) ↔ ∃ t, b = .set (.tuple t) :=
    iff_of_true ⟨_, rfl⟩ ⟨_, rfl⟩
  exact ⟨⟨ha, hb, hcompatible, hknown⟩, by decide +kernel,
    union_compatible_sets_unify ha hb hcompatible hknown hshape⟩

/-- The shape of the elements matters: a set of members and a set of single levels of one hierarchy
can be united, and their common type has lost the hierarchy. -/
example :
    let members : Ty := .set (.atom (.metadata ⟨.member, [⟨0, 0⟩, ⟨0, 0⟩]⟩))
    let singles : Ty := .set (.tuple [.metadata ⟨.level, [⟨0, 0⟩, ⟨0, 0⟩]⟩])
    members.unionCompatible singles = true ∧
      (members.commonType? singles).map (·.hierarchies) = some [none] := by
  decide

end Ty

end Hypercube
