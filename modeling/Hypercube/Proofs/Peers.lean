import Hypercube.Proofs.Consensus
import Hypercube.Proofs.Containers
import Mathlib.Order.Bounds.Basic
import Mathlib.Tactic.Choose

/-!
# Members of one level, their tuples and the generic scalar

Unifying a list goes from the left, and a member that meets a tuple either takes it in or loses all
structure with it, depending on what came before.  For members of one level, tuples of such members
and the generic scalar this does not show in the end: they stand for the elements of a semilattice,
and unifying two of them is taking their join.

* `Peer` — what is known of a member of one level.
* `Selection` — such a member, a tuple of them, or a scalar of which nothing is known.
* `Selection.join_result` — unifying two of these types is joining what they stand for.
* `Selection.joinAll_result` — unifying a list gives the least upper bound of its entries.
* `Selection.isLUB_tuple_iff`, `Selection.isLUB_member_iff`, `Selection.isLUB_generic_iff` — which
  shape the least upper bound has.
* `Ty.peers_unify_in_any_order` — the statement.
-/

set_option autoImplicit false

namespace Hypercube

/-! ## What is known of a member of one level -/

/-- What is known of a member of a level: nothing, its level, or which of the members it is. -/
inductive Peer (c : Catalog) (l : Ref) where
  | unknown
  | level
  | member (m : Ref) (h : c.container? ⟨.member, m⟩ = some l)

namespace Peer

variable {c : Catalog} {l : Ref}

/-- What is known of both of two members, where an unknown one could be any. -/
def merge : Peer c l → Peer c l → Peer c l
  | unknown, y => y
  | x, unknown => x
  | member m h, member m' _ => if m = m' then member m h else level
  | _, _ => level

theorem merge_unknown (x : Peer c l) : merge x unknown = x := by
  cases x <;> rfl

theorem level_merge (x : Peer c l) : merge level x = level := by
  cases x <;> rfl

theorem merge_comm (x y : Peer c l) : merge x y = merge y x := by
  cases x with
  | unknown => exact (merge_unknown y).symm
  | level => cases y <;> rfl
  | member m h =>
    cases y with
    | unknown | level => rfl
    | member m' h' =>
      by_cases hm : m = m'
      · subst hm
        rfl
      · simp only [merge, if_neg hm, if_neg (Ne.symm hm)]

theorem merge_self (x : Peer c l) : merge x x = x := by
  cases x with
  | unknown | level => rfl
  | member m h => exact if_pos rfl

theorem merge_assoc (x y z : Peer c l) : merge (merge x y) z = merge x (merge y z) := by
  cases x with
  | unknown => rfl
  | level => simp only [level_merge]
  | member m h =>
    cases y with
    | unknown => rfl
    | level => simp only [level_merge, merge_comm _ level]
    | member m' h' =>
      cases z with
      | unknown => simp only [merge_unknown]
      | level => simp only [merge_comm _ level, level_merge]
      | member m'' h'' =>
        by_cases hm : m = m' <;> by_cases hm' : m' = m'' <;> by_cases hm'' : m = m'' <;>
          simp_all [merge]

instance : Max (Peer c l) := ⟨merge⟩

instance : SemilatticeSup (Peer c l) :=
  SemilatticeSup.mk' merge_comm merge_assoc merge_self

theorem le_level (x : Peer c l) : x ≤ level :=
  (merge_comm x level).trans (level_merge x)

/-- The binding of the member, where `p` is the path of its level. -/
def binding (p : Binding) : Peer c l → Binding
  | unknown => []
  | level => p
  | member m _ => p ++ [m]

end Peer

/-- Paths that go on to different elements share what comes before. -/
theorem Binding.shared_concat (p : Binding) {m m' : Ref} (h : m ≠ m') :
    shared (p ++ [m]) (p ++ [m']) = p := by
  induction p with
  | nil => exact if_neg h
  | cons x xs ih =>
    rw [List.cons_append, List.cons_append, shared, if_pos rfl, ih]

namespace Peer

variable {c : Catalog} {l : Ref} {p : Binding}

theorem length_binding_le (hp : p.length = 3) (x : Peer c l) :
    (x.binding p).length ≤ Kind.member.fields := by
  cases x <;> simp [binding, hp, Kind.fields, Kind.depth]

/-- An unknown member takes on what is known of the other one. -/
theorem common?_unknown (hp : p.length = 3) (x : Peer c l) :
    Metadata.common? (.unknown .member) ⟨.member, x.binding p⟩ = some ⟨.member, x.binding p⟩ := by
  have hall := List.take_of_length_le (length_binding_le hp x)
  rw [Metadata.common?_of_unknown _ rfl]
  exact congrArg (fun b => some (Metadata.mk .member b)) hall

/-- A level is what it has in common with its members. -/
theorem common?_level (hp : p.length = 3) (x : Peer c l) :
    Metadata.common? ⟨.member, p⟩ ⟨.member, x.binding p⟩ = some ⟨.member, p⟩ := by
  have hne : p ≠ [] := List.ne_nil_of_length_eq_add_one hp
  refine Metadata.common?_of_covers ⟨Nat.le_refl _, length_binding_le hp (level : Peer c l), ?_⟩
  cases x with
  | unknown => exact .inl rfl
  | level => exact .inr ⟨hne, List.prefix_rfl⟩
  | member m h => exact .inr ⟨hne, List.prefix_append p [m]⟩

/-- Different members of a level have the level in common. -/
theorem common?_of_ne (hp : p.length = 3) {m m' : Ref} (h : m ≠ m') :
    Metadata.common? ⟨.member, p ++ [m]⟩ ⟨.member, p ++ [m']⟩ = some ⟨.member, p⟩ := by
  have hne : p ≠ [] := List.ne_nil_of_length_eq_add_one hp
  have hshared := Binding.shared_concat p h
  have hkind : Metadata.sharedKind ⟨.member, p ++ [m]⟩ ⟨.member, p ++ [m']⟩ = .member := by
    apply Kind.depth_injective
    rw [Metadata.sharedKind_depth, hshared, hp]
    split <;> rfl
  rw [Metadata.common?_of_bound (by simp) (by simp)]
  simp only [hshared, hkind, if_neg hne]
  rw [List.take_of_length_le (by simp [hp, Kind.fields, Kind.depth])]

/-- Members of one level have in common what is known of both. -/
theorem common?_binding (hp : p.length = 3) (x y : Peer c l) :
    Metadata.common? ⟨.member, x.binding p⟩ ⟨.member, y.binding p⟩ =
      some ⟨.member, (x ⊔ y).binding p⟩ := by
  cases x with
  | unknown => exact common?_unknown hp y
  | level =>
    rw [sup_eq_left.2 (le_level y)]
    exact common?_level hp y
  | member m h =>
    cases y with
    | unknown => exact (Metadata.common?_comm _ _).trans (common?_unknown hp (member m h))
    | level => exact (Metadata.common?_comm _ _).trans (common?_level hp (member m h))
    | member m' h' =>
      by_cases hm : m = m'
      · subst hm
        rw [sup_idem]
        exact Metadata.common?_of_covers ⟨Nat.le_refl _, length_binding_le hp (member m h),
          .inr ⟨by simp [binding], List.prefix_rfl⟩⟩
      · rw [show member m h ⊔ member m' h' = level from if_neg hm]
        exact common?_of_ne hp hm

theorem join_result (hp : p.length = 3) (x y : Peer c l) :
    ((Atom.metadata ⟨.member, x.binding p⟩).join (.metadata ⟨.member, y.binding p⟩)).result =
      some (.metadata ⟨.member, (x ⊔ y).binding p⟩) := by
  simp only [Atom.join, Metadata.join, common?_binding hp x y, Attempt.result_map]
  rfl

end Peer

/-! ## Members, tuples and the generic scalar -/

/-- A member of a level, some of them side by side, or a value of which nothing is known.  Tuples
have at least one position. -/
inductive Selection (c : Catalog) (l : Ref) (k : Nat) where
  | member (x : Peer c l)
  | tuple (xs : Fin (k + 1) → Peer c l)
  | generic

namespace Selection

variable {c : Catalog} {l : Ref} {k : Nat}

/-- What two selections have in common.  A tuple of one position is as good as a member; other
tuples have no structure in common with one. -/
def merge : Selection c l k → Selection c l k → Selection c l k
  | member x, member y => member (x ⊔ y)
  | tuple xs, tuple ys => tuple (xs ⊔ ys)
  | member x, tuple xs | tuple xs, member x => if k = 0 then member (x ⊔ xs 0) else generic
  | _, _ => generic

theorem generic_merge (s : Selection c l k) : merge generic s = generic := by
  cases s <;> rfl

theorem merge_comm (s t : Selection c l k) : merge s t = merge t s := by
  cases s <;> cases t <;> simp only [merge, sup_comm]

theorem merge_self (s : Selection c l k) : merge s s = s := by
  cases s <;> simp only [merge, sup_idem]

theorem merge_assoc (s t u : Selection c l k) : merge (merge s t) u = merge s (merge t u) := by
  by_cases hk : k = 0
  · cases s <;> cases t <;> cases u <;>
      simp only [merge, if_pos hk, Pi.sup_apply, sup_assoc, sup_left_comm, sup_comm]
  · cases s <;> cases t <;> cases u <;>
      simp only [merge, if_neg hk, sup_assoc]

instance : Max (Selection c l k) := ⟨merge⟩

instance : SemilatticeSup (Selection c l k) :=
  SemilatticeSup.mk' merge_comm merge_assoc merge_self

/-- The type of a selection, where `p` is the path of the level. -/
def toTy (p : Binding) : Selection c l k → Ty
  | member x => .metadata ⟨.member, x.binding p⟩
  | tuple xs => .tuple (List.ofFn fun i => .metadata ⟨.member, (xs i).binding p⟩)
  | generic => .scalar .generic

end Selection

/-- Tuples are unified if each of their positions is. -/
theorem joinPositions_ofFn {n : Nat} {f g h : Fin n → Atom}
    (hjoin : ∀ i, ((f i).join (g i)).result = some (h i)) :
    (joinPositions (List.ofFn f) (List.ofFn g)).result = some (List.ofFn h) := by
  induction n with
  | zero => rfl
  | succ n ih =>
    rw [List.ofFn_succ, List.ofFn_succ]
    exact joinPositions_cons_result.2
      ⟨h 0, _, hjoin 0, ih fun i => hjoin i.succ, List.ofFn_succ⟩

namespace Selection

variable {c : Catalog} {l : Ref} {k : Nat} {p : Binding}

theorem join_tuples_result (hp : p.length = 3) (xs ys : Fin (k + 1) → Peer c l) :
    (((tuple xs).toTy p).join ((tuple ys).toTy p)).result = some ((tuple (xs ⊔ ys)).toTy p) := by
  have hpositions := joinPositions_ofFn fun i => Peer.join_result hp (xs i) (ys i)
  simp only [toTy, Ty.join_items, Item.join_tuples, joinTuples_eq, List.length_ofFn, if_true,
    Attempt.result_map, hpositions]
  rfl

theorem join_member_tuple_result (hp : p.length = 3) (x : Peer c l)
    (xs : Fin (k + 1) → Peer c l) :
    (((member x : Selection c l k).toTy p).join ((tuple xs).toTy p)).result =
      some ((member x ⊔ tuple xs).toTy p) := by
  cases k with
  | zero =>
    have hjoin := Peer.join_result hp x (xs 0)
    simp only [toTy, Ty.join_items, Item.join_member_tuple, List.ofFn_succ, List.ofFn_zero,
      Item.joinMemberTuple_eq, unwrap?, hjoin]
    rfl
  | succ k =>
    simp only [toTy, List.ofFn_succ]
    rfl

/-- Unifying the types of two selections gives the type of their join. -/
theorem join_result (hp : p.length = 3) (s t : Selection c l k) :
    ((s.toTy p).join (t.toTy p)).result = some ((s ⊔ t).toTy p) := by
  cases s with
  | member x =>
    cases t with
    | member y =>
      rw [toTy, toTy, Ty.join_metadata_result, Peer.common?_binding hp x y]
      rfl
    | tuple ys => exact join_member_tuple_result hp x ys
    | generic => rfl
  | tuple xs =>
    cases t with
    | member y =>
      rw [Ty.join_comm, sup_comm]
      exact join_member_tuple_result hp y xs
    | tuple ys => exact join_tuples_result hp xs ys
    | generic => rfl
  | generic => cases t <;> rfl

theorem joinFrom_result (hp : p.length = 3) (s : Selection c l k) (ts : List (Selection c l k)) :
    (Ty.joinFrom true (s.toTy p) (ts.map (toTy p))).result =
      some ((ts.foldl (· ⊔ ·) s).toTy p) := by
  induction ts generalizing s with
  | nil => rfl
  | cons t ts ih =>
    rw [List.map_cons, Ty.joinFrom_allowing_result, join_result hp, Option.bind_some, ih]
    rfl

theorem foldl_sup_le_iff (s u : Selection c l k) (ts : List (Selection c l k)) :
    ts.foldl (· ⊔ ·) s ≤ u ↔ ∀ t ∈ s :: ts, t ≤ u := by
  induction ts generalizing s with
  | nil => simp
  | cons t ts ih => rw [List.foldl_cons, ih]; simp [and_assoc]

theorem isLUB_foldl (s : Selection c l k) (ts : List (Selection c l k)) :
    IsLUB {t | t ∈ s :: ts} (ts.foldl (· ⊔ ·) s) :=
  isLUB_iff_le_iff.2 fun u => foldl_sup_le_iff s u ts

theorem exists_isLUB {ss : List (Selection c l k)} (hne : ss ≠ []) :
    ∃ r, IsLUB {s | s ∈ ss} r := by
  cases ss with
  | nil => exact absurd rfl hne
  | cons s ts => exact ⟨_, isLUB_foldl s ts⟩

/-- Unifying a list gives the least upper bound of its entries. -/
theorem joinAll_result (hp : p.length = 3) {ss : List (Selection c l k)} {r : Selection c l k}
    (hne : ss ≠ []) (h : IsLUB {s | s ∈ ss} r) :
    (Ty.joinAll true (ss.map (toTy p))).result = some (r.toTy p) := by
  cases ss with
  | nil => exact absurd rfl hne
  | cons s ts =>
    rw [h.unique (isLUB_foldl s ts)]
    exact joinFrom_result hp s ts

/-! ## The shape of the least upper bound -/

theorem le_iff (s t : Selection c l k) : s ≤ t ↔ merge s t = t :=
  sup_eq_right.symm

theorem eq_generic_of_le {t : Selection c l k} (h : generic ≤ t) : t = generic :=
  ((le_iff _ _).1 h).symm.trans (generic_merge t)

/-- Only tuples lie below a tuple. -/
theorem exists_tuple_of_le {s : Selection c l k} {ys : Fin (k + 1) → Peer c l}
    (h : s ≤ tuple ys) : ∃ xs, s = tuple xs := by
  rw [le_iff] at h
  cases s with
  | member x =>
    simp only [merge] at h
    split at h <;> cases h
  | tuple xs => exact ⟨xs, rfl⟩
  | generic => cases h

theorem tuple_le_level (xs : Fin (k + 1) → Peer c l) : tuple xs ≤ tuple fun _ => .level :=
  (le_iff _ _).2 (congrArg tuple (funext fun i => sup_eq_right.2 (xs i).le_level))

theorem member_le_level (x : Peer c l) : (member x : Selection c l k) ≤ member .level :=
  (le_iff _ _).2 (congrArg member (sup_eq_right.2 x.le_level))

theorem tuple_le_member_iff {xs : Fin (k + 1) → Peer c l} {y : Peer c l} :
    tuple xs ≤ member y ↔ k = 0 ∧ xs 0 ≤ y := by
  rw [le_iff, merge]
  by_cases hk : k = 0
  · simp [hk]
  · simp [hk]

/-- Nothing is left of the structure of some selections: one of them has none, or a member and a
tuple of several positions are among them. -/
def Collapse (ss : List (Selection c l k)) : Prop :=
  generic ∈ ss ∨ k ≠ 0 ∧ (∃ x, member x ∈ ss) ∧ ∃ xs, tuple xs ∈ ss

variable {ss : List (Selection c l k)} {r : Selection c l k}

theorem isLUB_tuple_iff (h : IsLUB {s | s ∈ ss} r) :
    (∃ xs, r = tuple xs) ↔ ∀ s ∈ ss, ∃ xs, s = tuple xs := by
  constructor
  · rintro ⟨ys, rfl⟩ s hs
    exact exists_tuple_of_le (h.1 hs)
  · intro htuples
    have hbound : r ≤ tuple fun _ => .level := by
      apply h.2
      intro s hs
      obtain ⟨xs, rfl⟩ := htuples s hs
      exact tuple_le_level xs
    exact exists_tuple_of_le hbound

theorem eq_generic_of_collapse (h : IsLUB {s | s ∈ ss} r) (hss : Collapse ss) : r = generic := by
  obtain hgeneric | ⟨hk, ⟨x, hx⟩, xs, hxs⟩ := hss
  · exact eq_generic_of_le (h.1 hgeneric)
  · cases r with
    | member y => exact absurd (tuple_le_member_iff.1 (h.1 hxs)).1 hk
    | tuple ys =>
      obtain ⟨zs, hz⟩ := exists_tuple_of_le (h.1 hx)
      cases hz
    | generic => rfl

theorem eq_member_of_not_collapse (h : IsLUB {s | s ∈ ss} r) (hss : ¬ Collapse ss) {x : Peer c l}
    (hx : member x ∈ ss) : ∃ y, r = member y := by
  have hbound : r ≤ member .level := by
    apply h.2
    intro s hs
    cases s with
    | member y => exact member_le_level y
    | tuple ys =>
      have hk : k = 0 := by
        by_contra hk
        exact hss (.inr ⟨hk, ⟨x, hx⟩, ys, hs⟩)
      exact tuple_le_member_iff.2 ⟨hk, (ys 0).le_level⟩
    | generic => exact absurd (.inl hs) hss
  cases r with
  | member y => exact ⟨y, rfl⟩
  | tuple ys =>
    obtain ⟨zs, hz⟩ := exists_tuple_of_le (h.1 hx)
    cases hz
  | generic => cases eq_generic_of_le hbound

theorem eq_tuple_of_not_collapse (h : IsLUB {s | s ∈ ss} r) (hss : ¬ Collapse ss)
    (hx : ¬ ∃ x, member x ∈ ss) : ∃ xs, r = tuple xs := by
  refine (isLUB_tuple_iff h).2 fun s hs => ?_
  cases s with
  | member x => exact absurd ⟨x, hs⟩ hx
  | tuple xs => exact ⟨xs, rfl⟩
  | generic => exact absurd (.inl hs) hss

theorem isLUB_member_iff (h : IsLUB {s | s ∈ ss} r) :
    (∃ x, r = member x) ↔ ¬ Collapse ss ∧ ∃ x, member x ∈ ss := by
  constructor
  · rintro ⟨y, rfl⟩
    have hss : ¬ Collapse ss := by
      intro hss
      cases eq_generic_of_collapse h hss
    refine ⟨hss, ?_⟩
    by_contra hx
    obtain ⟨xs, hxs⟩ := eq_tuple_of_not_collapse h hss hx
    cases hxs
  · rintro ⟨hss, x, hx⟩
    exact eq_member_of_not_collapse h hss hx

theorem isLUB_generic_iff (h : IsLUB {s | s ∈ ss} r) : r = generic ↔ Collapse ss := by
  refine ⟨?_, eq_generic_of_collapse h⟩
  rintro rfl
  by_contra hss
  by_cases hx : ∃ x, member x ∈ ss
  · obtain ⟨x, hx⟩ := hx
    obtain ⟨y, hy⟩ := eq_member_of_not_collapse h hss hx
    cases hy
  · obtain ⟨xs, hxs⟩ := eq_tuple_of_not_collapse h hss hx
    cases hxs

end Selection

/-! ## Types at a level -/

/-- A member type of which nothing is known, or that is bound to a level or to one of its
members. -/
def Metadata.AtLevel (c : Catalog) (l : Ref) (m : Metadata) : Prop :=
  m = .unknown .member ∨ c.metadataAt? .member ⟨.level, l⟩ = some m ∨
    ∃ r, c.container? ⟨.member, r⟩ = some l ∧ c.metadataAt? .member ⟨.member, r⟩ = some m

namespace Ty

/-- A member type at a level, a tuple of `n` of them, or the generic scalar. -/
def AtLevel (c : Catalog) (l : Ref) (n : Nat) : Ty → Prop
  | .metadata m => m.AtLevel c l
  | .tuple ps => ps.length = n ∧ ∀ a ∈ ps, ∃ m, a = .metadata m ∧ m.AtLevel c l
  | .scalar .generic => True
  | _ => False

/-- Some types are generic, or a member and a tuple of more than one position are among them. -/
def Collapse (n : Nat) (ts : List Ty) : Prop :=
  .scalar .generic ∈ ts ∨ 2 ≤ n ∧ (∃ m, .metadata m ∈ ts) ∧ ∃ ps, .tuple ps ∈ ts

end Ty

section Path

variable {c : Catalog} {l : Ref} {p : Binding}

theorem Catalog.Built.level_path (hc : c.Built) (hl : c.Has ⟨.level, l⟩) :
    ∃ p, c.path? ⟨.level, l⟩ = some p ∧ p.length = 3 := by
  have hinner : Kind.hierarchy.depth + 1 = Kind.level.depth := rfl
  have houter : Kind.dimension.depth + 1 = Kind.hierarchy.depth := rfl
  obtain ⟨h, hh, hhas⟩ := hc.container hinner hl
  obtain ⟨d, hd, -⟩ := hc.container houter hhas
  exact ⟨[d, h, l], by simp [path?, hh, hd], rfl⟩

theorem Metadata.atLevel_iff (hp : c.path? ⟨.level, l⟩ = some p) {m : Metadata} :
    m.AtLevel c l ↔ ∃ x : Peer c l, m = ⟨.member, x.binding p⟩ := by
  have hmember : ∀ r, c.container? ⟨.member, r⟩ = some l →
      c.metadataAt? .member ⟨.member, r⟩ = some ⟨.member, p ++ [r]⟩ := by
    intro r hr
    have hkind : Kind.level.depth + 1 = Kind.member.depth := rfl
    rw [Catalog.metadataAt?, Catalog.path?_of_container hkind hr, hp]
    rfl
  have hlevel : c.metadataAt? .member ⟨.level, l⟩ = some ⟨.member, p⟩ := by
    rw [Catalog.metadataAt?, hp]
    rfl
  constructor
  · rintro (rfl | h | ⟨r, hr, h⟩)
    · exact ⟨.unknown, rfl⟩
    · exact ⟨.level, Option.some.inj (h.symm.trans hlevel)⟩
    · exact ⟨.member r hr, Option.some.inj (h.symm.trans (hmember r hr))⟩
  · rintro ⟨x, rfl⟩
    cases x with
    | unknown => exact .inl rfl
    | level => exact .inr (.inl hlevel)
    | member r hr => exact .inr (.inr ⟨r, hr, hmember r hr⟩)

/-- The types at a level are those of selections. -/
theorem Ty.atLevel_iff (hp : c.path? ⟨.level, l⟩ = some p) {k : Nat} {t : Ty} :
    t.AtLevel c l (k + 1) ↔ ∃ s : Selection c l k, s.toTy p = t := by
  constructor
  · intro h
    unfold AtLevel at h
    split at h
    · obtain ⟨x, rfl⟩ := (Metadata.atLevel_iff hp).1 h
      exact ⟨.member x, rfl⟩
    · rename_i ps
      obtain ⟨hlen, hps⟩ := h
      have hpositions : ∀ i : Fin (k + 1), ∃ x : Peer c l,
          ps[i] = .metadata ⟨.member, x.binding p⟩ := by
        intro i
        obtain ⟨m, hm, hat⟩ := hps ps[i] (List.getElem_mem _)
        obtain ⟨x, rfl⟩ := (Metadata.atLevel_iff hp).1 hat
        exact ⟨x, hm⟩
      choose xs hxs using hpositions
      refine ⟨.tuple xs, congrArg Ty.tuple (List.ext_getElem ?_ fun i hi hi' => ?_)⟩
      · rw [List.length_ofFn, hlen]
      · rw [List.getElem_ofFn]
        exact (hxs ⟨i, hlen ▸ hi'⟩).symm
    · exact ⟨.generic, rfl⟩
    · cases h
  · rintro ⟨s, rfl⟩
    cases s with
    | member x => exact (Metadata.atLevel_iff hp).2 ⟨x, rfl⟩
    | tuple xs =>
      refine ⟨List.length_ofFn, fun a ha => ?_⟩
      obtain ⟨i, rfl⟩ := List.mem_ofFn.1 ha
      exact ⟨_, rfl, (Metadata.atLevel_iff hp).2 ⟨xs i, rfl⟩⟩
    | generic => trivial

end Path

namespace Selection

variable {c : Catalog} {l : Ref} {k : Nat} {ss : List (Selection c l k)} {r : Selection c l k}

theorem toTy_eq_generic_iff (p : Binding) (s : Selection c l k) :
    s.toTy p = .scalar .generic ↔ s = generic := by
  cases s <;> simp [toTy]

theorem toTy_eq_metadata_iff (p : Binding) (s : Selection c l k) :
    (∃ m, s.toTy p = .metadata m) ↔ ∃ x, s = member x := by
  cases s <;> simp [toTy]

theorem toTy_eq_tuple_iff (p : Binding) (s : Selection c l k) :
    (∃ ps, s.toTy p = .tuple ps) ↔ ∃ xs, s = tuple xs := by
  cases s <;> simp [toTy]

/-- Types of one shape are among those of some selections if selections of that shape are. -/
theorem exists_mem_map_iff {β γ : Type} {shape : β → Ty} {shape' : γ → Selection c l k}
    {p : Binding} (h : ∀ s, (∃ b, toTy p s = shape b) ↔ ∃ x, s = shape' x) :
    (∃ b, shape b ∈ ss.map (toTy p)) ↔ ∃ x, shape' x ∈ ss := by
  constructor
  · rintro ⟨b, hb⟩
    obtain ⟨s, hs, he⟩ := List.mem_map.1 hb
    obtain ⟨x, rfl⟩ := (h s).1 ⟨b, he⟩
    exact ⟨x, hs⟩
  · rintro ⟨x, hx⟩
    obtain ⟨b, hb⟩ := (h (shape' x)).2 ⟨x, rfl⟩
    exact ⟨b, hb ▸ List.mem_map_of_mem hx⟩

theorem exists_metadata_mem_iff (p : Binding) :
    (∃ m, .metadata m ∈ ss.map (toTy p)) ↔ ∃ x, member x ∈ ss :=
  exists_mem_map_iff (toTy_eq_metadata_iff p)

theorem collapse_map_iff (p : Binding) :
    Ty.Collapse (k + 1) (ss.map (toTy p)) ↔ Collapse ss := by
  have hk : 2 ≤ k + 1 ↔ k ≠ 0 := by omega
  have hgeneric : .scalar .generic ∈ ss.map (toTy p) ↔ generic ∈ ss := by
    simp [List.mem_map, toTy_eq_generic_iff]
  have htuple : (∃ ps, .tuple ps ∈ ss.map (toTy p)) ↔ ∃ xs, tuple xs ∈ ss :=
    exists_mem_map_iff (toTy_eq_tuple_iff p)
  rw [Ty.Collapse, Collapse, hgeneric, exists_metadata_mem_iff, htuple, hk]

instance : Inhabited (Selection c l k) := ⟨generic⟩

end Selection

namespace Ty

/-- Members of one level, tuples of `n` such members and the generic scalar have a common type,
which is one of these again and does not depend on their order.  It is generic if one of them is, or
if a member and a tuple of more than one position are among them; else a member type if there is a
member among them; and a tuple if all of them are. -/
theorem peers_unify_in_any_order {c : Catalog} (hc : c.Built) {l : Ref} (hl : c.Has ⟨.level, l⟩)
    {n : Nat} (hn : 1 ≤ n) (ts : List Ty) (hne : ts ≠ []) (hts : ∀ t ∈ ts, t.AtLevel c l n) :
    ∃ r : Ty, r.AtLevel c l n ∧
      (∀ us : List Ty, us.Perm ts → (joinAll true us).result = some r) ∧
      (r = .scalar .generic ↔ Collapse n ts) ∧
      ((∃ m, r = .metadata m) ↔ ¬ Collapse n ts ∧ ∃ m, .metadata m ∈ ts) ∧
      ((∃ ps, r = .tuple ps) ↔ ∀ t ∈ ts, ∃ ps, t = .tuple ps) := by
  obtain ⟨p, hp, hlen⟩ := hc.level_path hl
  obtain ⟨k, rfl⟩ : ∃ k, n = k + 1 := ⟨n - 1, by omega⟩
  -- what the entries stand for, in whichever order they come
  have hselect : ∀ t : Ty, t.AtLevel c l (k + 1) → ∃ s : Selection c l k, s.toTy p = t :=
    fun t => (atLevel_iff hp).1
  choose! select hselect using hselect
  have hmap : ∀ us : List Ty, us.Perm ts → (us.map select).map (Selection.toTy p) = us := by
    intro us hperm
    rw [List.map_map]
    refine (List.map_congr_left fun u hu => ?_).trans (List.map_id us)
    exact hselect u (hts u (hperm.mem_iff.1 hu))
  obtain ⟨r, hlub⟩ := Selection.exists_isLUB (List.map_eq_nil_iff.not.2 hne : ts.map select ≠ [])
  refine ⟨r.toTy p, (atLevel_iff hp).2 ⟨r, rfl⟩, ?_, ?_⟩
  · intro us hperm
    have hsame : {s | s ∈ us.map select} = {s | s ∈ ts.map select} :=
      Set.ext fun s => (hperm.map select).mem_iff
    have hus : us ≠ [] := by
      rintro rfl
      exact hne hperm.nil_eq.symm
    rw [← hmap us hperm]
    exact Selection.joinAll_result hlen (List.map_eq_nil_iff.not.2 hus) (hsame ▸ hlub)
  · have hts' := hmap ts (.refl ts)
    generalize ts.map select = ss at hlub hts'
    subst hts'
    rw [Selection.toTy_eq_generic_iff, Selection.toTy_eq_metadata_iff, Selection.toTy_eq_tuple_iff,
      Selection.collapse_map_iff, Selection.exists_metadata_mem_iff, List.forall_mem_map]
    simp only [Selection.toTy_eq_tuple_iff]
    exact ⟨Selection.isLUB_generic_iff hlub, Selection.isLUB_member_iff hlub,
      Selection.isLUB_tuple_iff hlub⟩

/-- A level with two members. -/
def genders : Catalog :=
  ⟨#[⟨⟨"Sales", #[], #[⟨"Gender", "[Gender]", [0], false⟩],
    #[⟨"Gender", "[Gender]", 0, [0], some 0⟩],
    #[⟨"Gender", "[Gender].[Gender]", 0, 0, false, [0, 1]⟩],
    #[⟨"F", "[Gender].[F]", 0, none, []⟩, ⟨"M", "[Gender].[M]", 0, none, []⟩],
    [("[Gender].[F]", 0), ("[Gender].[M]", 1)]⟩⟩]⟩

theorem genders_built : genders.Built := by
  refine Catalog.built_singleton "Sales" [.dimension "Gender", .hierarchy 0 "Gender",
    .level 0 "Gender", .member 0 "F" none, .member 0 "M" none] ?_
  decide +kernel

/-- A member, a tuple of another one and a tuple of an unknown one become a member of their level in
every order. -/
theorem peers_unify_in_any_order_of_genders :
    let level : Binding := [⟨0, 0⟩, ⟨0, 0⟩, ⟨0, 0⟩]
    let ts : List Ty := [.metadata ⟨.member, level ++ [⟨0, 0⟩]⟩,
      .tuple [.metadata ⟨.member, level ++ [⟨0, 1⟩]⟩], .tuple [.metadata (.unknown .member)]]
    genders.Built ∧ genders.Has ⟨.level, ⟨0, 0⟩⟩ ∧ 1 ≤ 1 ∧ ts ≠ [] ∧
      (∀ t ∈ ts, t.AtLevel genders ⟨0, 0⟩ 1) ∧
      ∀ us : List Ty, us.Perm ts →
        (joinAll true us).result = some (.metadata ⟨.member, level⟩) := by
  intro level ts
  have hlevel : genders.Has ⟨.level, ⟨0, 0⟩⟩ := ⟨_, rfl, by decide⟩
  have hmember : ∀ i < 2, Metadata.AtLevel genders ⟨0, 0⟩ ⟨.member, level ++ [⟨0, i⟩]⟩ := by
    intro i hi
    refine .inr (.inr ⟨⟨0, i⟩, ?_⟩)
    match i, hi with
    | 0, _ => exact ⟨rfl, rfl⟩
    | 1, _ => exact ⟨rfl, rfl⟩
  have hts : ∀ t ∈ ts, t.AtLevel genders ⟨0, 0⟩ 1 := by
    have htuple : ∀ m, Metadata.AtLevel genders ⟨0, 0⟩ m →
        (Ty.tuple [.metadata m]).AtLevel genders ⟨0, 0⟩ 1 := by
      intro m hm
      exact ⟨rfl, List.forall_mem_singleton.2 ⟨m, rfl, hm⟩⟩
    refine List.forall_mem_cons.2 ⟨hmember 0 (by decide), List.forall_mem_cons.2
      ⟨htuple _ (hmember 1 (by decide)), List.forall_mem_singleton.2 (htuple _ (.inl rfl))⟩⟩
  have hne : ts ≠ [] := List.cons_ne_nil _ _
  obtain ⟨r, -, hr, -⟩ :=
    peers_unify_in_any_order genders_built hlevel (Nat.le_refl 1) ts hne hts
  obtain rfl : Ty.metadata ⟨.member, level⟩ = r := Option.some.inj (hr ts (.refl ts))
  exact ⟨genders_built, hlevel, Nat.le_refl 1, hne, hts, hr⟩

end Ty

end Hypercube
