import Hypercube.Proofs.SharedBindings
import Hypercube.Ty.Shape
import Mathlib.Algebra.GroupWithZero.Nat

/-!
# Conversions are linear in the arity

Each position of a tuple is unified by one rule, and every rule counts at most three conversions:
three bindings that are lost, or two scalars that are changed, or one loss of structure.  The bounds
hold whether or not there is a common type, so they cover what is counted before a unification is
given up.

* `Atom.conversions_join_le` — two atoms need at most three conversions.
* `Ty.conversions_join_le` — two types need at most three for each position of either.
* `Ty.conversions_joinAll_le` — a list needs at most three for each position of every type but the
  first, although the arity may change on the way.
-/

set_option autoImplicit false

namespace Hypercube

variable {c : Catalog}

/-! ## Attempts -/

namespace Attempt

variable {α β : Type}

/-- Bounds on the conversions of two attempts add up, also if the first one fails. -/
theorem conversions_bind_le {x : Attempt α} {f : α → Attempt β} {m n : Nat}
    (hx : x.conversions ≤ m) (hf : ∀ a, x.result = some a → (f a).conversions ≤ n) :
    (x >>= f).conversions ≤ m + n := by
  rw [conversions_bind]
  cases hresult : x.result with
  | none => exact Nat.add_le_add hx (Nat.zero_le n)
  | some a => exact Nat.add_le_add hx (hf a hresult)

/-- What is not allowed has been counted all the same. -/
theorem conversions_allowing (conversions : Bool) (x : Attempt α) :
    (x.allowing conversions).conversions = x.conversions := by
  unfold allowing
  split <;> rfl

end Attempt

/-! ## Atoms -/

/-- Where each side that changes counts once, there are at most two conversions. -/
theorem changed_sides_le {p q : Prop} [Decidable p] [Decidable q] :
    (if p then 0 else 1) + (if q then 0 else 1) ≤ 2 := by
  split <;> split <;> decide

theorem Scalar.conversions_join_le (a b : Scalar) : (a.join b).conversions ≤ 2 := by
  unfold join
  split
  · exact Nat.zero_le 2
  · split
    · exact changed_sides_le
    · exact Nat.zero_le 2

namespace Metadata

variable {a b m : Metadata}

/-- An unknown type covers only unknown types. -/
theorem Covers.binding_eq_nil (h : m.Covers a) (hm : m.binding = []) : a.binding = [] := by
  obtain ha | ⟨hne, -⟩ := h.path
  · exact ha
  · exact absurd hm hne

/-- A path has at most four elements.  If there is one at all, the common type keeps the first. -/
theorem conversions_join_le (ha : a.WellFormed c) (hb : b.WellFormed c) :
    (a.join b).conversions ≤ 3 := by
  have hla := length_binding_le_four ha
  have hlb := length_binding_le_four hb
  unfold join
  split
  · rename_i m hm
    show max a.binding.length b.binding.length - m.binding.length ≤ 3
    obtain ⟨hma, hmb⟩ := covers_of_common? hm
    by_cases hnil : m.binding = []
    · rw [hma.binding_eq_nil hnil, hmb.binding_eq_nil hnil, hnil]
      decide
    · have hpos := List.length_pos_iff.2 hnil
      omega
  · exact Nat.zero_le 3

end Metadata

theorem Atom.conversions_join_le {a b : Atom} (ha : a.WellFormed c) (hb : b.WellFormed c) :
    (a.join b).conversions ≤ 3 := by
  unfold join
  split
  · exact Nat.zero_le 3
  · exact Nat.zero_le 3
  · exact Nat.zero_le 3
  · rename_i x y
    exact Nat.le_succ_of_le (Scalar.conversions_join_le x y)
  · exact Metadata.conversions_join_le ha hb
  · exact Nat.le_add_left 1 2
  · exact Nat.le_add_left 1 2
  · exact Nat.zero_le 3

/-! ## Tuples -/

/-- Positions are unified as long as both tuples have one. -/
theorem conversions_joinPositions_le {xs ys : List Atom} (hx : ∀ a ∈ xs, a.WellFormed c)
    (hy : ∀ a ∈ ys, a.WellFormed c) :
    (joinPositions xs ys).conversions ≤ 3 * min xs.length ys.length := by
  induction xs generalizing ys with
  | nil => exact Nat.zero_le _
  | cons x xs ih =>
    cases ys with
    | nil => exact Nat.zero_le _
    | cons y ys =>
      obtain ⟨hx, hxs⟩ := List.forall_mem_cons.1 hx
      obtain ⟨hy, hys⟩ := List.forall_mem_cons.1 hy
      have hrest : ∀ z, (joinPositions xs ys >>= fun zs => Attempt.free (z :: zs)).conversions ≤
          3 * min xs.length ys.length + 0 :=
        fun z => Attempt.conversions_bind_le (ih hxs hys) fun _ _ => Nat.le_refl 0
      have hall : (joinPositions (x :: xs) (y :: ys)).conversions ≤
          3 + (3 * min xs.length ys.length + 0) :=
        Attempt.conversions_bind_le (Atom.conversions_join_le hx hy) fun z _ => hrest z
      simp only [List.length_cons]
      omega

theorem conversions_joinTuples_le {xs ys : List Atom} (hx : ∀ a ∈ xs, a.WellFormed c)
    (hy : ∀ a ∈ ys, a.WellFormed c) :
    (joinTuples xs ys).conversions ≤ 3 * min xs.length ys.length := by
  rw [joinTuples_eq]
  split
  · exact conversions_joinPositions_le hx hy
  · exact Nat.zero_le _

/-! ## Items -/

namespace Item

theorem arity_pos {x : Item} (hx : x.WellFormed c) : 1 ≤ x.arity := by
  cases x with
  | tuple xs => exact List.length_pos_iff.2 hx.1
  | atom a => exact Nat.le_refl 1
  | amorphous ds => exact Nat.le_refl 1

theorem conversions_absorb_le (ds : List Ref) (y : Item) : (absorb ds y).conversions ≤ 2 := by
  unfold absorb
  split
  · exact Nat.zero_le 2
  · split
    · exact changed_sides_le
    · exact Nat.zero_le 2

theorem conversions_joinMemberTuple_le {m : Binding} {t : List Atom} {fallback : Attempt Item}
    (hm : (member m).WellFormed c) (ht : (tuple t).WellFormed c)
    (hf : fallback.conversions ≤ 3) : (joinMemberTuple m t fallback).conversions ≤ 3 := by
  obtain ⟨b, n, hu, hj⟩ | ⟨-, hj⟩ := joinMemberTuple_cases m t fallback
  · obtain ⟨-, only, rfl, ho⟩ := unwrap?_eq_some_iff.1 hu
    obtain ⟨-, rfl⟩ := Attempt.outcome?_eq_some_iff.1 ho
    rw [hj]
    exact Atom.conversions_join_le (a := .metadata ⟨.member, m⟩) hm
      (ht.2 only List.mem_cons_self)
  · rw [hj]
    exact hf

theorem conversions_join_le {x y : Item} (hx : x.WellFormed c) (hy : y.WellFormed c) :
    (x.join y).conversions ≤ 3 * min x.arity y.arity := by
  -- a rule that is not about positions counts at most three, and there is a position on each side
  have hone : ∀ {n : Nat}, n ≤ 3 → n ≤ 3 * min x.arity y.arity := by
    have hposx := arity_pos hx
    have hposy := arity_pos hy
    omega
  induction x, y using pair_cases with
  | symm x y ih =>
    rw [join_comm, Nat.min_comm]
    exact ih hy hx (by rwa [Nat.min_comm])
  | amorphous ds y => exact hone (Nat.le_succ_of_le (conversions_absorb_le ds y))
  | tuples xs ys => exact conversions_joinTuples_le hx.2 hy.2
  | member_tuple m t =>
    exact hone (conversions_joinMemberTuple_le hx hy (Nat.le_add_left 1 2))
  | generic_tuple t => exact hone (Nat.le_add_left 1 2)
  | atom_tuple a t ha =>
    rw [join_atom_tuple t ha]
    exact Nat.zero_le _
  | atoms a b =>
    rw [join_atoms]
    exact Atom.conversions_join_le hx hy

theorem conversions_joinElements_le {x y : Item} (hx : x.WellFormed c) (hy : y.WellFormed c) :
    (x.joinElements y).conversions ≤ 3 * min x.arity y.arity := by
  have mixed : ∀ m t, (member m).WellFormed c → (tuple t).WellFormed c →
      ((member m).joinElements (tuple t)).conversions ≤
        3 * min (member m).arity (tuple t).arity := by
    intro m t hm ht
    have hcount : ((member m).joinElements (tuple t)).conversions ≤ 3 :=
      conversions_joinMemberTuple_le hm ht (Nat.le_add_left 1 2)
    have hposm := arity_pos hm
    have hpost := arity_pos ht
    omega
  obtain ⟨m, t, rfl, rfl⟩ | ⟨m, t, rfl, rfl⟩ | hxy := joinElements_cases x y
  · exact mixed m t hx hy
  · rw [joinElements_tuple_member, Nat.min_comm]
    exact mixed m t hy hx
  · rw [hxy]
    exact conversions_join_le hx hy

end Item

/-! ## Types -/

namespace Ty

theorem conversions_join_le {a b : Ty} (ha : a.WellFormed c) (hb : b.WellFormed c) :
    (a.join b).conversions ≤ 3 * min a.arity b.arity := by
  rw [join_eq]
  split
  · exact Item.conversions_join_le ha hb
  · exact Item.conversions_joinElements_le ha hb
  · split <;> exact Nat.zero_le _
  · exact Nat.zero_le _

/-- Each further type is charged for its own positions: the type that it meets may have any
number of them by then. -/
theorem conversions_joinFrom_le {conversions : Bool} {t : Ty} {us : List Ty}
    (ht : t.WellFormed c) (hus : ∀ u ∈ us, u.WellFormed c) :
    (joinFrom conversions t us).conversions ≤ 3 * (us.map arity).sum := by
  induction us generalizing t with
  | nil => exact Nat.zero_le _
  | cons u us ih =>
    obtain ⟨hu, hus⟩ := List.forall_mem_cons.1 hus
    have hjoin : ((t.join u).allowing conversions).conversions ≤ 3 * u.arity := by
      rw [Attempt.conversions_allowing]
      exact Nat.le_trans (conversions_join_le ht hu) (Nat.mul_le_mul_left 3 (Nat.min_le_right _ _))
    rw [List.map_cons, List.sum_cons, Nat.mul_add]
    exact Attempt.conversions_bind_le hjoin fun j hj =>
      ih (wellFormed_join ht hu (result_of_allowing hj)) hus

theorem conversions_joinAll_le {conversions : Bool} {ts : List Ty}
    (hts : ∀ t ∈ ts, t.WellFormed c) :
    (joinAll conversions ts).conversions ≤ 3 * (ts.tail.map arity).sum := by
  cases ts with
  | nil => exact Nat.zero_le _
  | cons t ts =>
    obtain ⟨ht, hts⟩ := List.forall_mem_cons.1 hts
    exact conversions_joinFrom_le ht hts

end Ty

end Hypercube
