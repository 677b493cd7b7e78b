import Hypercube.Proofs.Addressing
import Hypercube.Proofs.WellFormed

/-!
# What two metadata types keep of their bindings

Two bound types are unified by following their bindings from the dimension downwards, up to the
first place where one of them ends or the two differ, and by cutting off what the remaining kind
does not reach.  The result can be said place by place, without an order: exactly those elements
stay that both types are bound to.  This rests on bindings being paths, so that types which are
bound to the same element are bound to the same elements around it.

* `Binding.getElem?_shared_iff` — linked bindings share exactly the elements that they have in
  common.
* `Metadata.Conflict`, `Metadata.firstConflict_iff` — kinds for which two types are bound to
  different elements; the first one is where their bindings diverge.
* `Metadata.common?_eq_shared` — the cut never removes a shared element.
* `Metadata.conversions_join` — conversions are the kinds for which a binding is lost.
* `Ty.shared_bindings_are_kept` — all of this for the common type.
-/

set_option autoImplicit false

namespace Hypercube

variable {c : Catalog}

/-! ## Shared elements -/

namespace Binding

/-- Bindings to the same element are the same up to there, as its containers are. -/
theorem Linked.take_eq {a b : Binding} (ha : a.Linked c) (hb : b.Linked c) {k : Kind} {e : Ref}
    (hae : a[k.depth]? = some e) (hbe : b[k.depth]? = some e) :
    a.take k.fields = b.take k.fields := by
  induction hn : k.depth generalizing k e with
  | zero =>
    rw [hn] at hae hbe
    rw [Kind.fields, hn, List.take_add_one, List.take_add_one, hae, hbe]
    rfl
  | succ n ih =>
    have hk : k ≠ .dimension := by
      rintro rfl
      cases hn
    obtain ⟨k', hk'⟩ := Kind.exists_depth (n := n) (by have := k.depth_le_three; omega)
    -- both bind the container of the element, one place further out
    have hlt : k.depth < a.length := (List.getElem?_eq_some_iff.1 hae).1
    have hax : a[k'.depth]? = some a[k'.depth] := List.getElem?_eq_getElem (by omega)
    have hbx : b[k'.depth]? = some a[k'.depth] := by
      have hout : k.depth - 1 = k'.depth := by omega
      rw [← hax, ← hout, ← ha k e hae hk, hb k e hbe hk]
    have htake := ih hax hbx hk'
    rw [Kind.fields, hk'] at htake
    rw [Kind.fields, hn, List.take_add_one (i := n + 1), List.take_add_one (i := n + 1), htake,
      ← hn, hae, hbe]

/-- Linked bindings share exactly the elements that they have in common. -/
theorem getElem?_shared_iff {a b : Binding} (ha : a.Linked c) (hb : b.Linked c) {k : Kind}
    {e : Ref} :
    (shared a b)[k.depth]? = some e ↔ a[k.depth]? = some e ∧ b[k.depth]? = some e := by
  constructor
  · intro h
    have hlt : k.depth < (shared a b).length := (List.getElem?_eq_some_iff.1 h).1
    rw [← getElem?_prefix_eq (shared_prefix_left a b) hlt,
      ← getElem?_prefix_eq (shared_prefix_right a b) hlt]
    exact ⟨h, h⟩
  · rintro ⟨hae, hbe⟩
    have htake := ha.take_eq hb hae hbe
    have hpre : a.take k.fields <+: shared a b :=
      prefix_shared (List.take_prefix _ _) (htake ▸ List.take_prefix _ _)
    have hlt : k.depth < (a.take k.fields).length := by
      have := (List.getElem?_eq_some_iff.1 hae).1
      rw [List.length_take, Kind.fields]
      omega
    rw [← getElem?_prefix_eq hpre hlt, getElem?_prefix_eq (List.take_prefix _ _) hlt]
    exact hae

/-- After the path that they share, two bindings do not go on with the same element. -/
theorem ne_after_shared {a b : Binding} {x y : Ref} (hx : a[(shared a b).length]? = some x)
    (hy : b[(shared a b).length]? = some y) : x ≠ y := by
  rintro rfl
  have htake : a.take (shared a b).length = b.take (shared a b).length := by
    rw [← List.prefix_iff_eq_take.1 (shared_prefix_left a b),
      ← List.prefix_iff_eq_take.1 (shared_prefix_right a b)]
  have hnext : a.take ((shared a b).length + 1) = b.take ((shared a b).length + 1) := by
    rw [List.take_add_one, List.take_add_one, htake, hx, hy]
  -- the path would be longer by this element
  have hle := (prefix_shared (List.take_prefix _ a) (hnext ▸ List.take_prefix _ b)).length_le
  have hlt := (List.getElem?_eq_some_iff.1 hx).1
  rw [List.length_take] at hle
  omega

end Binding

namespace Metadata

variable {a b m : Metadata}

theorem length_binding_le_four (ha : a.WellFormed c) : a.binding.length ≤ 4 := by
  have hwithin := ha.within
  have hdepth := a.kind.depth_le_three
  rw [Kind.fields] at hwithin
  omega

/-! ## Conflicts -/

/-- Two types are bound to different elements of a kind. -/
def Conflict (a b : Metadata) (k : Kind) : Prop :=
  ∃ x y, a.bound? k = some x ∧ b.bound? k = some y ∧ x ≠ y

/-- The outermost kind for which two types are bound to different elements. -/
def FirstConflict (a b : Metadata) (k : Kind) : Prop :=
  Conflict a b k ∧ ∀ j : Kind, j.depth < k.depth → ¬ Conflict a b j

/-- Within the path that they share, types are not in conflict. -/
theorem shared_length_le_of_conflict {k : Kind} (h : Conflict a b k) :
    (Binding.shared a.binding b.binding).length ≤ k.depth := by
  obtain ⟨x, y, hx, hy, hne⟩ := h
  refine Nat.le_of_not_lt fun hlt => hne ?_
  rw [bound?, ← Binding.getElem?_prefix_eq (Binding.shared_prefix_left _ _) hlt] at hx
  rw [bound?, ← Binding.getElem?_prefix_eq (Binding.shared_prefix_right _ _) hlt] at hy
  exact Option.some.inj (hx.symm.trans hy)

theorem diverge_of_conflict {k : Kind} (h : Conflict a b k) :
    Binding.diverge a.binding b.binding = true := by
  have hle := shared_length_le_of_conflict h
  obtain ⟨x, y, hx, hy, -⟩ := h
  have hxlt := (List.getElem?_eq_some_iff.1 hx).1
  have hylt := (List.getElem?_eq_some_iff.1 hy).1
  exact Binding.diverge_iff.2 ⟨by omega, by omega⟩

/-- Where bindings diverge, there is the first conflict. -/
theorem firstConflict_iff (ha : a.WellFormed c) {k : Kind} :
    FirstConflict a b k ↔
      Binding.diverge a.binding b.binding = true ∧
        k.depth = (Binding.shared a.binding b.binding).length := by
  have here : ∀ j : Kind, Binding.diverge a.binding b.binding = true →
      j.depth = (Binding.shared a.binding b.binding).length → Conflict a b j := by
    intro j hdiv hj
    obtain ⟨hla, hlb⟩ := Binding.diverge_iff.1 hdiv
    have hx := List.getElem?_eq_getElem hla
    have hy := List.getElem?_eq_getElem hlb
    refine ⟨_, _, ?_, ?_, Binding.ne_after_shared hx hy⟩
    · rw [bound?, hj, hx]
    · rw [bound?, hj, hy]
  constructor
  · rintro ⟨hconflict, hfirst⟩
    have hdiv := diverge_of_conflict hconflict
    have hle := shared_length_le_of_conflict hconflict
    refine ⟨hdiv, Nat.le_antisymm (Nat.le_of_not_lt fun hlt => ?_) hle⟩
    -- the place right after the shared path belongs to a kind, and there is a conflict
    obtain ⟨hla, -⟩ := Binding.diverge_iff.1 hdiv
    have hfour := length_binding_le_four ha
    obtain ⟨j, hj⟩ := Kind.exists_depth (n := (Binding.shared a.binding b.binding).length)
      (by omega)
    exact hfirst j (by omega) (here j hdiv hj)
  · rintro ⟨hdiv, hk⟩
    refine ⟨here k hdiv hk, fun j hj hconflict => ?_⟩
    have := shared_length_le_of_conflict hconflict
    omega

/-! ## The common type -/

/-- The kind that remains reaches as far as the shared path. -/
theorem shared_length_le_fields (ha : a.WellFormed c) (hb : b.WellFormed c) :
    (Binding.shared a.binding b.binding).length ≤ (sharedKind a b).fields := by
  have hla := (Binding.shared_prefix_left a.binding b.binding).length_le
  have hlb := (Binding.shared_prefix_right a.binding b.binding).length_le
  have hwa := ha.within
  have hwb := hb.within
  rw [Kind.fields] at *
  rw [sharedKind_depth]
  split
  · rename_i hdiv
    obtain ⟨hda, hdb⟩ := Binding.diverge_iff.1 hdiv
    omega
  · omega

/-- Bound types keep the path that they share, and no element of it is beyond the kind that
remains. -/
theorem common?_eq_shared (ha : a.WellFormed c) (hb : b.WellFormed c) (hna : a.binding ≠ [])
    (hnb : b.binding ≠ []) :
    common? a b =
      if Binding.shared a.binding b.binding = [] then none
      else some ⟨sharedKind a b, Binding.shared a.binding b.binding⟩ := by
  rw [common?_of_bound hna hnb, List.take_of_length_le (shared_length_le_fields ha hb)]

theorem shared_ne_nil_iff (ha : a.WellFormed c) (hb : b.WellFormed c) {d e : Ref}
    (hd : a.bound? .dimension = some d) (he : b.bound? .dimension = some e) :
    Binding.shared a.binding b.binding ≠ [] ↔ d = e := by
  have hfirst := Binding.getElem?_shared_iff ha.linked hb.linked (k := .dimension) (e := d)
  constructor
  · intro hne
    have hget := List.getElem?_eq_getElem (List.length_pos_iff.2 hne)
    obtain ⟨hx, hy⟩ := (Binding.getElem?_shared_iff ha.linked hb.linked (k := .dimension)).1 hget
    exact Option.some.inj ((hd.symm.trans hx).trans (hy.symm.trans he))
  · rintro rfl hnil
    rw [hnil] at hfirst
    cases hfirst.2 ⟨hd, he⟩

theorem sharedKind_of_no_conflict (ha : a.WellFormed c) (h : ∀ k, ¬ Conflict a b k) :
    sharedKind a b = a.kind.outer b.kind := by
  apply Kind.depth_injective
  have hdiv : ¬ Binding.diverge a.binding b.binding = true := by
    intro hdiv
    obtain ⟨hla, -⟩ := Binding.diverge_iff.1 hdiv
    have hfour := length_binding_le_four ha
    obtain ⟨k, hk⟩ := Kind.exists_depth (n := (Binding.shared a.binding b.binding).length)
      (by omega)
    exact h k ((firstConflict_iff ha).2 ⟨hdiv, hk⟩).1
  rw [sharedKind_depth, if_neg hdiv, Kind.outer_depth]

theorem sharedKind_of_firstConflict (ha : a.WellFormed c) (hb : b.WellFormed c) {k : Kind}
    (h : FirstConflict a b k) : sharedKind a b = k := by
  apply Kind.depth_injective
  obtain ⟨hdiv, hk⟩ := (firstConflict_iff ha).1 h
  obtain ⟨hla, hlb⟩ := Binding.diverge_iff.1 hdiv
  have hwa := ha.within
  have hwb := hb.within
  rw [Kind.fields] at hwa hwb
  rw [sharedKind_depth, if_pos hdiv, hk]
  omega

/-! ## Conversions -/

theorem countP_depth_lt {n : Nat} (h : n ≤ 4) : Kind.all.countP (fun k => k.depth < n) = n :=
  match n, h with
  | 0, _ | 1, _ | 2, _ | 3, _ | 4, _ => rfl

/-- A type is bound for as many kinds as its binding is long. -/
theorem countP_bound (hm : m.WellFormed c) :
    Kind.all.countP (fun k => (m.bound? k).isSome) = m.binding.length := by
  rw [← countP_depth_lt (length_binding_le_four hm)]
  refine List.countP_congr fun k _ => ?_
  simp [bound?]

theorem countP_bound_or (ha : a.WellFormed c) (hb : b.WellFormed c) :
    Kind.all.countP (fun k => (a.bound? k).isSome || (b.bound? k).isSome) =
      max a.binding.length b.binding.length := by
  have hla := length_binding_le_four ha
  have hlb := length_binding_le_four hb
  rw [← countP_depth_lt (n := max a.binding.length b.binding.length) (by omega)]
  refine List.countP_congr fun k _ => ?_
  simp only [bound?, Bool.or_eq_true, isSome_getElem?, decide_eq_true_eq]
  omega

/-- There is one conversion for each kind for which a binding is lost. -/
theorem conversions_join (ha : a.WellFormed c) (hb : b.WellFormed c) {n : Nat}
    (h : (a.join b).outcome? = some (m, n)) :
    n + Kind.all.countP (fun k => (m.bound? k).isSome) =
      Kind.all.countP (fun k => (a.bound? k).isSome || (b.bound? k).isSome) := by
  have hm := wellFormed_join ha hb (Attempt.outcome?_eq_some_iff.1 h).1
  rw [countP_bound hm, countP_bound_or ha hb]
  unfold join at h
  split at h
  · rename_i hcommon
    rw [Attempt.outcome?_paying] at h
    cases h
    have hle : m.binding.length ≤ max a.binding.length b.binding.length := by
      obtain hp | hp := prefix_of_common? hcommon
      · exact Nat.le_trans hp.length_le (Nat.le_max_left _ _)
      · exact Nat.le_trans hp.length_le (Nat.le_max_right _ _)
    omega
  · cases h

/-! ## Unknown types -/

/-- An unknown type takes on the binding of the other one, for the kinds that the outer kind has. -/
theorem common?_unknown_left (h : a.isUnknown = true) (b : Metadata) :
    ∃ m, common? a b = some m ∧ m.kind = a.kind.outer b.kind ∧
      ∀ k, m.bound? k = if k.depth ≤ m.kind.depth then b.bound? k else none := by
  refine ⟨_, common?_of_unknown b (List.isEmpty_iff.1 h), rfl, fun k => ?_⟩
  simp only [bound?, List.getElem?_take, Kind.fields, Nat.lt_succ_iff]

end Metadata

/-! ## Metadata types as types -/

/-- Two metadata types that are bound to a dimension have a common type exactly if the dimension is
the same.  It is bound to exactly those elements that both are bound to.  Its kind is the outer one
of their kinds, or the first kind for which they are bound to different elements if there is one.
An unknown type always has a common type with another: it is of the outer kind, and bound as the
other one is for the kinds that this kind has.  In all cases there is one conversion for each kind
for which one of the types is bound and the common type is not. -/
theorem Ty.shared_bindings_are_kept {a b : Metadata} (ha : a.WellFormed c) (hb : b.WellFormed c) :
    let joined := (Ty.metadata a).join (.metadata b)
    (∀ d e, a.bound? .dimension = some d → b.bound? .dimension = some e →
      (joined.result.isSome = true ↔ d = e) ∧
      ∀ j, joined.result = some j → ∃ m, j = .metadata m ∧
        (∀ k r, m.bound? k = some r ↔ a.bound? k = some r ∧ b.bound? k = some r) ∧
        ((∀ k, ¬ Metadata.Conflict a b k) → m.kind = a.kind.outer b.kind) ∧
        ∀ k, Metadata.FirstConflict a b k → m.kind = k) ∧
    (a.isUnknown = true → ∃ m, joined.result = some (.metadata m) ∧
      m.kind = a.kind.outer b.kind ∧
      ∀ k, m.bound? k = if k.depth ≤ m.kind.depth then b.bound? k else none) ∧
    (b.isUnknown = true → ∃ m, joined.result = some (.metadata m) ∧
      m.kind = a.kind.outer b.kind ∧
      ∀ k, m.bound? k = if k.depth ≤ m.kind.depth then a.bound? k else none) ∧
    ∀ j n, joined.outcome? = some (j, n) → ∃ m, j = .metadata m ∧
      n + Kind.all.countP (fun k => (m.bound? k).isSome) =
        Kind.all.countP fun k => (a.bound? k).isSome || (b.bound? k).isSome := by
  intro joined
  have hjoined : joined = (a.join b).map .metadata := join_metadata a b
  have hresult : joined.result = (Metadata.common? a b).map .metadata := by
    rw [hjoined, Metadata.join]
    cases Metadata.common? a b <;> rfl
  refine ⟨fun d e hd he => ?_, fun hunknown => ?_, fun hunknown => ?_, fun j n hj => ?_⟩
  · have hna : a.binding ≠ [] := List.ne_nil_of_mem (List.mem_of_getElem? hd)
    have hnb : b.binding ≠ [] := List.ne_nil_of_mem (List.mem_of_getElem? he)
    rw [hresult, Metadata.common?_eq_shared ha hb hna hnb,
      ← Metadata.shared_ne_nil_iff ha hb hd he]
    split
    · rename_i hnil
      refine ⟨iff_of_false Bool.false_ne_true (not_not_intro hnil), fun j hj => ?_⟩
      cases hj
    · rename_i hne
      refine ⟨iff_of_true rfl hne, fun j hj => ?_⟩
      cases hj
      exact ⟨_, rfl, fun k r => Binding.getElem?_shared_iff ha.linked hb.linked,
        Metadata.sharedKind_of_no_conflict ha,
        fun k hk => Metadata.sharedKind_of_firstConflict ha hb hk⟩
  · obtain ⟨m, hm, hrest⟩ := Metadata.common?_unknown_left hunknown b
    exact ⟨m, by rw [hresult, hm]; rfl, hrest⟩
  · obtain ⟨m, hm, hkind, hbound⟩ := Metadata.common?_unknown_left hunknown a
    rw [Kind.outer_comm] at hkind
    exact ⟨m, by rw [hresult, Metadata.common?_comm, hm]; rfl, hkind, hbound⟩
  · rw [hjoined] at hj
    obtain ⟨m, hm, rfl⟩ := Attempt.outcome?_map_eq_some_iff.1 hj
    exact ⟨m, rfl, Metadata.conversions_join ha hb hm⟩

/-- A city and its country are on different levels of one hierarchy.  They have the type of levels
of that hierarchy in common, and lose their levels and themselves.  With an unknown level, the city
loses nothing but itself. -/
theorem Ty.shared_bindings_are_kept_of_city_and_country :
    let c : Catalog := ⟨#[Schema.italianCity]⟩
    let rome : Metadata := ⟨.member, [⟨0, 0⟩, ⟨0, 0⟩, ⟨0, 2⟩, ⟨0, 2⟩]⟩
    let italy : Metadata := ⟨.member, [⟨0, 0⟩, ⟨0, 0⟩, ⟨0, 1⟩, ⟨0, 1⟩]⟩
    rome.WellFormed c ∧ italy.WellFormed c ∧ (Metadata.unknown .level).WellFormed c ∧
      Metadata.FirstConflict rome italy .level ∧
      (∃ m, ((Ty.metadata rome).join (.metadata italy)).outcome? = some (.metadata m, 2) ∧
        m.kind = .level ∧
        (∀ k r, m.bound? k = some r ↔ rome.bound? k = some r ∧ italy.bound? k = some r) ∧
        2 + Kind.all.countP (fun k => (m.bound? k).isSome) = 4) ∧
      ∃ m, ((Ty.metadata rome).join (.metadata (.unknown .level))).result = some (.metadata m) ∧
        m.kind = .level ∧ m.bound? .level = some ⟨0, 2⟩ ∧ m.bound? .member = none := by
  intro c rome italy
  have hrome : rome.WellFormed c := by decide +kernel
  have hitaly : italy.WellFormed c := by decide +kernel
  have hlevel : (Metadata.unknown .level).WellFormed c := by decide +kernel
  have hfirst : Metadata.FirstConflict rome italy .level := by
    refine ⟨⟨⟨0, 2⟩, ⟨0, 1⟩, rfl, rfl, by decide⟩, fun j hj => ?_⟩
    rintro ⟨x, y, hx, hy, hne⟩
    cases j with
    | dimension | hierarchy => exact hne (Option.some.inj (hx.symm.trans hy))
    | level | member => exact absurd hj (by decide)
  obtain ⟨hbound, -, -, hcount⟩ := shared_bindings_are_kept hrome hitaly
  obtain ⟨-, hkept⟩ := hbound ⟨0, 0⟩ ⟨0, 0⟩ rfl rfl
  obtain ⟨m, hm, hfields, -, hkind⟩ := hkept (.metadata ⟨.level, [⟨0, 0⟩, ⟨0, 0⟩]⟩) rfl
  obtain ⟨m', hm', hlost⟩ := hcount (.metadata ⟨.level, [⟨0, 0⟩, ⟨0, 0⟩]⟩) 2 rfl
  cases hm
  cases hm'
  obtain ⟨-, -, hunknown, -⟩ := shared_bindings_are_kept hrome hlevel
  obtain ⟨n, hn, hnkind, hnbound⟩ := hunknown rfl
  refine ⟨hrome, hitaly, hlevel, hfirst, ⟨_, rfl, hkind .level hfirst, hfields, hlost⟩,
    n, hn, hnkind, ?_, ?_⟩
  · rw [hnbound, hnkind]
    rfl
  · rw [hnbound, hnkind]
    rfl

end Hypercube
