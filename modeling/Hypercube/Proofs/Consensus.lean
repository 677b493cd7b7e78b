import Hypercube.Proofs.Symmetry

/-!
# The common type of many metadata types

Unifying a list of metadata types from the left passes through types that none of the entries has:
bound less far than their own kind.  What each of them says about the entries seen so far can still
be told without their order, if every entry is unknown or bound down to its own kind.

* `Metadata.Definite` — unknown, or bound down to its own kind.
* `Metadata.Outermost`, `Metadata.LongestShared` — the outermost kind among some types, and the
  longest path with which all the bound ones start.
* `Metadata.narrowed` — the type that remains of a kind and a shared path.
* `Metadata.Consensus`, `Metadata.Consensus.snoc` — what the entries seen so far have in common, and
  how one more entry changes it.
* `Metadata.Consensus.unique` — it is determined by the entries, in whichever order they come.
* `Ty.common_type_ignores_order` — the common type of a list of such types.
-/

set_option autoImplicit false

namespace Hypercube

/-- Cutting off a path cuts off what it shares with another. -/
theorem Binding.shared_take (a b : Binding) (n : Nat) :
    shared (a.take n) b = (shared a b).take n := by
  induction a generalizing b n with
  | nil => cases b <;> simp [shared]
  | cons x xs ih =>
    cases n with
    | zero => cases b <;> simp [shared]
    | succ n =>
      cases b with
      | nil => simp [shared]
      | cons y ys =>
        simp only [List.take_succ_cons, shared]
        split
        · rw [List.take_succ_cons, ih]
        · rw [List.take_nil]

namespace Metadata

/-! ## What some types have in common -/

/-- Nothing is known, or everything down to the kind. -/
def Definite (m : Metadata) : Prop :=
  m.binding = [] ∨ m.binding.length = m.kind.fields

instance (m : Metadata) : Decidable m.Definite :=
  inferInstanceAs (Decidable (_ ∨ _))

/-- A kind is the outermost among those of some types. -/
structure Outermost (k : Kind) (ms : List Metadata) : Prop where
  attained : ∃ m ∈ ms, m.kind = k
  least : ∀ m ∈ ms, k.depth ≤ m.kind.depth

/-- Some types are bound, and a path is the longest one with which all of these start. -/
structure LongestShared (p : Binding) (ms : List Metadata) : Prop where
  bound : ∃ m ∈ ms, m.binding ≠ []
  shared : ∀ m ∈ ms, m.binding ≠ [] → p <+: m.binding
  longest : ∀ q : Binding, (∀ m ∈ ms, m.binding ≠ [] → q <+: m.binding) → q <+: p

/-- Two types are bound to different dimensions. -/
def Clash (a b : Metadata) : Prop :=
  a.binding ≠ [] ∧ b.binding ≠ [] ∧ a.bound? .dimension ≠ b.bound? .dimension

theorem Outermost.unique {k l : Kind} {ms : List Metadata} (hk : Outermost k ms)
    (hl : Outermost l ms) : k = l := by
  obtain ⟨a, ha, rfl⟩ := hk.attained
  obtain ⟨b, hb, rfl⟩ := hl.attained
  exact Kind.depth_injective (Nat.le_antisymm (hk.least b hb) (hl.least a ha))

theorem Outermost.snoc {k : Kind} {ms : List Metadata} (h : Outermost k ms) (m : Metadata) :
    Outermost (k.outer m.kind) (ms ++ [m]) := by
  constructor
  · unfold Kind.outer
    split
    · obtain ⟨a, ha, hk⟩ := h.attained
      exact ⟨a, List.mem_append_left _ ha, hk⟩
    · exact ⟨m, by simp, rfl⟩
  · intro a ha
    rw [Kind.outer_depth]
    obtain ha | ha := List.mem_append.1 ha
    · have := h.least a ha
      omega
    · rw [List.mem_singleton.1 ha]
      omega

namespace LongestShared

variable {p q : Binding} {ms : List Metadata} {m : Metadata}

theorem unique (hp : LongestShared p ms) (hq : LongestShared q ms) : p = q :=
  (hq.longest p hp.shared).eq_of_length_le (hp.longest q hq.shared).length_le

/-- The first bound type shares its binding with itself. -/
theorem of_first (hms : ∀ a ∈ ms, a.binding = []) (hm : m.binding ≠ []) :
    LongestShared m.binding (ms ++ [m]) := by
  refine ⟨⟨m, by simp, hm⟩, fun a ha hbound => ?_, fun q hq => hq m (by simp) hm⟩
  obtain ha | ha := List.mem_append.1 ha
  · exact absurd (hms a ha) hbound
  · obtain rfl := List.mem_singleton.1 ha
    exact List.prefix_rfl

theorem snoc_unknown (h : LongestShared p ms) (hm : m.binding = []) :
    LongestShared p (ms ++ [m]) := by
  obtain ⟨a, ha, hbound⟩ := h.bound
  refine ⟨⟨a, List.mem_append_left _ ha, hbound⟩, fun b hb hb' => ?_, fun q hq => ?_⟩
  · obtain hb | hb := List.mem_append.1 hb
    · exact h.shared b hb hb'
    · rw [List.mem_singleton.1 hb] at hb'
      exact absurd hm hb'
  · exact h.longest q fun b hb => hq b (List.mem_append_left _ hb)

theorem snoc_bound (h : LongestShared p ms) (hm : m.binding ≠ []) :
    LongestShared (Binding.shared p m.binding) (ms ++ [m]) := by
  refine ⟨⟨m, by simp, hm⟩, fun b hb hb' => ?_, fun q hq => ?_⟩
  · obtain hb | hb := List.mem_append.1 hb
    · exact (Binding.shared_prefix_left _ _).trans (h.shared b hb hb')
    · rw [List.mem_singleton.1 hb]
      exact Binding.shared_prefix_right _ _
  · exact Binding.prefix_shared (h.longest q fun b hb => hq b (List.mem_append_left _ hb))
      (hq m (by simp) hm)

end LongestShared

/-! ## A kind and a shared path -/

/-- The type that remains of an outermost kind and a shared path: where the path ends before the
kind, the kind is cut off there. -/
def narrowed (k : Kind) (p : Binding) : Metadata :=
  ⟨k.cut p.length, p.take k.fields⟩

theorem narrowed_of_fields_le {k : Kind} {p : Binding} (h : k.fields ≤ p.length) :
    narrowed k p = ⟨k, p.take k.fields⟩ := by
  have hk : k.cut p.length = k := by
    apply Kind.depth_injective
    rw [Kind.cut_depth]
    exact Nat.min_eq_right (by unfold Kind.fields at h; omega)
  unfold narrowed
  rw [hk]

theorem narrowed_self {m : Metadata} (h : m.binding.length = m.kind.fields) :
    narrowed m.kind m.binding = m := by
  rw [narrowed_of_fields_le (Nat.le_of_eq h.symm), ← h, List.take_length]

/-- An unknown type takes on a binding that is known down to its kind. -/
theorem common?_unknown_bound (k : Kind) {m : Metadata} (h : m.binding.length = m.kind.fields) :
    common? (unknown k) m = some (narrowed (k.outer m.kind) m.binding) := by
  have hle : (k.outer m.kind).fields ≤ m.binding.length := by
    have := Kind.outer_depth k m.kind
    unfold Kind.fields at h ⊢
    omega
  rw [common?_of_unknown m rfl, narrowed_of_fields_le hle]
  rfl

/-- A shared path may be cut off first anywhere beyond the kind. -/
theorem eq_narrowed {j k : Kind} {p : Binding} {n : Nat} (hj : j.depth = min p.length k.depth)
    (hn : k.fields ≤ n) : (⟨j, (p.take n).take j.fields⟩ : Metadata) = narrowed k p := by
  have hkind : j = k.cut p.length := Kind.depth_injective (hj.trans (Kind.cut_depth _ _).symm)
  have hpath : (p.take n).take j.fields = p.take k.fields := by
    rw [List.take_take, List.take_eq_take_iff]
    unfold Kind.fields at hn ⊢
    omega
  unfold narrowed
  rw [hpath, hkind]

theorem common?_narrowed_unknown (k : Kind) (p : Binding) {m : Metadata} (hm : m.binding = []) :
    common? (narrowed k p) m = some (narrowed (k.outer m.kind) p) := by
  have hout := Kind.outer_depth k m.kind
  rw [common?_comm, common?_of_unknown _ hm]
  refine congrArg some (eq_narrowed ?_ ?_)
  · simp only [narrowed, Kind.outer_depth, Kind.cut_depth]
    omega
  · unfold Kind.fields
    omega

/-- Two bound types keep the path that they share, even though one was narrowed before. -/
theorem common?_narrowed_bound {k : Kind} {p : Binding} {m : Metadata} (hp : p ≠ [])
    (hm : m.binding ≠ []) (h : m.binding.length = m.kind.fields) :
    common? (narrowed k p) m =
      if Binding.shared p m.binding = [] then none
      else some (narrowed (k.outer m.kind) (Binding.shared p m.binding)) := by
  have hshared : Binding.shared (narrowed k p).binding m.binding =
      (Binding.shared p m.binding).take k.fields := Binding.shared_take p m.binding k.fields
  rw [common?_of_bound (Binding.take_fields_ne_nil k hp) hm]
  by_cases hs : Binding.shared p m.binding = []
  · rw [if_pos hs, hshared, hs, List.take_nil, if_pos rfl]
  · rw [if_neg hs, hshared, if_neg (Binding.take_fields_ne_nil k hs)]
    refine congrArg some (eq_narrowed ?_ ?_)
    · -- the bindings diverge within the kinds exactly if the path that all share ends there
      have hlp := (Binding.shared_prefix_left p m.binding).length_le
      have hlm := (Binding.shared_prefix_right p m.binding).length_le
      have hlen : (narrowed k p).binding.length = min k.fields p.length := List.length_take
      have hdiverge := Binding.diverge_iff (a := (narrowed k p).binding) (b := m.binding)
      rw [hshared, List.length_take, hlen, h] at hdiverge
      have hkind : (narrowed k p).kind.depth = min p.length k.depth := Kind.cut_depth _ _
      rw [sharedKind_depth, hshared, List.length_take, hkind, Kind.outer_depth]
      unfold Kind.fields at *
      split
      · rename_i hd
        have := hdiverge.1 hd
        omega
      · rename_i hd
        have := mt hdiverge.2 hd
        omega
    · have hout := Kind.outer_depth k m.kind
      unfold Kind.fields
      omega

/-! ## One entry after the other -/

/-- What some types have in common, told without their order. -/
inductive Consensus (ms : List Metadata) : Option Metadata → Prop
  | clash {a b : Metadata} (ha : a ∈ ms) (hb : b ∈ ms) (h : Clash a b) : Consensus ms none
  | unknown {k : Kind} (hk : Outermost k ms) (hms : ∀ m ∈ ms, m.binding = []) :
    Consensus ms (some (.unknown k))
  | bound {k : Kind} {p : Binding} (hk : Outermost k ms) (hp : LongestShared p ms)
    (hne : p ≠ []) : Consensus ms (some (narrowed k p))

/-- Types whose bindings start alike have the same dimension. -/
theorem not_clash_of_same_start {p : Binding} {a b : Metadata} (hp : p ≠ [])
    (ha : a.binding ≠ [] → p <+: a.binding) (hb : b.binding ≠ [] → p <+: b.binding) :
    ¬ Clash a b := by
  rintro ⟨hna, hnb, hdim⟩
  cases p with
  | nil => exact hp rfl
  | cons d ds =>
    obtain ⟨as, has, -⟩ := List.cons_prefix_iff.1 (ha hna)
    obtain ⟨bs, hbs, -⟩ := List.cons_prefix_iff.1 (hb hnb)
    apply hdim
    simp only [bound?, has, hbs, Kind.depth, List.getElem?_cons_zero]

theorem clash_of_shared_nil {p : Binding} {a b : Metadata} (hp : p ≠ []) (ha : p <+: a.binding)
    (hb : b.binding ≠ []) (h : Binding.shared p b.binding = []) : Clash a b := by
  refine ⟨ha.ne_nil hp, hb, ?_⟩
  cases p with
  | nil => exact absurd rfl hp
  | cons d ds =>
    obtain ⟨as, has, -⟩ := List.cons_prefix_iff.1 ha
    cases hbs : b.binding with
    | nil => exact absurd hbs hb
    | cons e es =>
      rw [hbs] at h
      intro hdim
      simp only [bound?, has, hbs, Kind.depth, List.getElem?_cons_zero, Option.some.injEq] at hdim
      simp [Binding.shared, hdim] at h

namespace Consensus

variable {ms : List Metadata} {m t : Metadata} {r s : Option Metadata}

theorem eq_none_iff (h : Consensus ms r) : r = none ↔ ∃ a ∈ ms, ∃ b ∈ ms, Clash a b := by
  cases h with
  | clash ha hb h => exact ⟨fun _ => ⟨_, ha, _, hb, h⟩, fun _ => rfl⟩
  | unknown _ hms =>
    refine ⟨(fun h => nomatch h), ?_⟩
    rintro ⟨a, ha, -, -, hbound, -⟩
    exact absurd (hms a ha) hbound
  | bound _ hp hne =>
    refine ⟨(fun h => nomatch h), ?_⟩
    rintro ⟨a, ha, b, hb, h⟩
    exact absurd h (not_clash_of_same_start hne (hp.shared a ha) (hp.shared b hb))

/-- The types determine what they have in common. -/
theorem unique (hr : Consensus ms r) (hs : Consensus ms s) : r = s := by
  have hnone := hr.eq_none_iff.trans hs.eq_none_iff.symm
  cases hr with
  | clash => exact (hnone.1 rfl).symm
  | unknown hk hms =>
    cases hs with
    | clash => exact hnone.2 rfl
    | unknown hl _ => rw [hk.unique hl]
    | bound _ hp _ =>
      obtain ⟨a, ha, hbound⟩ := hp.bound
      exact absurd (hms a ha) hbound
  | bound hk hp hne =>
    cases hs with
    | clash => exact hnone.2 rfl
    | unknown _ hms =>
      obtain ⟨a, ha, hbound⟩ := hp.bound
      exact absurd (hms a ha) hbound
    | bound hl hq _ => rw [hk.unique hl, hp.unique hq]

theorem single (hm : m.Definite) : Consensus [m] (some m) := by
  have hk : Outermost m.kind [m] := ⟨⟨m, by simp, rfl⟩, by simp⟩
  by_cases hb : m.binding = []
  · obtain ⟨k, p⟩ := m
    subst hb
    exact .unknown hk (by simp)
  · have hp : LongestShared m.binding ([] ++ [m]) := .of_first (by simp) hb
    have hc := Consensus.bound hk hp hb
    rwa [narrowed_self (hm.resolve_left hb)] at hc

theorem snoc (h : Consensus ms (some t)) (hm : m.Definite) :
    Consensus (ms ++ [m]) (common? t m) := by
  cases h with
  | unknown hk hms =>
    by_cases hb : m.binding = []
    · have hall : ∀ a ∈ ms ++ [m], a.binding = [] := by
        intro a ha
        obtain ha | ha := List.mem_append.1 ha
        · exact hms a ha
        · rw [List.mem_singleton.1 ha, hb]
      rw [common?_of_unknown m rfl, hb, List.take_nil]
      exact .unknown (hk.snoc m) hall
    · rw [common?_unknown_bound _ (hm.resolve_left hb)]
      exact .bound (hk.snoc m) (.of_first hms hb) hb
  | bound hk hp hne =>
    by_cases hb : m.binding = []
    · rw [common?_narrowed_unknown _ _ hb]
      exact .bound (hk.snoc m) (hp.snoc_unknown hb) hne
    · rw [common?_narrowed_bound hne hb (hm.resolve_left hb)]
      split
      · rename_i hs
        obtain ⟨a, ha, hbound⟩ := hp.bound
        exact .clash (List.mem_append_left _ ha) (by simp)
          (clash_of_shared_nil hne (hp.shared a ha hbound) hb hs)
      · rename_i hs
        exact .bound (hk.snoc m) (hp.snoc_bound hb) hs

/-- A clash stays, whatever follows. -/
theorem append_of_clash (h : Consensus ms none) (ns : List Metadata) :
    Consensus (ms ++ ns) none := by
  cases h with
  | clash ha hb h => exact .clash (List.mem_append_left _ ha) (List.mem_append_left _ hb) h

theorem perm {ns : List Metadata} (h : Consensus ms r) (hns : ns.Perm ms) : Consensus ns r := by
  have houter : ∀ {k}, Outermost k ms → Outermost k ns := fun hk =>
    ⟨by simpa only [hns.mem_iff] using hk.attained, by simpa only [hns.mem_iff] using hk.least⟩
  cases h with
  | clash ha hb h => exact .clash (hns.mem_iff.2 ha) (hns.mem_iff.2 hb) h
  | unknown hk hms => exact .unknown (houter hk) fun m hm => hms m (hns.mem_iff.1 hm)
  | bound hk hp hne =>
    refine .bound (houter hk) ⟨?_, ?_, ?_⟩ hne
    · simpa only [hns.mem_iff] using hp.bound
    · simpa only [hns.mem_iff] using hp.shared
    · simpa only [hns.mem_iff] using hp.longest

end Consensus

end Metadata

/-! ## Lists of types -/

namespace Ty

open Metadata

theorem join_metadata_result (a b : Metadata) :
    ((Ty.metadata a).join (.metadata b)).result = (common? a b).map .metadata := by
  rw [join_metadata, Metadata.join]
  cases common? a b <;> rfl

theorem joinFrom_metadata_result (t m : Metadata) (us : List Ty) :
    (joinFrom true (.metadata t) (.metadata m :: us)).result =
      (common? t m).bind fun j => (joinFrom true (.metadata j) us).result := by
  rw [joinFrom_allowing_result, join_metadata_result, Option.bind_map]
  rfl

/-- Going on from what the entries seen so far have in common ends with what all of them have. -/
theorem joinFrom_consensus {seen ms : List Metadata} {t : Metadata}
    (h : Consensus seen (some t)) (hms : ∀ m ∈ ms, m.Definite) :
    ∃ r, Consensus (seen ++ ms) r ∧
      (joinFrom true (.metadata t) (ms.map .metadata)).result = r.map .metadata := by
  induction ms generalizing seen t with
  | nil => exact ⟨some t, by rwa [List.append_nil], rfl⟩
  | cons m ms ih =>
    have hstep := h.snoc (hms m (by simp))
    rw [List.map_cons, joinFrom_metadata_result, ← List.singleton_append, ← List.append_assoc]
    cases hj : common? t m with
    | none =>
      rw [hj] at hstep
      exact ⟨none, hstep.append_of_clash ms, rfl⟩
    | some j =>
      rw [hj] at hstep
      exact ih hstep fun a ha => hms a (List.mem_cons_of_mem m ha)

theorem joinAll_consensus {ms : List Metadata} (hne : ms ≠ []) (hms : ∀ m ∈ ms, m.Definite) :
    ∃ r, Consensus ms r ∧ (joinAll true (ms.map .metadata)).result = r.map .metadata := by
  cases ms with
  | nil => exact absurd rfl hne
  | cons m ms =>
    exact joinFrom_consensus (.single (hms m (by simp)))
      fun a ha => hms a (List.mem_cons_of_mem m ha)

/-- The common type of metadata types that are each unknown or bound down to their own kind.  There
is none exactly if two of them are bound to different dimensions.  If none of them is bound, it is
the unknown type of the outermost kind.  Otherwise its kind is the outermost one or, where the path
that all the bound ones share ends before it, the kind at that depth; its binding is that path as
far as the outermost kind goes.  The order of the types does not matter. -/
theorem common_type_ignores_order (ms : List Metadata) (hne : ms ≠ [])
    (hms : ∀ m ∈ ms, m.Definite) :
    ((joinAll true (ms.map .metadata)).result = none ↔ ∃ a ∈ ms, ∃ b ∈ ms, Clash a b) ∧
    ((∀ m ∈ ms, m.binding = []) → ∃ k, Outermost k ms ∧
      (joinAll true (ms.map .metadata)).result = some (.metadata (.unknown k))) ∧
    ((∃ m ∈ ms, m.binding ≠ []) → (joinAll true (ms.map .metadata)).result ≠ none →
      ∃ k p j, Outermost k ms ∧ LongestShared p ms ∧ j.depth = min p.length k.depth ∧
        (joinAll true (ms.map .metadata)).result =
          some (.metadata ⟨j, p.take (min p.length (k.depth + 1))⟩)) ∧
    ∀ ns : List Metadata, ns.Perm ms →
      (joinAll true (ns.map .metadata)).result = (joinAll true (ms.map .metadata)).result := by
  obtain ⟨r, hr, hres⟩ := joinAll_consensus hne hms
  refine ⟨?_, ?_, ?_, ?_⟩
  · rw [hres, Option.map_eq_none_iff]
    exact hr.eq_none_iff
  · intro hunknown
    rw [hres]
    cases hr with
    | clash ha _ h => exact absurd (hunknown _ ha) h.1
    | unknown hk _ => exact ⟨_, hk, rfl⟩
    | bound _ hp _ =>
      obtain ⟨a, ha, hbound⟩ := hp.bound
      exact absurd (hunknown a ha) hbound
  · rintro ⟨a, ha, hbound⟩ hsome
    rw [hres] at hsome ⊢
    cases hr with
    | clash => exact absurd rfl hsome
    | unknown _ hms => exact absurd (hms a ha) hbound
    | bound hk hp _ =>
      refine ⟨_, _, _, hk, hp, Kind.cut_depth _ _, ?_⟩
      rw [Nat.min_comm, ← List.take_eq_take_min]
      rfl
  · intro ns hns
    have hne' : ns ≠ [] := by
      rintro rfl
      exact hne hns.symm.eq_nil
    obtain ⟨s, hs, hres'⟩ := joinAll_consensus hne' fun m hm => hms m (hns.mem_iff.1 hm)
    rw [hres, hres', hs.unique (hr.perm hns)]

/-- Members of two levels of a hierarchy and some unknown member have in common that they are in a
level of that hierarchy, in whichever order they come. -/
theorem common_type_ignores_order_of_levels :
    let ms : List Metadata := [⟨.member, [⟨0, 0⟩, ⟨0, 1⟩, ⟨0, 2⟩, ⟨0, 3⟩]⟩, .unknown .member,
      ⟨.member, [⟨0, 0⟩, ⟨0, 1⟩, ⟨0, 4⟩, ⟨0, 5⟩]⟩]
    ms ≠ [] ∧ (∀ m ∈ ms, m.Definite) ∧ ∀ ns : List Metadata, ns.Perm ms →
      (joinAll true (ns.map .metadata)).result =
        some (.metadata ⟨.level, [⟨0, 0⟩, ⟨0, 1⟩]⟩) := by
  intro ms
  have hne : ms ≠ [] := by decide
  have hms : ∀ m ∈ ms, m.Definite := by decide
  refine ⟨hne, hms, fun ns hns => ?_⟩
  rw [(common_type_ignores_order ms hne hms).2.2.2 ns hns]
  decide

end Ty

end Hypercube
