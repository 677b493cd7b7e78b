import Hypercube.Proofs.Chains

/-!
# Unification without conversions

Where no conversions are allowed, unification of a list finds the least type that takes in all
entries for free, and fails only if there is no such type.  This says nothing about the order of the
entries, which therefore cannot matter.

* `Metadata.exists_free_join`, …, `Ty.exists_free_join` — two types that a third one takes in for
  free have a common type for free, and the third one takes it in.
* `Ty.Least` — the least type that takes in all entries of a list.
* `Ty.joinFrom_of_takes`, `Ty.takes_of_joinAll` — where a type takes in all entries, unification
  finds one below it; what it finds takes in all entries.
* `Ty.joinAll_free_iff` — hence it finds the least type.
* `Ty.free_unification_ignores_order` — it succeeds just where no conversions are needed, and it does
  not depend on the order of the entries.
-/

set_option autoImplicit false

namespace Hypercube

/-! ## Metadata -/

namespace Metadata

/-- A type that is taken in for free is unknown or bound in the same way. -/
theorem Takes.binding_of_free {w a : Metadata} (h : w.Takes false a) :
    a.binding = [] ∨ a.binding = w.binding := by
  have hle := h.2.resolve_left Bool.false_ne_true
  exact h.1.path.imp_right fun ⟨_, hpre⟩ => (hpre.eq_of_length_le hle).symm

/-- A type takes in the outer of two kinds, with a binding that it takes in with one of them. -/
theorem Takes.outer {w a b : Metadata} (ha : w.Takes false a) (hb : w.Takes false b) :
    w.Takes false ⟨a.kind.outer b.kind, b.binding⟩ := by
  refine ⟨⟨?_, hb.1.within, hb.1.path⟩, hb.2⟩
  have hka := ha.1.kind
  have hkb := hb.1.kind
  simp only [Kind.outer_depth]
  omega

theorem Takes.length_le_outer {w a b : Metadata} (ha : w.Takes false a) (hb : w.Takes false b) :
    b.binding.length ≤ (a.kind.outer b.kind).fields := by
  have hle := hb.2.resolve_left Bool.false_ne_true
  have hwithin := hb.1.within
  have hka := ha.1.kind
  have hkb := hb.1.kind
  simp only [Kind.fields, Kind.outer_depth] at hwithin ⊢
  omega

theorem outcome?_of_unknown {w a b : Metadata} (ha : w.Takes false a) (hb : w.Takes false b)
    (h : a.binding = []) :
    (a.join b).outcome? = some (⟨a.kind.outer b.kind, b.binding⟩, 0) := by
  rw [join, common?_of_unknown b h, List.take_of_length_le (ha.length_le_outer hb), h]
  simp

theorem exists_free_join {w a b : Metadata} (ha : w.Takes false a) (hb : w.Takes false b) :
    ∃ z, (a.join b).outcome? = some (z, 0) ∧ w.Takes false z := by
  obtain hnil | hpath := ha.binding_of_free
  · exact ⟨_, outcome?_of_unknown ha hb hnil, ha.outer hb⟩
  · obtain hnil' | hpath' := hb.binding_of_free
    · rw [join_comm]
      exact ⟨_, outcome?_of_unknown hb ha hnil', hb.outer ha⟩
    · by_cases hw : w.binding = []
      · exact ⟨_, outcome?_of_unknown ha hb (hpath.trans hw), ha.outer hb⟩
      · -- both are bound like `w`, so that only the kinds differ
        refine ⟨_, ?_, ha.outer hb⟩
        have heq : a.binding = b.binding := hpath.trans hpath'.symm
        have hb' : b.binding ≠ [] := hpath' ▸ hw
        have hkind : sharedKind a b = a.kind.outer b.kind := by
          rw [sharedKind_eq_cut, heq, Binding.not_diverge_of_prefix List.prefix_rfl]
          rfl
        rw [join, common?_of_bound (heq ▸ hb') hb', hkind, heq,
          Binding.shared_of_prefix List.prefix_rfl, if_neg hb',
          List.take_of_length_le (ha.length_le_outer hb)]
        simp

end Metadata

/-! ## Atoms and tuples -/

theorem Atom.outcome?_join_metadata {a b z : Metadata} {n : Nat}
    (h : (a.join b).outcome? = some (z, n)) :
    ((metadata a).join (metadata b)).outcome? = some (metadata z, n) :=
  Attempt.outcome?_map_eq_some_iff.2 ⟨z, h, rfl⟩

theorem Atom.exists_free_join {w a b : Atom} (ha : w.Takes false a) (hb : w.Takes false b) :
    ∃ z, (a.join b).outcome? = some (z, 0) ∧ w.Takes false z := by
  cases ha with
  | null =>
    cases hb
    exact ⟨null, rfl, .null⟩
  | scalar_null s =>
    cases hb with
    | scalar_null => exact ⟨null, rfl, .scalar_null s⟩
    | scalars hb => exact ⟨_, rfl, .scalars hb⟩
    | generic_member _ hpay => cases hpay
  | scalars ha =>
    cases hb with
    | scalar_null => exact ⟨_, rfl, .scalars ha⟩
    | scalars hb =>
      obtain rfl := ha.resolve_right fun h => Bool.false_ne_true h.1
      obtain rfl := hb.resolve_right fun h => Bool.false_ne_true h.1
      refine ⟨_, ?_, .scalars (.inl rfl)⟩
      rw [join, Scalar.join_self]
      rfl
    | generic_member _ hpay => cases hpay
  | metadata ha =>
    cases hb with
    | metadata hb =>
      obtain ⟨z, hz, hw⟩ := Metadata.exists_free_join ha hb
      exact ⟨.metadata z, outcome?_join_metadata hz, .metadata hw⟩
  | generic_member _ hpay => cases hpay

theorem exists_free_join_positions {ws xs ys : List Atom}
    (hx : List.Forall₂ (Atom.Takes false) ws xs) (hy : List.Forall₂ (Atom.Takes false) ws ys) :
    ∃ zs, (joinTuples xs ys).outcome? = some (zs, 0) ∧ List.Forall₂ (Atom.Takes false) ws zs := by
  rw [joinTuples_eq, if_pos (hx.length_eq.symm.trans hy.length_eq)]
  induction hx generalizing ys with
  | nil =>
    cases hy
    exact ⟨[], rfl, .nil⟩
  | cons hx _ ih =>
    cases hy with
    | cons hy hys =>
      obtain ⟨z, hz, hw⟩ := Atom.exists_free_join hx hy
      obtain ⟨zs, hzs, hws⟩ := ih hys
      exact ⟨z :: zs, joinPositions_cons_outcome hz hzs, .cons hw hws⟩

/-! ## Items -/

namespace Item

/-- A member and a tuple of one member are unified as members. -/
theorem exists_free_join_singleton {b q : Binding} {a : Atom}
    (ha : Atom.Takes false (.metadata ⟨.member, b⟩) a)
    (hq : Metadata.Takes false ⟨.member, b⟩ ⟨.member, q⟩) :
    ∃ z, ((atom a).join (tuple [.metadata ⟨.member, q⟩])).outcome? = some (z, 0) ∧
      (member b).Takes false z := by
  cases ha with
  | @metadata _ p hp =>
    obtain ⟨j, p⟩ := p
    cases hp.kind_eq_member rfl
    obtain ⟨⟨k, r⟩, hz, hr⟩ := Metadata.exists_free_join hp hq
    cases hr.kind_eq_member rfl
    have hu : unwrap? p [.metadata ⟨.member, q⟩] = some (⟨.member, r⟩, 0) :=
      unwrap?_eq_some_iff.2 ⟨rfl, _, rfl, Atom.outcome?_join_metadata hz⟩
    refine ⟨member r, ?_, .atoms (.metadata hr)⟩
    rw [join_member_tuple, joinMemberTuple_eq, hu, Attempt.outcome?_paying]

theorem exists_free_join_singletons {b p q : Binding}
    (hp : Metadata.Takes false ⟨.member, b⟩ ⟨.member, p⟩)
    (hq : Metadata.Takes false ⟨.member, b⟩ ⟨.member, q⟩) :
    ∃ z, ((tuple [.metadata ⟨.member, p⟩]).join (tuple [.metadata ⟨.member, q⟩])).outcome? =
        some (z, 0) ∧ (member b).Takes false z := by
  obtain ⟨zs, hzs, hws⟩ :=
    exists_free_join_positions (.cons (.metadata hp) .nil) (.cons (.metadata hq) .nil)
  cases hws with
  | cons hz hnil =>
    cases hnil
    cases hz with
    | @metadata _ r hr =>
      obtain ⟨k, r⟩ := r
      cases hr.kind_eq_member rfl
      exact ⟨_, Attempt.outcome?_map_eq_some_iff.2 ⟨_, hzs, rfl⟩, .member_singleton hr⟩

/-- What is taken in for free makes no difference to what takes it in. -/
theorem outcome?_of_takes_free {w x : Item} (h : w.Takes false x) :
    (w.join x).outcome? = some (w, 0) := by
  obtain ⟨n, ho, hn⟩ := Attempt.result_allowing_eq_some_iff.1 (takes_iff.2 h)
  rwa [hn.resolve_left Bool.false_ne_true] at ho

theorem exists_free_join {w x y : Item} (hx : w.Takes false x) (hy : w.Takes false y) :
    ∃ z, (x.join y).outcome? = some (z, 0) ∧ w.Takes false z := by
  cases hx with
  | atoms ha =>
    cases hy with
    | atoms hb =>
      obtain ⟨z, hz, hw⟩ := Atom.exists_free_join ha hb
      rw [join_atoms]
      exact ⟨atom z, Attempt.outcome?_map_eq_some_iff.2 ⟨z, hz, rfl⟩, .atoms hw⟩
    | member_singleton hq => exact exists_free_join_singleton ha hq
    | generic_tuple _ hpay => cases hpay
  | tuples hxs =>
    cases hy with
    | tuples hys =>
      obtain ⟨zs, hzs, hws⟩ := exists_free_join_positions hxs hys
      exact ⟨tuple zs, Attempt.outcome?_map_eq_some_iff.2 ⟨zs, hzs, rfl⟩, .tuples hws⟩
  | member_singleton hp =>
    cases hy with
    | atoms hb =>
      rw [join_comm]
      exact exists_free_join_singleton hb hp
    | member_singleton hq => exact exists_free_join_singletons hp hq
  | generic_tuple _ hpay => cases hpay
  | amorphous_null ds =>
    cases hy with
    | amorphous_null => exact ⟨atom .null, rfl, .amorphous_null ds⟩
    | amorphous hself hds hsub hpay =>
      obtain rfl := hpay.resolve_left Bool.false_ne_true
      exact ⟨amorphous ds, rfl, .amorphous hself hds hsub hpay⟩
  | amorphous hself hds hsub hpay =>
    obtain rfl := hpay.resolve_left Bool.false_ne_true
    exact ⟨_, outcome?_of_takes_free hy, .amorphous hself hds hsub hpay⟩

/-- A member and a tuple that share no structure are not unified for free. -/
theorem joinMemberTuple_free_iff {m : Binding} {t : List Atom} {note : Note} {i z : Item} :
    (joinMemberTuple m t (.noting note i)).outcome? = some (z, 0) ↔
      ∃ b, unwrap? m t = some (⟨.member, b⟩, 0) ∧ member b = z := by
  obtain ⟨b, n, hu, hj⟩ | ⟨hu, hj⟩ := joinMemberTuple_cases m t (.noting note i)
  · rw [hj, hu]
    simp [and_comm]
  · rw [hj, hu]
    simp

/-- Elements of sets are unified for free just as items are. -/
theorem joinElements_free_iff {x y z : Item} :
    (x.joinElements y).outcome? = some (z, 0) ↔ (x.join y).outcome? = some (z, 0) := by
  obtain ⟨m, t, rfl, rfl⟩ | ⟨m, t, rfl, rfl⟩ | hxy := joinElements_cases x y
  · rw [joinElements_member_tuple, join_member_tuple, joinMemberTuple_free_iff,
      joinMemberTuple_free_iff]
  · rw [joinElements_tuple_member, join_tuple_atom, joinElements_member_tuple, join_member_tuple,
      joinMemberTuple_free_iff, joinMemberTuple_free_iff]
  · rw [hxy]

/-- Below a type around members there is a member type that takes in the same items, as far as they
are not around members themselves. -/
theorem exists_member_below {z : Item} (hz : z.isCoarse = true) :
    ∃ p, ¬(member p).Takes false z ∧
      ∀ x : Item, z.Takes false x → x.isCoarse = false → (member p).Takes false x := by
  unfold Item.isCoarse at hz
  split at hz
  · rename_i m
    refine ⟨m.binding, ?_, fun x hx hxc => ?_⟩
    · rintro (h | _)
      cases h with
      | metadata h => exact of_decide_eq_true hz (h.kind_eq_member rfl)
    · cases hx with
      | atoms h =>
        cases h with
        | @metadata _ a h =>
          have ha : a.kind = .member := by simpa [Item.isCoarse] using hxc
          refine .atoms (.metadata ⟨⟨?_, ?_, h.1.path⟩, h.2⟩)
          · exact Nat.le_of_eq (congrArg Kind.depth ha.symm)
          · have hwithin := h.1.within
            have hdepth := m.kind.depth_le_three
            simp only [Kind.fields, Kind.depth] at hwithin hdepth ⊢
            omega
      | member_singleton h => exact .member_singleton h
  · cases hz

end Item

/-! ## Types -/

namespace Ty

theorem exists_free_join {w a b : Ty} (ha : w.Takes false a) (hb : w.Takes false b) :
    ∃ z, (a.join b).outcome? = some (z, 0) ∧ w.Takes false z := by
  cases ha with
  | item ha =>
    cases hb with
    | item hb =>
      obtain ⟨z, hz, hw⟩ := Item.exists_free_join ha hb
      exact ⟨item z, Attempt.outcome?_map_eq_some_iff.2 ⟨z, hz, rfl⟩, .item hw⟩
  | set ha =>
    cases hb with
    | set hb =>
      obtain ⟨z, hz, hw⟩ := Item.exists_free_join ha hb
      have hz' := Item.joinElements_free_iff.2 hz
      exact ⟨set z, Attempt.outcome?_map_eq_some_iff.2 ⟨z, hz', rfl⟩, .set hw⟩
  | cube r =>
    cases hb
    refine ⟨cube r, ?_, .cube r⟩
    rw [join_cubes, if_pos rfl, Attempt.outcome?_free]

/-! ## Lists -/

theorem Takes.antisymm {conversions : Bool} {a b : Ty} (hab : a.Takes conversions b)
    (hba : b.Takes conversions a) : a = b := by
  have ha := takes_iff.2 hab
  have hb := takes_iff.2 hba
  rw [join_comm, ha] at hb
  exact Option.some.inj hb

/-- Types that some type takes in for free are unified for free, below that type. -/
theorem joinFrom_of_takes {w t : Ty} {us : List Ty} (ht : w.Takes false t)
    (hus : ∀ u ∈ us, w.Takes false u) :
    ∃ r, (joinFrom false t us).result = some r ∧ w.Takes false r := by
  induction us generalizing t with
  | nil => exact ⟨t, rfl, ht⟩
  | cons u us ih =>
    obtain ⟨hu, hus⟩ := List.forall_mem_cons.1 hus
    obtain ⟨z, hz, hw⟩ := exists_free_join ht hu
    obtain ⟨r, hr, hwr⟩ := ih hw hus
    exact ⟨r, joinFrom_cons_result.2 ⟨z, Attempt.result_allowing_of_free hz, hr⟩, hwr⟩

theorem joinAll_of_takes {w : Ty} {ts : List Ty} (hne : ts ≠ []) (hts : ∀ t ∈ ts, w.Takes false t) :
    ∃ r, (joinAll false ts).result = some r ∧ w.Takes false r := by
  cases ts with
  | nil => exact absurd rfl hne
  | cons t ts =>
    obtain ⟨ht, hts⟩ := List.forall_mem_cons.1 hts
    exact joinFrom_of_takes ht hts

theorem exists_member_below {z : Ty} (hz : z.isCoarse = true) :
    ∃ w : Ty, ¬w.Takes false z ∧
      ∀ x : Ty, z.Takes false x → x.isCoarse = false → w.Takes false x := by
  cases z with
  | item z =>
    obtain ⟨p, hp, hbelow⟩ := Item.exists_member_below hz
    refine ⟨item (.member p), fun h => hp (lift_item_iff.1 h), ?_⟩
    rintro _ (h | _) hx
    exact .item (hbelow _ h hx)
  | set z =>
    obtain ⟨p, hp, hbelow⟩ := Item.exists_member_below hz
    refine ⟨set (.member p), fun h => hp (lift_set_iff.1 h), ?_⟩
    rintro _ (_ | h) hx
    exact .set (hbelow _ h hx)
  | cube r => cases hz

/-- A type around members does not come of unifying others for free. -/
theorem not_isCoarse_of_free_join {c : Catalog} {a b z : Ty} (ha : a.WellFormed c)
    (hb : b.WellFormed c) (h : ((a.join b).allowing false).result = some z)
    (hac : a.isCoarse = false) (hbc : b.isCoarse = false) : z.isCoarse = false := by
  rw [← Bool.not_eq_true]
  intro hz
  -- the member type below `z` takes in both sides, so it would have to take in `z`
  obtain ⟨hza, hzb⟩ := takes_operands ha hb h
  obtain ⟨w, hwz, hw⟩ := exists_member_below hz
  obtain ⟨z', hz', hwz'⟩ := exists_free_join (hw a hza hac) (hw b hzb hbc)
  rw [Attempt.result_allowing_of_free hz'] at h
  cases h
  exact hwz hwz'

theorem not_isCoarse_of_joinFrom {c : Catalog} {t r : Ty} {us : List Ty} (ht : t.WellFormed c)
    (hus : ∀ u ∈ us, u.WellFormed c) (h : (joinFrom false t us).result = some r)
    (htc : t.isCoarse = false) (husc : ∀ u ∈ us, u.isCoarse = false) : r.isCoarse = false := by
  induction us generalizing t with
  | nil =>
    cases h
    exact htc
  | cons u us ih =>
    obtain ⟨j, hj, hr⟩ := joinFrom_cons_result.1 h
    obtain ⟨hu, hus⟩ := List.forall_mem_cons.1 hus
    obtain ⟨huc, husc⟩ := List.forall_mem_cons.1 husc
    exact ih (wellFormed_join ht hu (result_of_allowing hj)) hus hr
      (not_isCoarse_of_free_join ht hu hj htc huc) husc

theorem not_isCoarse_of_joinAll {c : Catalog} {ts : List Ty} {r : Ty}
    (hts : ∀ t ∈ ts, t.WellFormed c) (h : (joinAll false ts).result = some r)
    (htsc : ∀ t ∈ ts, t.isCoarse = false) : r.isCoarse = false := by
  cases ts with
  | nil => cases h
  | cons t ts =>
    obtain ⟨ht, hts⟩ := List.forall_mem_cons.1 hts
    obtain ⟨htc, htsc⟩ := List.forall_mem_cons.1 htsc
    exact not_isCoarse_of_joinFrom ht hts h htc htsc

/-- Where nothing is paid for, only one of the exceptions to transitivity is left. -/
theorem Over.takes_or_exception {r t : Ty} (h : r.Over false t) :
    r.Takes false t ∨ t.isSingleton = true ∧ r.isCoarse = true := by
  cases h with
  | item h =>
    obtain h | h | ⟨hpay, -⟩ := h
    · exact .inl (.item h)
    · exact .inr h
    · cases hpay
  | set h =>
    obtain h | h | ⟨hpay, -⟩ := h
    · exact .inl (.set h)
    · exact .inr h
    · cases hpay
  | cube r => exact .inl (.cube r)

/-- A list holds no tuples of one position or no types around members. -/
def Separate (ts : List Ty) : Prop :=
  (∀ t ∈ ts, t.isSingleton = false) ∨ ∀ t ∈ ts, t.isCoarse = false

theorem Separate.perm {ts us : List Ty} (h : Separate ts) (hperm : us.Perm ts) : Separate us :=
  h.imp (fun h u hu => h u (hperm.mem_iff.1 hu)) fun h u hu => h u (hperm.mem_iff.1 hu)

/-- What unification without conversions finds takes in every entry for free. -/
theorem takes_of_joinAll {c : Catalog} {ts : List Ty} {r : Ty} (hts : ∀ t ∈ ts, t.WellFormed c)
    (hsep : Separate ts) (h : (joinAll false ts).result = some r) : ∀ t ∈ ts, r.Takes false t := by
  intro t ht
  obtain htakes | ⟨hs, hc⟩ := (joinAll_over hts h t ht).takes_or_exception
  · exact htakes
  · obtain hsep | hsep := hsep
    · rw [hsep t ht] at hs
      cases hs
    · rw [not_isCoarse_of_joinAll hts h hsep] at hc
      cases hc

/-- The least of the types that take in all entries of a list for free. -/
structure Least (ts : List Ty) (r : Ty) : Prop where
  takes : ∀ t ∈ ts, r.Takes false t
  below : ∀ w : Ty, (∀ t ∈ ts, w.Takes false t) → w.Takes false r

theorem joinAll_free_iff {c : Catalog} {ts : List Ty} {r : Ty} (hts : ∀ t ∈ ts, t.WellFormed c)
    (hsep : Separate ts) :
    (joinAll false ts).result = some r ↔ ts ≠ [] ∧ Least ts r := by
  constructor
  · intro h
    have hne : ts ≠ [] := by
      rintro rfl
      cases h
    refine ⟨hne, takes_of_joinAll hts hsep h, fun w hw => ?_⟩
    obtain ⟨r', hr', hwr⟩ := joinAll_of_takes hne hw
    rw [h] at hr'
    cases hr'
    exact hwr
  · rintro ⟨hne, hleast⟩
    obtain ⟨r', hr', hrr'⟩ := joinAll_of_takes hne hleast.takes
    have hr'r := hleast.below r' (takes_of_joinAll hts hsep hr')
    rw [hr', hrr'.antisymm hr'r]

theorem Least.perm {ts us : List Ty} {r : Ty} (h : Least ts r) (hperm : us.Perm ts) :
    Least us r := by
  refine ⟨fun u hu => h.takes u (hperm.mem_iff.1 hu), fun w hw => ?_⟩
  exact h.below w fun t ht => hw t (hperm.mem_iff.2 ht)

theorem result_joinAll_perm {c : Catalog} {ts us : List Ty} (hts : ∀ t ∈ ts, t.WellFormed c)
    (hsep : Separate ts) (hperm : us.Perm ts) :
    (joinAll false us).result = (joinAll false ts).result := by
  have hus : ∀ u ∈ us, u.WellFormed c := fun u hu => hts u (hperm.mem_iff.1 hu)
  apply Option.ext
  intro r
  rw [joinAll_free_iff hus (hsep.perm hperm), joinAll_free_iff hts hsep]
  constructor
  · rintro ⟨hne, hleast⟩
    exact ⟨fun hnil => hne (hnil ▸ hperm).eq_nil, hleast.perm hperm.symm⟩
  · rintro ⟨hne, hleast⟩
    exact ⟨fun hnil => hne (hnil ▸ hperm.symm).eq_nil, hleast.perm hperm⟩

/-! ## Conversions that are not needed -/

theorem outcome?_joinFrom_free {t r : Ty} {us : List Ty} {n : Nat} :
    (joinFrom false t us).outcome? = some (r, n) ↔
      (joinFrom true t us).outcome? = some (r, n) ∧ n = 0 := by
  induction us generalizing t n with
  | nil =>
    simp only [joinFrom_nil, Attempt.outcome?_free]
    constructor
    · intro h
      cases h
      exact ⟨rfl, rfl⟩
    · exact And.left
  | cons u us ih =>
    simp only [joinFrom_cons, Attempt.outcome?_bind_eq_some_iff,
      Attempt.outcome?_allowing_eq_some_iff, ih]
    constructor
    · rintro ⟨j, k, l, ⟨hj, hk⟩, ⟨hr, rfl⟩, rfl⟩
      obtain rfl := hk.resolve_left Bool.false_ne_true
      exact ⟨⟨j, 0, 0, ⟨hj, .inl trivial⟩, hr, rfl⟩, rfl⟩
    · rintro ⟨⟨j, k, l, ⟨hj, -⟩, hr, rfl⟩, hn⟩
      obtain ⟨rfl, rfl⟩ : k = 0 ∧ l = 0 := by omega
      exact ⟨j, 0, 0, ⟨hj, .inr rfl⟩, ⟨hr, rfl⟩, rfl⟩

theorem outcome?_joinAll_free {ts : List Ty} {r : Ty} {n : Nat} :
    (joinAll false ts).outcome? = some (r, n) ↔
      (joinAll true ts).outcome? = some (r, n) ∧ n = 0 := by
  cases ts with
  | nil =>
    refine iff_of_false (fun h => ?_) fun h => ?_
    · cases h
    · cases h.1
  | cons t ts => exact outcome?_joinFrom_free

theorem outcome?_joinAll_eq_map (ts : List Ty) :
    (joinAll false ts).outcome? = (joinAll false ts).result.map (·, 0) := by
  cases h : (joinAll false ts).result with
  | none =>
    rw [Attempt.outcome?, h]
    rfl
  | some r =>
    have ho := Attempt.outcome?_eq_some_iff.2 ⟨h, rfl⟩
    rw [ho, (outcome?_joinAll_free.1 ho).2]
    rfl

/-- Unification without conversions succeeds just where unification with conversions needs none,
with the same result.  For lists that do not hold both tuples of one position and types around
members, its outcome does not depend on the order of the list. -/
theorem free_unification_ignores_order (c : Catalog) (ts : List Ty) :
    (∀ outcome, (joinAll false ts).outcome? = some outcome ↔
      (joinAll true ts).outcome? = some outcome ∧ outcome.2 = 0) ∧
    ((∀ t ∈ ts, t.WellFormed c) →
      ¬((∃ t ∈ ts, t.isSingleton = true) ∧ ∃ t ∈ ts, t.isCoarse = true) →
      ∀ us : List Ty, us.Perm ts → (joinAll false us).outcome? = (joinAll false ts).outcome?) := by
  refine ⟨fun outcome => outcome?_joinAll_free, fun hts hmixed us hperm => ?_⟩
  have hsep : Separate ts := by
    simpa [Separate, or_iff_not_imp_left] using hmixed
  rw [outcome?_joinAll_eq_map, outcome?_joinAll_eq_map, result_joinAll_perm hts hsep hperm]

/-- A tuple of an unknown member, an unknown member and a city have a common type for free in every
order. -/
theorem free_unification_ignores_order_of_members :
    let tuple : Ty := .tuple [.metadata ⟨.member, []⟩]
    let member : Ty := .metadata ⟨.member, []⟩
    let city : Ty := .metadata ⟨.member, [⟨0, 0⟩, ⟨0, 0⟩, ⟨0, 0⟩, ⟨0, 1⟩]⟩
    let ts : List Ty := [tuple, member, city]
    Catalog.retail.Built ∧ (∀ t ∈ ts, t.WellFormed .retail) ∧
      ¬((∃ t ∈ ts, t.isSingleton = true) ∧ ∃ t ∈ ts, t.isCoarse = true) ∧
      (joinAll true ts).outcome? = some (city, 0) ∧
      ∀ us : List Ty, us.Perm ts → (joinAll false us).outcome? = some (city, 0) := by
  intro tuple member city ts
  have hwf : ∀ t ∈ ts, t.WellFormed .retail := by decide
  have hsep : ¬((∃ t ∈ ts, t.isSingleton = true) ∧ ∃ t ∈ ts, t.isCoarse = true) := by decide
  have hfree : (joinAll true ts).outcome? = some (city, 0) := by decide
  obtain ⟨free_iff, ordered⟩ := free_unification_ignores_order .retail ts
  refine ⟨Catalog.retail_built, hwf, hsep, hfree, fun us hperm => ?_⟩
  rw [ordered hwf hsep us hperm]
  exact (free_iff (city, 0)).2 ⟨hfree, rfl⟩

-- With a tuple of one position and a level, the order does matter.
example :
    let tuple : Ty := .tuple [.metadata ⟨.member, []⟩]
    let member : Ty := .metadata ⟨.member, []⟩
    let level : Ty := .metadata ⟨.level, []⟩
    (joinAll false [tuple, member, level]).result = some level ∧
      (joinAll false [tuple, level, member]).result = none := by
  decide

end Ty

end Hypercube
