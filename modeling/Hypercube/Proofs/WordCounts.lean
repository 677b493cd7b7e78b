import Hypercube.Proofs.ConversionBounds

/-!
# Conversions counted in words

Conversions are counted in natural numbers.  Here unification is carried out with counts that are
words: every addition has to stay in the range of words, and there is no answer if one does not.  A
count that is thrown away counts as well, such as that of a tuple that turns out not to be
the member next to it.  Up to more than a thousand million positions, every addition stays in the
range, and the answers are those of unification.

* `Tally` — unification with a count that is a word.
* `Tally.Counts` — a tally answers as an attempt does, unless the count leaves the range.
* `Ty.tally`, `Ty.counts_join` — unification of two types.
* `Ty.tallyAll`, `Ty.outcome?_tallyAll` — unification of a list, where each type is first counted
  apart.
* `Ty.conversions_linear_in_arity` — the bounds on the counts, and that words suffice.
-/

set_option autoImplicit false

namespace Hypercube

variable {α β : Type}

/-! ## Counts -/

/-- A count with further conversions, if it stays in the range. -/
def raise? (n : UInt32) (k : Nat) : Option UInt32 :=
  if n.toNat + k < UInt32.size then some (.ofNat (n.toNat + k)) else none

theorem raise?_eq_some_iff {n w : UInt32} {k : Nat} :
    raise? n k = some w ↔ w.toNat = n.toNat + k := by
  have hw : w.toNat < UInt32.size := w.toNat_lt
  unfold raise?
  split
  · rename_i h
    rw [Option.some.injEq, ← UInt32.toNat_inj, UInt32.toNat_ofNat_of_lt' h]
    exact eq_comm
  · rename_i h
    simp only [reduceCtorEq, false_iff]
    omega

theorem exists_raise? {n : UInt32} {k : Nat} (h : n.toNat + k < UInt32.size) :
    ∃ w, raise? n k = some w :=
  ⟨.ofNat (n.toNat + k), raise?_eq_some_iff.2 (UInt32.toNat_ofNat_of_lt' h)⟩

theorem exists_raise?_zero {k : Nat} (h : k < UInt32.size) :
    ∃ w, raise? 0 k = some w ∧ w.toNat = k := by
  have hzero : (0 : UInt32).toNat + k = k := Nat.zero_add k
  obtain ⟨w, hw⟩ := exists_raise? (n := 0) (hzero ▸ h)
  exact ⟨w, hw, (raise?_eq_some_iff.1 hw).trans hzero⟩

theorem raise?_zero (n : UInt32) : raise? n 0 = some n :=
  raise?_eq_some_iff.2 rfl

/-- If a part of the count leaves the range, so does the whole. -/
theorem raise?_add (n : UInt32) (j k : Nat) :
    raise? n (j + k) = (raise? n j).bind (raise? · k) := by
  apply Option.ext
  intro w
  simp only [Option.bind_eq_some_iff, raise?_eq_some_iff]
  constructor
  · intro hw
    have hword : w.toNat < UInt32.size := w.toNat_lt
    obtain ⟨m, hm⟩ := exists_raise? (n := n) (k := j) (by omega)
    rw [raise?_eq_some_iff] at hm
    exact ⟨m, hm, by omega⟩
  · rintro ⟨m, hm, hw⟩
    omega

/-- Unification with a count that is a word.  Nothing is left after an addition that leaves the
range; the count survives a failure. -/
abbrev Tally := OptionT (StateT UInt32 Option)

namespace Tally

/-- The result on a given count, and the count after it, unless an addition left the range. -/
def on (x : Tally α) (n : UInt32) : Option (Option α × UInt32) :=
  (OptionT.run x).run n

/-- The result with its conversions, counted from zero. -/
def outcome? (x : Tally α) : Option (Option (α × Nat)) :=
  (x.on 0).map fun (result, n) => result.map (·, n.toNat)

/-- Add to the count. -/
def charge (k : Nat) : Tally Unit :=
  OptionT.mk fun n => (raise? n k).map (some (), ·)

/-- An attempt whose conversions are added in one go. -/
def book (y : Attempt α) : Tally α := do
  charge y.conversions
  OptionT.mk (pure y.result)

/-- Count apart, from zero.  The result comes with the count, which is not added. -/
def apart (x : Tally α) : Tally (Option α × UInt32) :=
  OptionT.mk fun n => (x.on 0).map (some ·, n)

/-- Count apart, and add the count if the result is good for something at that price. -/
def spend (x : Tally α) (use : α → Nat → Option β) : Tally β := do
  let (result, count) ← apart x
  match result.bind (use · count.toNat) with
  | some b => do
    charge count.toNat
    return b
  | none => failure

instance : Counting Tally where
  book := book
  allowing conversions x := x.spend fun a n => if conversions = true ∨ n = 0 then some a else none
  trial x use fallback := x.spend (fun a _ => use a) <|> fallback

theorem on_mk (f : UInt32 → Option (Option α × UInt32)) (n : UInt32) :
    Tally.on (OptionT.mk f) n = f n := rfl

theorem on_pure (a : α) (n : UInt32) : (pure a : Tally α).on n = some (some a, n) := rfl

theorem on_failure (n : UInt32) : (failure : Tally α).on n = some (none, n) := rfl

theorem on_bind (x : Tally α) (f : α → Tally β) (n : UInt32) :
    (x >>= f).on n =
      match x.on n with
      | some (some a, n') => (f a).on n'
      | some (none, n') => some (none, n')
      | none => none := by
  unfold on
  rw [OptionT.run_bind, Option.elimM, StateT.run_bind]
  rcases (OptionT.run x).run n with _ | ⟨r, n'⟩
  · rfl
  · cases r <;> rfl

/-- What failed is replaced, and what it counted stays counted. -/
theorem on_orElse (x y : Tally α) (n : UInt32) :
    (x <|> y).on n =
      match x.on n with
      | some (some a, n') => some (some a, n')
      | some (none, n') => y.on n'
      | none => none := by
  unfold on
  rw [OptionT.run_orElse, Option.elimM, StateT.run_bind]
  rcases (OptionT.run x).run n with _ | ⟨r, n'⟩
  · rfl
  · cases r <;> rfl

theorem on_charge (k : Nat) (n : UInt32) :
    (charge k).on n = (raise? n k).map (some (), ·) := by
  rw [charge, on_mk]

theorem on_book (y : Attempt α) (n : UInt32) :
    (book y).on n = (raise? n y.conversions).map (y.result, ·) := by
  rw [book, on_bind, on_charge]
  cases raise? n y.conversions with
  | none => rfl
  | some n' => rfl

theorem on_apart (x : Tally α) (n : UInt32) : (apart x).on n = (x.on 0).map (some ·, n) := by
  rw [apart, on_mk]

end Tally

namespace Ty

/-- Unify two types, counting in words. -/
def tally (a b : Ty) : Tally Ty :=
  a.joinM b

/-- Unify a list of types from the left; `conversions` says whether they are allowed. -/
def tallyAll (conversions : Bool) (ts : List Ty) : Tally Ty :=
  joinAllM conversions ts

end Ty

/-! ## Counting an attempt -/

/-- A result is kept if it is allowed. -/
theorem Attempt.result_allowing (conversions : Bool) (y : Attempt α) :
    (y.allowing conversions).result =
      y.result.bind fun a => if conversions = true ∨ y.conversions = 0 then some a else none := by
  unfold allowing
  split
  · cases y.result <;> rfl
  · cases y.result <;> rfl

namespace Tally

/-- A tally has no answer on a count that leaves the range with the conversions of an attempt.  On
every other count it has the result of the attempt and has added its conversions. -/
def Counts (x : Tally α) (y : Attempt α) : Prop :=
  ∀ n, x.on n = (raise? n y.conversions).map (y.result, ·)

namespace Counts

variable {x : Tally α} {y : Attempt α} {f : α → Tally β} {g : α → Attempt β}

theorem book (y : Attempt α) : (Tally.book y).Counts y :=
  on_book y

theorem pure (a : α) : (Pure.pure a : Tally α).Counts (.free a) := by
  intro n
  rw [on_pure, Attempt.free, raise?_zero, Option.map_some]

theorem refuse : (failure : Tally α).Counts .refuse := by
  intro n
  rw [on_failure, Attempt.refuse, raise?_zero, Option.map_some]

theorem bind (hx : x.Counts y) (hf : ∀ a, (f a).Counts (g a)) : (x >>= f).Counts (y >>= g) := by
  intro n
  rw [on_bind, hx n, Attempt.result_bind, Attempt.conversions_bind, raise?_add]
  cases raise? n y.conversions with
  | none => rfl
  | some n' =>
    cases y.result with
    | none =>
      simp only [Option.map_some, Option.bind_some, Option.elim_none, raise?_zero, Option.bind_none]
    | some a => exact hf a n'

theorem map (h : α → β) (hx : x.Counts y) : (h <$> x).Counts (y.map h) := by
  intro n
  rw [← bind_pure_comp, on_bind, hx n, Attempt.conversions_map, Attempt.result_map]
  cases raise? n y.conversions with
  | none => rfl
  | some n' => cases y.result <;> rfl

theorem orElse_of_paying {x' : Tally α} {k : Nat} {a : α} (hx : x.Counts (.paying k a)) :
    (x <|> x').Counts (.paying k a) := by
  intro n
  rw [on_orElse, hx n]
  cases raise? n (Attempt.paying k a).conversions with
  | none => rfl
  | some n' => rfl

theorem orElse_of_refuse {x' : Tally α} (hx : x.Counts .refuse) (hx' : x'.Counts y) :
    (x <|> x').Counts y := by
  intro n
  rw [on_orElse, hx n, Attempt.refuse, raise?_zero]
  exact hx' n

/-- From zero, an attempt that stays in the range has the outcome that it has without words. -/
theorem outcome? (hx : x.Counts y) (hy : y.conversions < UInt32.size) :
    x.outcome? = some y.outcome? := by
  obtain ⟨n, hraise, hn⟩ := exists_raise?_zero hy
  rw [Tally.outcome?, hx 0, hraise, Attempt.outcome?, ← hn]
  rfl

/-- Counted apart, an attempt that stays in the range is as good as before, and its conversions are
added if it is used. -/
theorem spend (hx : x.Counts y) (hy : y.conversions < UInt32.size) (use : α → Nat → Option β) :
    (x.spend use).Counts
      (match y.result.bind (use · y.conversions) with
      | some b => .paying y.conversions b
      | none => .refuse) := by
  obtain ⟨count, hraise, hcount⟩ := exists_raise?_zero hy
  intro n
  rw [Tally.spend, on_bind, on_apart, hx 0, hraise]
  simp only [Option.map_some, hcount]
  cases y.result.bind (use · y.conversions) with
  | none => exact refuse n
  | some b =>
    simp only [Attempt.paying]
    rw [on_bind, on_charge]
    cases raise? n y.conversions with
    | none => rfl
    | some n' => rfl

theorem trial (hx : x.Counts y) (hy : y.conversions < UInt32.size) (use : α → Option β)
    {z : Tally β} {fallback : Attempt β} (hz : z.Counts fallback) :
    (Counting.trial x use z).Counts (y.trial use fallback) := by
  have hspend := hx.spend hy fun a _ => use a
  unfold Attempt.trial
  cases hused : y.result.bind use with
  | none =>
    rw [hused] at hspend
    exact hspend.orElse_of_refuse hz
  | some b =>
    rw [hused] at hspend
    exact hspend.orElse_of_paying

end Counts

end Tally

/-! ## Tuples -/

open Tally (Counts)

variable {c : Catalog}

theorem counts_joinPositions (xs ys : List Atom) :
    Counts (joinPositionsM xs ys) (joinPositions xs ys) := by
  induction xs generalizing ys with
  | nil => exact .pure []
  | cons x xs ih =>
    cases ys with
    | nil => exact .pure []
    | cons y ys => exact .bind (.book _) fun z => .bind (ih ys) fun zs => .pure (z :: zs)

theorem counts_joinTuples (xs ys : List Atom) :
    Counts (joinTuplesM xs ys) (joinTuples xs ys) := by
  rw [joinTuplesM, joinTuples_eq]
  split
  · exact counts_joinPositions xs ys
  · exact .book _

/-! ## Items and types -/

namespace Item

/-- What is counted for a tuple of one position is in the range, whether it is added or not. -/
theorem counts_joinMemberTuple {m : Binding} {t : List Atom} (fallback : Attempt Item)
    (hm : (member m).WellFormed c) (ht : (tuple t).WellFormed c) :
    Counts (joinMemberTupleM m t fallback) (joinMemberTuple m t fallback) := by
  rcases t with _ | ⟨only, _ | ⟨second, rest⟩⟩
  · exact .book fallback
  · have hle : ((Atom.metadata ⟨.member, m⟩).join only).conversions ≤ 3 :=
      Atom.conversions_join_le (a := .metadata ⟨.member, m⟩) hm (ht.2 only List.mem_cons_self)
    exact .trial (.book _) (Nat.lt_of_le_of_lt hle (by decide)) _ (.book fallback)
  · exact .book fallback

theorem counts_join {x y : Item} (hx : x.WellFormed c) (hy : y.WellFormed c) :
    Counts (x.joinM y) (x.join y) := by
  unfold join joinM
  split
  · exact .book _
  · exact .book _
  · exact (counts_joinTuples _ _).map tuple
  · exact counts_joinMemberTuple _ hx hy
  · exact counts_joinMemberTuple _ hy hx
  · exact .book _
  · exact .book _
  · exact (Counts.book _).map atom
  · exact .book _

theorem counts_joinElements {x y : Item} (hx : x.WellFormed c) (hy : y.WellFormed c) :
    Counts (x.joinElementsM y) (x.joinElements y) := by
  unfold joinElements joinElementsM
  split
  · exact counts_joinMemberTuple _ hx hy
  · exact counts_joinMemberTuple _ hy hx
  · exact counts_join hx hy

end Item

namespace Ty

theorem counts_join {a b : Ty} (ha : a.WellFormed c) (hb : b.WellFormed c) :
    (a.tally b).Counts (a.join b) := by
  unfold tally join joinM
  split
  · exact (Item.counts_join ha hb).map item
  · exact (Item.counts_joinElements ha hb).map set
  · split
    · exact .pure _
    · exact .book _
  · exact .book _

/-- While the count and three conversions for each further position stay in the range, a list is
unified as it is without words.  The count of a list without a common type is not looked at. -/
theorem on_joinFromM (conversions : Bool) {t : Ty} {us : List Ty} (ht : t.WellFormed c)
    (hus : ∀ u ∈ us, u.WellFormed c) {n : UInt32}
    (hn : n.toNat + 3 * (us.map arity).sum < UInt32.size) :
    ∃ n', Tally.on (joinFromM conversions t us) n = some ((joinFrom conversions t us).result, n') ∧
      ∀ z, (joinFrom conversions t us).result = some z →
        n'.toNat = n.toNat + (joinFrom conversions t us).conversions := by
  induction us generalizing t n with
  | nil => exact ⟨n, rfl, fun _ _ => rfl⟩
  | cons u us ih =>
    obtain ⟨hu, hus⟩ := List.forall_mem_cons.1 hus
    rw [List.map_cons, List.sum_cons] at hn
    -- the arity of the type so far is not known, but that of the next one bounds its count
    have hle := conversions_join_le ht hu
    have hspend := (counts_join ht hu).spend (by omega)
      fun j n => if conversions = true ∨ n = 0 then some j else none
    rw [← Attempt.result_allowing] at hspend
    rw [joinFromM, Tally.on_bind, joinFrom_cons, Attempt.result_bind,
      Attempt.conversions_bind, Attempt.conversions_allowing,
      show (Counting.allowing conversions (t.joinM u) : Tally Ty).on n = _ from hspend n]
    cases hresult : ((t.join u).allowing conversions).result with
    | none =>
      refine ⟨n, ?_, ?_⟩
      · rw [Attempt.refuse, raise?_zero]
        rfl
      · intro z hz
        cases hz
    | some j =>
      obtain ⟨m, hraise⟩ := exists_raise? (n := n) (k := (t.join u).conversions) (by omega)
      have hm := raise?_eq_some_iff.1 hraise
      obtain ⟨n', hn', hcounted⟩ :=
        ih (wellFormed_join ht hu (result_of_allowing hresult)) hus (n := m) (by omega)
      refine ⟨n', ?_, ?_⟩
      · simp only [Attempt.paying, hraise]
        exact hn'
      · intro z hz
        rw [hcounted z hz, hm, Nat.add_assoc]
        rfl

theorem outcome?_tallyAll {conversions : Bool} {ts : List Ty} (hts : ∀ t ∈ ts, t.WellFormed c)
    (h : 3 * (ts.tail.map arity).sum < UInt32.size) :
    (tallyAll conversions ts).outcome? = some (joinAll conversions ts).outcome? := by
  cases ts with
  | nil => rfl
  | cons t us =>
    obtain ⟨ht, hus⟩ := List.forall_mem_cons.1 hts
    have hzero : (0 : UInt32).toNat + 3 * (us.map arity).sum < UInt32.size :=
      (Nat.zero_add _).symm ▸ h
    obtain ⟨n, hn, hcounted⟩ := on_joinFromM conversions ht hus hzero
    rw [Tally.outcome?, tallyAll, joinAllM, hn, joinAll_cons, Attempt.outcome?]
    cases hresult : (joinFrom conversions t us).result with
    | none => rfl
    | some z =>
      have hcount : n.toNat = (joinFrom conversions t us).conversions :=
        (hcounted z hresult).trans (Nat.zero_add _)
      rw [← hcount]
      rfl

/-- Unifying two well-formed types counts at most three conversions for each position of either, and
unifying a list of them at most three for each position of every type but the first, whether or not
there is a common type.  While these bounds are in the range of words, all counts can be words: no
addition leaves the range, those before a unification is given up included, and the outcome is the
same. -/
theorem conversions_linear_in_arity (c : Catalog) :
    (∀ a b : Ty, a.WellFormed c → b.WellFormed c →
      (a.join b).conversions ≤ 3 * min a.arity b.arity ∧
      (3 * min a.arity b.arity < UInt32.size →
        (a.tally b).outcome? = some (a.join b).outcome?)) ∧
    ∀ (conversions : Bool) (ts : List Ty), (∀ t ∈ ts, t.WellFormed c) →
      (joinAll conversions ts).conversions ≤ 3 * (ts.tail.map arity).sum ∧
      (3 * (ts.tail.map arity).sum < UInt32.size →
        (tallyAll conversions ts).outcome? = some (joinAll conversions ts).outcome?) := by
  constructor
  · intro a b ha hb
    have hle := conversions_join_le ha hb
    exact ⟨hle, fun hlt => (counts_join ha hb).outcome? (Nat.lt_of_le_of_lt hle hlt)⟩
  · intro conversions ts hts
    exact ⟨conversions_joinAll_le hts, outcome?_tallyAll hts⟩

/-- Pairs of a year and a week lose three bindings in each position, as many as there can be.  If
the second position fails, those of the first have been counted.  With a member, the pairs of what
is left become a scalar, so the arity goes down on the way. -/
theorem conversions_linear_in_arity_of_calendars :
    let year : Atom := .metadata ⟨.member, [⟨0, 0⟩, ⟨0, 0⟩, ⟨0, 0⟩, ⟨0, 0⟩]⟩
    let week : Atom := .metadata ⟨.member, [⟨0, 0⟩, ⟨0, 1⟩, ⟨0, 1⟩, ⟨0, 1⟩]⟩
    let pairs : List Ty := [.tuple [year, week], .tuple [week, year], .item (.atom year)]
    (∀ t ∈ pairs, t.WellFormed .calendars) ∧
      ((Ty.tuple [year, week]).join (.tuple [week, year])).conversions = 3 * 2 ∧
      ((Ty.tuple [year, .scalar .string]).tally (.tuple [week, .scalar .boolean])).outcome? =
        some none ∧
      ((Ty.tuple [year, .scalar .string]).join (.tuple [week, .scalar .boolean])).conversions = 3 ∧
      (tallyAll true pairs).outcome? = some (some (.scalar .generic, 7)) := by
  intro year week pairs
  obtain ⟨htwo, hlist⟩ := conversions_linear_in_arity .calendars
  have hpairs : ∀ t ∈ pairs, t.WellFormed .calendars := by decide
  obtain ⟨-, hfailed⟩ := htwo (.tuple [year, .scalar .string]) (.tuple [week, .scalar .boolean])
    (by decide) (by decide)
  obtain ⟨-, hpairs'⟩ := hlist true pairs hpairs
  exact ⟨hpairs, by decide, hfailed (by decide), by decide, hpairs' (by decide)⟩

end Ty

end Hypercube
