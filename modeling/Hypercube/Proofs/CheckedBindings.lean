import Hypercube.Proofs.Algebra
import Hypercube.Ty.Render

/-!
# Choices of elements are checked from the inside out

A metadata type can be defined by any choice of elements, with or without those around the innermost
one.  What is left out is derived from the element inside it, which may have been derived itself,
and what is given is compared with the container of the element inside it, not with the innermost
one.  All the same exactly the right choices are accepted, whatever is left out in between, and the
type depends on the innermost element alone.

* `Catalog.ancestor?` — the element of a kind around another element.
* `Catalog.Consistent` — every other element chosen is around the innermost one.
* `Catalog.Misfit` — a chosen element that is not, and the element that lies directly inside of
  where it should be.
* `Catalog.Settled`, `Catalog.Built.settled_step` — what is known after each step outwards.
* `Catalog.checked_bindings_are_canonical` — which choices are accepted, the types that they define,
  and the causes for which the others are refused.
-/

set_option autoImplicit false

namespace Hypercube

variable {c : Catalog}

/-! ## Ancestors -/

namespace Catalog

/-- The element of a kind on the path to an element. -/
def ancestor? (c : Catalog) (e : Element) (k : Kind) : Option Ref :=
  (c.path? e).bind (·[k.depth]?)

theorem depth_le_of_ancestor? {e : Element} {k : Kind} {r : Ref} (h : c.ancestor? e k = some r) :
    k.depth ≤ e.kind.depth := by
  obtain ⟨b, hb, hr⟩ := Option.bind_eq_some_iff.1 h
  obtain ⟨hlen, -⟩ := linked_path hb
  have hlt := (List.getElem?_eq_some_iff.1 hr).1
  rw [hlen, Kind.fields] at hlt
  omega

/-- The next ancestor outwards is the container. -/
theorem ancestor?_outer {e : Element} {outer inner : Kind} {r : Ref}
    (hk : outer.depth + 1 = inner.depth) (h : c.ancestor? e inner = some r) :
    c.ancestor? e outer = c.container? ⟨inner, r⟩ := by
  obtain ⟨b, hb, hr⟩ := Option.bind_eq_some_iff.1 h
  obtain ⟨-, hlinked⟩ := linked_path hb
  have hinner : inner ≠ .dimension := by
    rintro rfl
    cases hk
  rw [ancestor?, hb, hlinked inner r hr hinner, ← hk]
  rfl

/-- There is a path to every element, and it ends with the element. -/
theorem Built.exists_path (hc : c.Built) {k : Kind} {r : Ref} (h : c.Has ⟨k, r⟩) :
    ∃ b, c.path? ⟨k, r⟩ = some (b ++ [r]) ∧ b.length = k.depth := by
  induction hd : k.depth generalizing k r with
  | zero =>
    obtain rfl : k = .dimension := Kind.depth_injective hd
    exact ⟨[], rfl, rfl⟩
  | succ n ih =>
    have hle := k.depth_le_three
    obtain ⟨outer, houter⟩ := Kind.exists_depth (n := n) (by omega)
    have hk : outer.depth + 1 = k.depth := by omega
    obtain ⟨q, hq, hhas⟩ := hc.container hk h
    obtain ⟨b, hb, hlen⟩ := ih hhas houter
    refine ⟨b ++ [q], ?_, ?_⟩
    · rw [path?_of_container hk hq, hb]
      rfl
    · rw [List.length_append, hlen]
      rfl

theorem Built.ancestor?_self (hc : c.Built) {k : Kind} {r : Ref} (h : c.Has ⟨k, r⟩) :
    c.ancestor? ⟨k, r⟩ k = some r := by
  obtain ⟨b, hb, hlen⟩ := hc.exists_path h
  rw [ancestor?, hb, ← hlen]
  exact List.getElem?_concat_length

theorem exists_uniqueName {e : Element} (h : c.Has e) : ∃ name, c.uniqueName? e = some name := by
  obtain ⟨k, r⟩ := e
  obtain ⟨s, hs, hi⟩ := h
  cases k with
  | dimension | hierarchy | level | member =>
    simp only [uniqueName?, hs, Option.bind_eq_bind, Option.bind_some]
    rw [Array.getElem?_eq_getElem hi]
    exact ⟨_, rfl⟩

/-- A refusal spells out the names of both elements. -/
theorem exists_message {element claimed : Element} (helement : c.Has element)
    (hclaimed : c.Has claimed) :
    ∃ inner outer, c.uniqueName? element = some inner ∧ c.uniqueName? claimed = some outer ∧
      (DefinitionError.inconsistentBinding element claimed).message c =
        "Invalid type definition: " ++ inner ++ " does not belong to " ++ outer := by
  obtain ⟨inner, hinner⟩ := exists_uniqueName helement
  obtain ⟨outer, houter⟩ := exists_uniqueName hclaimed
  refine ⟨inner, outer, hinner, houter, ?_⟩
  show "Invalid type definition: " ++ c.render element ++ " does not belong to " ++
    c.render claimed = _
  rw [render, render, hinner, houter, Option.getD_some, Option.getD_some]

end Catalog

/-! ## Consistent choices -/

namespace Choice

variable {ch : Choice}

/-- A chosen element is the innermost one if nothing inside of its kind is chosen. -/
theorem innermost?_of_at? {k : Kind} {r : Ref} (hr : ch.at? k = some r)
    (h : ∀ j : Kind, k.depth < j.depth → ch.at? j = none) : ch.innermost? = some ⟨k, r⟩ := by
  cases k with
  | member => simp [innermost?, hr]
  | level => simp [innermost?, hr, h .member (by decide)]
  | hierarchy => simp [innermost?, hr, h .member (by decide), h .level (by decide)]
  | dimension =>
    simp [innermost?, hr, h .member (by decide), h .level (by decide), h .hierarchy (by decide)]

theorem innermost?_eq_none (h : ∀ j, ch.at? j = none) : ch.innermost? = none := by
  simp [innermost?, h]

end Choice

namespace Catalog

/-- Every element chosen besides the innermost one is an ancestor of it. -/
def Consistent (c : Catalog) (ch : Choice) : Prop :=
  ∀ e ∈ ch.innermost?, ∀ j : Kind, ∀ q ∈ ch.at? j, j.depth < e.kind.depth →
    c.ancestor? e j = some q

/-- A chosen element that is not an ancestor of the innermost one, whereas everything chosen between
the two is, and the actual element directly inside of its kind. -/
structure Misfit (c : Catalog) (ch : Choice) (e claimed element : Element) : Prop where
  innermost : ch.innermost? = some e
  chosen : ch.at? claimed.kind = some claimed.ref
  outside : claimed.kind.depth < e.kind.depth
  wrong : c.ancestor? e claimed.kind ≠ some claimed.ref
  deepest : ∀ j : Kind, ∀ q, claimed.kind.depth < j.depth → j.depth < e.kind.depth →
    ch.at? j = some q → c.ancestor? e j = some q
  below : element.kind.depth = claimed.kind.depth + 1
  actual : c.ancestor? e element.kind = some element.ref

theorem Misfit.not_consistent {ch : Choice} {e claimed element : Element}
    (h : c.Misfit ch e claimed element) : ¬c.Consistent ch := by
  intro hconsistent
  exact h.wrong (hconsistent e h.innermost claimed.kind claimed.ref h.chosen h.outside)

/-! ## Checking outwards -/

/-- What is known when a choice has been checked from the inside out up to a kind.  Either nothing
is chosen so far, or everything chosen is around the innermost element, and the element of the kind
is its ancestor. -/
def Settled (c : Catalog) (ch : Choice) (k : Kind) : Option Ref → Prop
  | none => ∀ j : Kind, k.depth ≤ j.depth → ch.at? j = none
  | some r => c.Has ⟨k, r⟩ ∧ ∃ e, ch.innermost? = some e ∧ c.ancestor? e k = some r ∧
      ∀ j : Kind, ∀ q, k.depth ≤ j.depth → j.depth < e.kind.depth → ch.at? j = some q →
        c.ancestor? e j = some q

/-- A check of a choice comes to an answer with a property, or is refused because of a misfit. -/
def Concludes {α : Type} (c : Catalog) (ch : Choice) (x : Except DefinitionError α)
    (P : α → Prop) : Prop :=
  (∃ a, x = .ok a ∧ P a) ∨
    ∃ e claimed element, x = .error (.inconsistentBinding element claimed) ∧
      c.Misfit ch e claimed element ∧ c.Has element

variable {ch : Choice}

theorem Concludes.bind {α β : Type} {x : Except DefinitionError α}
    {f : α → Except DefinitionError β} {P : α → Prop} {Q : β → Prop} (hx : Concludes c ch x P)
    (hf : ∀ a, P a → Concludes c ch (f a) Q) : Concludes c ch (x >>= f) Q := by
  obtain ⟨a, rfl, ha⟩ | ⟨e, claimed, element, rfl, hmisfit⟩ := hx
  · exact hf a ha
  · exact .inr ⟨e, claimed, element, rfl, hmisfit⟩

/-- If nothing is chosen inside of a kind, the choice for the kind itself is the first. -/
theorem Built.settled_first (hc : c.Built) (hch : c.Knows ch) {k : Kind}
    (h : ∀ j : Kind, k.depth < j.depth → ch.at? j = none) : Settled c ch k (ch.at? k) := by
  cases hr : ch.at? k with
  | none =>
    intro j hj
    rcases Nat.eq_or_lt_of_le hj with heq | hlt
    · rw [← Kind.depth_injective heq]
      exact hr
    · exact h j hlt
  | some r =>
    refine ⟨hch k r hr, ⟨k, r⟩, Choice.innermost?_of_at? hr h,
      hc.ancestor?_self (hch k r hr), ?_⟩
    intro j q hle hlt
    exact absurd hlt (Nat.not_lt.2 hle)

/-- A step outwards derives the next ancestor or checks the one that is chosen. -/
theorem Built.settled_step (hc : c.Built) (hch : c.Knows ch) (outer inner : Kind)
    {current : Option Ref} (hk : outer.depth + 1 = inner.depth) (h : Settled c ch inner current) :
    Concludes c ch (c.agreedContainer outer inner (ch.at? outer) current)
      (Settled c ch outer) := by
  cases current with
  | none =>
    refine .inl ⟨ch.at? outer, rfl, hc.settled_first hch fun j hj => h j ?_⟩
    omega
  | some r =>
    obtain ⟨hhas, e, he, hancestor, hinside⟩ := h
    obtain ⟨q, hq, hhas'⟩ := hc.container hk hhas
    have houter : c.ancestor? e outer = some q := (ancestor?_outer hk hancestor).trans hq
    have hdepth := depth_le_of_ancestor? hancestor
    -- the container is settled unless another one is chosen in its place
    have settled : (∀ p, ch.at? outer = some p → q = p) → Settled c ch outer (some q) := by
      intro hp
      refine ⟨hhas', e, he, houter, ?_⟩
      intro j p hle hlt hj
      rcases Nat.eq_or_lt_of_le hle with heq | hgt
      · obtain rfl := Kind.depth_injective heq
        rw [houter, hp p hj]
      · exact hinside j p (by omega) hlt hj
    rw [agreedContainer_some hq]
    cases hclaimed : ch.at? outer with
    | none =>
      refine .inl ⟨some q, rfl, settled ?_⟩
      intro p hp
      rw [hclaimed] at hp
      cases hp
    | some p =>
      by_cases hqp : q = p
      · refine .inl ⟨some q, if_pos hqp, settled ?_⟩
        intro p' hp'
        rw [hclaimed] at hp'
        exact hqp.trans (Option.some.inj hp')
      · refine .inr ⟨e, ⟨outer, p⟩, ⟨inner, r⟩, if_neg hqp, ?_, hhas⟩
        refine ⟨he, hclaimed, ?_, ?_, ?_, hk.symm, hancestor⟩
        · exact Nat.lt_of_lt_of_le (by simp only; omega) hdepth
        · rw [houter]
          exact fun heq => hqp (Option.some.inj heq)
        · intro j p' hlt hlt' hj
          exact hinside j p' (by simp only at hlt; omega) hlt' hj

/-- Once the dimension is settled, everything that is chosen fits together. -/
theorem Settled.consistent {dimension : Option Ref} (h : Settled c ch .dimension dimension) :
    c.Consistent ch := by
  intro e he j q hj hlt
  cases dimension with
  | none =>
    rw [Choice.innermost?_eq_none fun j => h j (Nat.zero_le _)] at he
    cases he
  | some d =>
    obtain ⟨-, e', he', -, hinside⟩ := h
    obtain rfl : e' = e := Option.some.inj (he'.symm.trans he)
    exact hinside j q (Nat.zero_le _) hlt hj

/-- Resolving a choice takes three steps outwards, from the member to the dimension. -/
theorem Built.resolve_concludes (hc : c.Built) (hch : c.Knows ch) :
    Concludes c ch (c.resolve ch) fun _ => c.Consistent ch := by
  have hmember : Settled c ch .member ch.member := by
    refine hc.settled_first hch (k := .member) ?_
    intro j hj
    exact absurd hj (Nat.not_lt.2 j.depth_le_three)
  refine (hc.settled_step hch .level .member rfl hmember).bind fun level hlevel => ?_
  refine (hc.settled_step hch .hierarchy .level rfl hlevel).bind fun hierarchy hhierarchy => ?_
  refine (hc.settled_step hch .dimension .hierarchy rfl hhierarchy).bind fun dimension hdim => ?_
  exact .inl ⟨_, rfl, hdim.consistent⟩

/-- A choice of elements of finished schemas, as far as types of a kind can be bound to them,
defines a type exactly if every other element chosen is an ancestor of the innermost one.  The type
is then the one that is bound down to the innermost element, whatever else is chosen, or the unknown
type if nothing is.  Every other choice is refused, and the cause names the innermost element that
is wrong and the actual element directly inside of its kind. -/
theorem checked_bindings_are_canonical (hc : c.Built) (k : Kind) (ch : Choice)
    (hch : c.Knows (ch.upTo k)) :
    ((∃ m, c.metadataOf k ch = .ok m) ↔ c.Consistent (ch.upTo k)) ∧
    (∀ m, c.metadataOf k ch = .ok m →
      match (ch.upTo k).innermost? with
      | none => m = .unknown k
      | some e => c.metadataAt? k e = some m) ∧
    ∀ error, c.metadataOf k ch = .error error → ∃ e claimed element,
      c.Misfit (ch.upTo k) e claimed element ∧ error = .inconsistentBinding element claimed ∧
      ∃ inner outer, c.uniqueName? element = some inner ∧ c.uniqueName? claimed = some outer ∧
        error.message c =
          "Invalid type definition: " ++ inner ++ " does not belong to " ++ outer := by
  unfold metadataOf
  obtain ⟨b, hb, hconsistent⟩ | ⟨e, claimed, element, herror, hmisfit, hhas⟩ :=
    hc.resolve_concludes hch
  · rw [hb]
    refine ⟨⟨fun _ => hconsistent, fun _ => ⟨_, rfl⟩⟩, ?_, ?_⟩
    · intro m hm
      cases hm
      have hpath := hc.resolve_ok hch hb
      cases hinnermost : (ch.upTo k).innermost? with
      | none =>
        rw [hinnermost] at hpath
        rw [hpath]
        rfl
      | some e =>
        rw [hinnermost] at hpath
        show c.metadataAt? k e = some ⟨k, b⟩
        rw [metadataAt?, hpath]
        rfl
    · intro error h
      cases h
  · rw [herror]
    refine ⟨⟨?_, fun h => absurd h hmisfit.not_consistent⟩, ?_, ?_⟩
    · rintro ⟨m, hm⟩
      cases hm
    · intro m hm
      cases hm
    · intro error h
      obtain rfl : DefinitionError.inconsistentBinding element claimed = error :=
        Except.error.inj h
      exact ⟨e, claimed, element, hmisfit, rfl,
        exists_message hhas (hch claimed.kind claimed.ref hmisfit.chosen)⟩

/-- A week is accepted together with its dimension, and the hierarchy and the level between them can
be left out.  With the hierarchy of years it is refused, although its level is left out: the cause
names this level, to which it belongs. -/
theorem checked_bindings_are_canonical_of_calendars :
    let right : Choice := { dimension := some ⟨0, 0⟩, member := some ⟨0, 1⟩ }
    let wrong : Choice := { hierarchy := some ⟨0, 0⟩, member := some ⟨0, 1⟩ }
    calendars.Built ∧
      (calendars.Knows (right.upTo .member) ∧ calendars.Consistent (right.upTo .member) ∧
        ∃ m, calendars.metadataOf .member right = .ok m ∧
          calendars.metadataAt? .member ⟨.member, ⟨0, 1⟩⟩ = some m) ∧
      calendars.Knows (wrong.upTo .member) ∧ ¬calendars.Consistent (wrong.upTo .member) ∧
        calendars.metadataOf .member wrong =
          .error (.inconsistentBinding ⟨.level, ⟨0, 1⟩⟩ ⟨.hierarchy, ⟨0, 0⟩⟩) := by
  intro right wrong
  have hright : calendars.Knows (right.upTo .member) := by
    intro k r hr
    cases k with
    | dimension | member =>
      cases hr
      exact ⟨_, rfl, by decide⟩
    | hierarchy | level => cases hr
  have hwrong : calendars.Knows (wrong.upTo .member) := by
    intro k r hr
    cases k with
    | hierarchy | member =>
      cases hr
      exact ⟨_, rfl, by decide⟩
    | dimension | level => cases hr
  obtain ⟨hconsistent, hcanonical, -⟩ :=
    checked_bindings_are_canonical calendars_built .member right hright
  obtain ⟨hinconsistent, -, -⟩ :=
    checked_bindings_are_canonical calendars_built .member wrong hwrong
  have hok : calendars.metadataOf .member right =
      .ok ⟨.member, [⟨0, 0⟩, ⟨0, 1⟩, ⟨0, 1⟩, ⟨0, 1⟩]⟩ := rfl
  have herror : calendars.metadataOf .member wrong =
      .error (.inconsistentBinding ⟨.level, ⟨0, 1⟩⟩ ⟨.hierarchy, ⟨0, 0⟩⟩) := rfl
  refine ⟨calendars_built, ⟨hright, hconsistent.1 ⟨_, hok⟩, _, hok, hcanonical _ hok⟩, hwrong, ?_,
    herror⟩
  intro h
  obtain ⟨m, hm⟩ := hinconsistent.2 h
  rw [herror] at hm
  cases hm

end Catalog

end Hypercube
