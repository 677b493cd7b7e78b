import Hypercube.Proofs.Growth

/-!
# Drafting stays inside the tables

What becomes of an index outside of a table is left to the kind of access.  Only the ids given to a
command can be unknown, and those are checked.  So on the tables that commands lead to, drafting and
finishing a schema give the same answers with every kind of access.  In particular, nothing faults
where such an index is a fault.

* `Access.anyEntry_of_lt`, `Access.change_of_lt` — entries that are there.
* `DraftT.Meets` — a computation answers as a draft does.
* `Tables.Sound.meets_execute` — the commands meet drafting.
* `Tables.Sound.buildM_eq` — the same for finishing a schema.
* `Strict`, `Strict.execute`, `Tables.strictBuild?` — drafting and finishing with faults.
-/

set_option autoImplicit false

namespace Hypercube

open Relation

variable {m : Type → Type} [Monad m] {α β : Type}

/-! ## Entries that are there -/

namespace Access

variable [Access m]

theorem change_of_lt {xs : Array α} {id : Nat} (h : id < xs.size) (f : α → α) :
    (change xs id f : m (Array α)) = pure (xs.modify id f) :=
  if_pos h

theorem anyEntry_of_lt [LawfulMonad m] {xs : Array α} {ids : List Nat} (p : α → Bool)
    (h : ∀ id ∈ ids, id < xs.size) :
    (anyEntry xs p ids : m Bool) = pure (ids.any fun id => xs[id]?.any p) := by
  induction ids with
  | nil => rfl
  | cons id ids ih =>
    obtain ⟨hid, hids⟩ := List.forall_mem_cons.1 h
    have htail : ids.anyM (fun id => entry (xs[id]?.map p) (pure false)) = (_ : m Bool) := ih hids
    rw [anyEntry, List.anyM, List.any_cons, Array.getElem?_eq_getElem hid, Option.map_some,
      Option.any_some, entry_some, pure_bind]
    cases p xs[id] with
    | true => rfl
    | false => exact htail

end Access

/-! ## Meeting a draft -/

namespace DraftT

/-- A computation answers on given tables as a draft does. -/
def Meets (x : DraftT m α) (y : Draft α) (t : Tables) : Prop :=
  (ExceptT.run x).run t = pure (y.on t)

namespace Meets

variable {t : Tables} {x : DraftT m α} {y : Draft α} {f : α → DraftT m β} {g : α → Draft β}

theorem pure (a : α) (t : Tables) : (Pure.pure a : DraftT m α).Meets (Pure.pure a) t := rfl

theorem throw (e : SchemaError) (t : Tables) :
    (MonadExcept.throw e : DraftT m α).Meets (MonadExcept.throw e) t := rfl

theorem ite {p : Prop} [Decidable p] {x' : DraftT m α} {y' : Draft α} (h : p → x.Meets y t)
    (h' : ¬p → x'.Meets y' t) : (if p then x else x').Meets (if p then y else y') t := by
  split
  · rename_i hp
    exact h hp
  · rename_i hp
    exact h' hp

variable [LawfulMonad m]

theorem set (s t : Tables) : (MonadState.set s : DraftT m PUnit).Meets (MonadState.set s) t := by
  show (Pure.pure (⟨⟩, s) >>= fun p : PUnit × Tables => Pure.pure (Except.ok p.1, p.2) : m _) = _
  rw [pure_bind]
  rfl

theorem bind (hx : x.Meets y t) (hf : ∀ a t', y.on t = (.ok a, t') → (f a).Meets (g a) t') :
    (x >>= f).Meets (y >>= g) t := by
  rw [Meets, ExceptT.run_bind, StateT.run_bind, hx, pure_bind, Draft.on_bind]
  rcases hy : y.on t with ⟨r, t'⟩
  cases r with
  | error e => rfl
  | ok a => exact hf a t' hy

theorem map (h : α → β) (hx : x.Meets y t) : (h <$> x).Meets (h <$> y) t := by
  rw [← bind_pure_comp, ← bind_pure_comp]
  exact bind hx fun a t' _ => pure (h a) t'

/-- Both sides see the same tables. -/
theorem get {f : Tables → DraftT m α} {g : Tables → Draft α} (h : (f t).Meets (g t) t) :
    (MonadState.get >>= f).Meets (MonadState.get >>= g) t := by
  refine bind (x := MonadState.get) (y := MonadState.get) ?_ fun a t' ht' => ?_
  · show (Pure.pure (t, t) >>= fun p : Tables × Tables => Pure.pure (Except.ok p.1, p.2) : m _) = _
    rw [pure_bind]
    rfl
  · cases ht'
    exact h

/-- The tables are changed at the end. -/
theorem setting (s t : Tables) (a : α) :
    (do MonadState.set s; Pure.pure a : DraftT m α).Meets (do MonadState.set s; Pure.pure a) t :=
  bind (set s t) fun _ t' _ => pure a t'

end Meets

end DraftT

/-! ## Accepted ids -/

namespace Draft

variable {id : Nat} {t t' : Tables}

theorem known_ok {kind : Kind} {table : Tables → Array α} {a : α}
    (ok : on (known kind table id) t = (.ok a, t')) : (table t)[id]? = some a ∧ t' = t := by
  rw [on_known] at ok
  split at ok
  · rename_i found
    cases ok
    exact ⟨found, rfl⟩
  · cases ok

/-- A parent that a scope was found for is in the table, also after its child was added to it. -/
theorem pushChild_eq [Access m] {lvl : Level} {name scope : String} {parent : Option MemberId}
    (h : (on (memberScope lvl name parent) t).1 = .ok scope) (new : Member) (child : MemberId) :
    (pushChild (t.members.push new) parent child : DraftT m (Array Member)) =
      pure (Tables.addChild (t.members.push new) parent child) := by
  obtain ⟨hier, -, ⟨rfl, -⟩ | ⟨id, above, -, rfl, found, -⟩⟩ := memberScope_ok h
  · rfl
  · have hid : id < t.members.size := (Array.getElem?_eq_some_iff.1 found).1
    refine Access.change_of_lt ?_ _
    rw [Array.size_push]
    exact Nat.lt_succ_of_lt hid

end Draft

/-! ## Drafting meets itself -/

namespace Tables.Sound

open DraftT (Meets)

open Access (anyEntry_of_lt change_of_lt entry_some)

variable [LawfulMonad m] {t : Tables}

theorem of_edits (ht : t.Sound) {t' : Tables} (h : ReflTransGen Edit t t') : t'.Sound :=
  Edit.invariant (fun _ _ hs e => hs.edit e) h ht

/-- Computations that do nothing but edits can follow each other, as the tables stay sound. -/
theorem meets_bind (ht : t.Sound) {x : DraftT m α} {y : Draft α} {f : α → DraftT m β}
    {g : α → Draft β} (hx : x.Meets y t) (he : ReflGen Edit t (y.on t).2)
    (hf : ∀ a t', t'.Sound → (f a).Meets (g a) t') : (x >>= f).Meets (y >>= g) t := by
  refine .bind hx fun a t' hy => hf a t' ?_
  rw [hy] at he
  exact ht.of_edits he.to_reflTransGen

theorem meets_known (kind : Kind) (table : Tables → Array α) (id : Nat) (t : Tables) :
    Meets (Draft.known kind table id : DraftT m α) (Draft.known kind table id) t := by
  unfold Draft.known
  refine .get ?_
  cases (table t)[id]? with
  | none => exact .throw _ t
  | some a => exact .pure a t

theorem meets_pushDimension (name : String) (measures : Bool) (t : Tables) :
    Meets (m := m) (Draft.pushDimension name measures) (Draft.pushDimension name measures) t :=
  .get (.ite (fun _ => .throw _ t) fun _ => .setting _ t _)

theorem meets_addCube (name : String) (dimensions : List DimensionId) (t : Tables) :
    Meets (m := m) (Draft.addCube name dimensions) (Draft.addCube name dimensions) t := by
  refine .get (.ite (fun _ => .throw _ t) fun _ => ?_)
  cases dimensions.find? (fun d => t.dimensions.size ≤ d) with
  | some d => exact .throw _ t
  | none => exact .setting _ t _

variable [Access m]

theorem meets_pushHierarchy (ht : t.Sound) (id : DimensionId) (name : String) :
    Meets (m := m) (Draft.pushHierarchy id name) (Draft.pushHierarchy id name) t := by
  refine .bind (meets_known _ _ id t) fun dim t' h => ?_
  obtain ⟨found, rfl⟩ := Draft.known_ok h
  have hlisted : ∀ i ∈ dim.hierarchies, i < t'.hierarchies.size :=
    fun i hi => (ht.hierarchies id dim found).lt_size hi
  have hid : id < t'.dimensions.size := (Array.getElem?_eq_some_iff.1 found).1
  refine .get ?_
  simp only [anyEntry_of_lt _ hlisted, change_of_lt hid, pure_bind]
  exact .ite (fun _ => .throw _ _) fun _ => .setting _ _ _

theorem meets_pushLevel (ht : t.Sound) (id : HierarchyId) (name : String) (all : Bool) :
    Meets (m := m) (Draft.pushLevel id name all) (Draft.pushLevel id name all) t := by
  refine .bind (meets_known _ _ id t) fun hier t' h => ?_
  obtain ⟨found, rfl⟩ := Draft.known_ok h
  have hlisted : ∀ i ∈ hier.levels, i < t'.levels.size :=
    fun i hi => (ht.levels id hier found).lt_size hi
  have hid : id < t'.hierarchies.size := (Array.getElem?_eq_some_iff.1 found).1
  refine .get ?_
  simp only [anyEntry_of_lt _ hlisted, change_of_lt hid, pure_bind]
  exact .ite (fun _ => .throw _ _) fun _ => .setting _ _ _

theorem meets_memberScope (ht : t.Sound) {lvl : Level} (hlvl : lvl ∈ t.levels) (name : String)
    (parent : Option MemberId) :
    Meets (m := m) (Draft.memberScope lvl name parent) (Draft.memberScope lvl name parent) t := by
  refine .get ?_
  simp only [Array.getElem?_eq_getElem (ht.anchored.levels lvl hlvl), entry_some, pure_bind]
  cases parent with
  | none => exact .ite (fun _ => .pure _ t) fun _ => .throw _ t
  | some id =>
    refine .bind (meets_known _ _ id t) fun above t' h => ?_
    obtain ⟨found, rfl⟩ := Draft.known_ok h
    have hlevel := ht.anchored.members above (Array.mem_of_getElem? found)
    simp only [Array.getElem?_eq_getElem hlevel, entry_some, pure_bind]
    exact .ite (fun _ => .throw _ _) fun _ => .ite (fun _ => .pure _ _) fun _ => .pure _ _

theorem meets_pushMember (ht : t.Sound) (id : LevelId) (name : String)
    (parent : Option MemberId) :
    Meets (m := m) (Draft.pushMember id name parent) (Draft.pushMember id name parent) t := by
  refine .bind (meets_known _ _ id t) fun lvl t' h => ?_
  obtain ⟨found, rfl⟩ := Draft.known_ok h
  refine .bind (ht.meets_memberScope (Array.mem_of_getElem? found) name parent)
    fun scope t'' hscope => ?_
  -- finding the scope changes nothing, so what is known of the tables still holds
  have htables : t'' = t' := by
    rw [← Draft.on_memberScope_tables lvl name parent t', hscope]
  cases htables
  have hid : id < t'.levels.size := (Array.getElem?_eq_some_iff.1 found).1
  have hnamed : (Draft.on (Draft.memberScope lvl name parent) t').1 = .ok scope := by rw [hscope]
  refine .get ?_
  simp only [change_of_lt hid, Draft.pushChild_eq hnamed, pure_bind]
  exact .ite (fun _ => .throw _ _) fun _ => .setting _ _ _

theorem meets_addMeasures (ht : t.Sound) :
    Meets (m := m) Draft.addMeasures Draft.addMeasures t := by
  refine ht.meets_bind (meets_pushDimension _ true t)
    (Draft.edit_pushDimension _ true fun _ => rfl) fun d t₁ h₁ => ?_
  refine h₁.meets_bind (h₁.meets_pushHierarchy d _) (Draft.edit_pushHierarchy d _)
    fun h t₂ h₂ => ?_
  exact .bind (h₂.meets_pushLevel h _ false) fun l t₃ _ => .pure _ t₃

theorem meets_addAllLevel (ht : t.Sound) (id : HierarchyId) (name : String) :
    Meets (m := m) (Draft.addAllLevel id name) (Draft.addAllLevel id name) t := by
  refine .bind (meets_known _ _ id t) fun hier t' h => ?_
  obtain ⟨found, rfl⟩ := Draft.known_ok h
  refine .ite (fun hempty => ?_) fun _ => .throw _ _
  have first : ∀ h, t'.hierarchies[id]? = some h → h.levels = [] := by
    intro h hh
    cases found.symm.trans hh
    exact List.isEmpty_iff.1 hempty
  refine ht.meets_bind (ht.meets_pushLevel id _ true)
    (Draft.edit_pushLevel id _ true fun _ => first) fun l t₁ h₁ => ?_
  exact .bind (h₁.meets_pushMember l name none) fun m t₂ _ => .pure _ t₂

theorem meets_addMember (ht : t.Sound) (id : LevelId) (name : String)
    (parent : Option MemberId) :
    Meets (m := m) (Draft.addMember id name parent) (Draft.addMember id name parent) t := by
  refine .bind (meets_known _ _ id t) fun lvl t' h => ?_
  obtain ⟨-, rfl⟩ := Draft.known_ok h
  exact .ite (fun _ => .throw _ _) fun _ => ht.meets_pushMember id name parent

theorem meets_setDefaultMember (ht : t.Sound) (id : HierarchyId) (chosen : MemberId) :
    Meets (m := m) (Draft.setDefaultMember id chosen) (Draft.setDefaultMember id chosen) t := by
  refine .bind (meets_known _ _ id t) fun hier t' h => ?_
  obtain ⟨hfound, rfl⟩ := Draft.known_ok h
  refine .bind (meets_known _ _ chosen t') fun mem t'' h' => ?_
  obtain ⟨mfound, rfl⟩ := Draft.known_ok h'
  have hid : id < t''.hierarchies.size := (Array.getElem?_eq_some_iff.1 hfound).1
  have hlevel := ht.anchored.members mem (Array.mem_of_getElem? mfound)
  refine .get ?_
  simp only [Array.getElem?_eq_getElem hlevel, Array.getElem?_eq_getElem hid, change_of_lt hid,
    entry_some, pure_bind]
  exact .ite (fun _ => .throw _ _) fun _ => .set _ _

/-- On sound tables, no command depends on the kind of access. -/
theorem meets_execute (ht : t.Sound) (c : Command) : Meets (m := m) c.execute c.execute t := by
  cases c with
  | dimension name => exact (meets_pushDimension name false t).map _
  | measures => exact ht.meets_addMeasures.map _
  | hierarchy d name => exact (ht.meets_pushHierarchy d name).map _
  | allLevel h name => exact (ht.meets_addAllLevel h name).map _
  | level h name => exact (ht.meets_pushLevel h name false).map _
  | member l name parent => exact (ht.meets_addMember l name parent).map _
  | defaultMember h m => exact (ht.meets_setDefaultMember h m).map _
  | cube name dims => exact (meets_addCube name dims t).map _

end Tables.Sound

/-! ## Finishing a schema -/

theorem mapM_eq_pure_map [LawfulMonad m] {l : List α} {f : α → m β} {g : α → β}
    (h : ∀ a ∈ l, f a = pure (g a)) : l.mapM f = pure (l.map g) := by
  induction l with
  | nil => rfl
  | cons a l ih =>
    obtain ⟨ha, hl⟩ := List.forall_mem_cons.1 h
    rw [List.mapM_cons, ha, pure_bind, ih hl, pure_bind]
    rfl

namespace Tables

variable [LawfulMonad m] [Access m] {t : Tables}

theorem Sound.withDefaultM_eq (ht : t.Sound) {h : Hierarchy} (hh : h ∈ t.hierarchies)
    (hne : h.levels ≠ []) : (t.withDefaultM h : m Hierarchy) = pure (t.withDefault h) := by
  obtain ⟨q, hq⟩ := Array.mem_iff_getElem?.1 hh
  obtain ⟨root, rest, hroot⟩ := List.exists_cons_of_ne_nil hne
  have hlt : root < t.levels.size := (ht.levels q h hq).lt_size (by simp [hroot])
  have hchosen : (t.chosenM? h : m (Option MemberId)) = pure (Id.run (t.chosenM? h)) := by
    unfold chosenM? firstMemberM?
    cases h.defaultMember with
    | some chosen => rfl
    | none =>
      simp only [hroot, List.head?_cons, Access.follow_some, Array.getElem?_eq_getElem hlt]
      rfl
  rw [withDefaultM, hchosen, pure_bind]
  rfl

/-- On sound tables, finishing a schema does not depend on the kind of access. -/
theorem Sound.buildM_eq (ht : t.Sound) : (t.buildM : m (Except SchemaError Schema)) =
    pure t.build := by
  rw [build_eq, buildM]
  cases t.dimensions.find? (·.hierarchies.isEmpty) with
  | some d => rfl
  | none =>
    cases hempty : t.hierarchies.find? (·.levels.isEmpty) with
    | some h => rfl
    | none =>
      have hdefault : ∀ h ∈ t.hierarchies.toList,
          (t.withDefaultM h : m Hierarchy) = pure (t.withDefault h) := by
        intro h hh
        have hmem : h ∈ t.hierarchies := Array.mem_toList_iff.1 hh
        refine ht.withDefaultM_eq hmem fun hnil => ?_
        exact Array.find?_eq_none.1 hempty h hmem (List.isEmpty_iff.2 hnil)
      simp only [mapM_eq_pure_map hdefault, pure_bind, ← Array.toList_map]

end Tables

/-! ## Faults -/

/-- A computation on the tables that has no answer after a fault. -/
abbrev Strict := DraftT Option

namespace Strict

/-- The answer of a computation on given tables, and the tables after it, unless there was a
fault. -/
def on (x : Strict α) (t : Tables) : Option (Except SchemaError α × Tables) :=
  (ExceptT.run x).run t

/-- The effect of a command, where an index outside of a table is a fault. -/
def execute (c : Command) : Strict Reply :=
  c.execute

end Strict

/-- The schema that drafted tables describe, unless there was a fault. -/
def Tables.strictBuild? (t : Tables) : Option (Except SchemaError Schema) :=
  t.buildM

end Hypercube
