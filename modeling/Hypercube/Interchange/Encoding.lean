import Hypercube.Interchange.Json

/-!
# Data laid out in JSON

The declaration of a type says which names and fields its values have.  How values of declared types
are laid out in JSON is the matter of an encoding, which knows nothing of the types themselves; what
is read and written with these declarations has the encoding as a parameter.

* `Encoding` — how variants, names and words are read and written.
* `Encoding.Lawful` — what can be relied on: the layout that is written, and the reading of objects.
* `Encoding.plain`, `Encoding.plain_lawful` — an encoding of this kind.
-/

set_option autoImplicit false

namespace Hypercube

/-- A way to lay out data in JSON. -/
structure Encoding where
  /-- The name of a variant, which is found by its tag, and the content of the variant. -/
  untag : (tag : String) → Json → Option (String × Json)
  /-- A content that is accepted for a variant without data. -/
  isBare : Json → Bool
  /-- Two words, which are found by the names of their fields. -/
  words : (first second : String) → Json → Option (UInt32 × UInt32)
  /-- A variant with its tag, its name and its words. -/
  tagged : (tag name : String) → (words : List (String × UInt32)) →
    (tag :: words.map Prod.fst).Nodup → Json
  /-- The name of a variant that stands for itself. -/
  name? : Json → Option String
  /-- A variant that stands for itself. -/
  ofName : String → Json

namespace Encoding

/-- What an encoding promises.  Nothing is promised about values that are not objects, other than
what is written. -/
structure Lawful (E : Encoding) : Prop where
  /-- A variant is written as an object, with its words next to the tag. -/
  tagged_isObject : ∀ {tag name words} (distinct : (tag :: words.map Prod.fst).Nodup),
    (E.tagged tag name words distinct).isObject = true
  /-- The tag has the name of the variant. -/
  tagged_tag : ∀ {tag name words} (distinct : (tag :: words.map Prod.fst).Nodup),
    (E.tagged tag name words distinct).field? tag = some (.string name)
  /-- Every word is a field of its own. -/
  tagged_word : ∀ {tag name words} (distinct : (tag :: words.map Prod.fst).Nodup) {field w},
    (field, w) ∈ words → (E.tagged tag name words distinct).field? field = some (.ofWord w)
  /-- The name of a variant is the text under its tag. -/
  tag_of_untag : ∀ {v : Json} {tag name content}, v.isObject = true →
    E.untag tag v = some (name, content) → v.field? tag = some (.string name)
  /-- An object with a text under the tag is a variant, and its content has the other fields. -/
  untag_of_tag : ∀ {v : Json} {tag name}, v.isObject = true →
    v.field? tag = some (.string name) →
    ∃ content, E.untag tag v = some (name, content) ∧ content.isObject = true ∧
      ∀ field, field ≠ tag → content.field? field = v.field? field
  /-- Fields that a variant does not have are ignored. -/
  isBare_object : ∀ {v : Json}, v.isObject = true → E.isBare v = true
  /-- Words are read if both fields are there, and both are numbers in the range of words. -/
  words_object : ∀ {v : Json} {first second p s}, v.isObject = true →
    (E.words first second v = some (p, s) ↔
      v.field? first = some (.ofWord p) ∧ v.field? second = some (.ofWord s))
  /-- What is written as a name is read as that name. -/
  name?_ofName : ∀ name, E.name? (E.ofName name) = some name

/-! ## A plain encoding -/

/-- Two numbers in the range of words. -/
def wordPair (first second : Json) : Option (UInt32 × UInt32) := do
  return (← first.toWord?, ← second.toWord?)

/-- The fields of a variant that is written as an object. -/
def variantFields (tag name : String) (words : List (String × UInt32)) : List (String × Json) :=
  (tag, .string name) :: words.map fun (field, w) => (field, .ofWord w)

theorem map_fst_variantFields (tag name : String) (words : List (String × UInt32)) :
    (variantFields tag name words).map Prod.fst = tag :: words.map Prod.fst := by
  simp [variantFields, Function.comp_def]

/-- An encoding that also takes the positional form of a variant, the array of its name and its
words.  A name that stands for itself may also be the only field of an object, without a value. -/
def plain : Encoding where
  untag tag
    | .array (.string name :: rest) => some (name, .array rest)
    | v =>
      match v.field? tag with
      | some (.string name) => some (name, v)
      | _ => none
  isBare
    | .object _ _ _ | .array [] => true
    | _ => false
  words first second
    | .array [p, s] => wordPair p s
    | v =>
      match v.field? first, v.field? second with
      | some p, some s => wordPair p s
      | _, _ => none
  tagged tag name words distinct :=
    .ofFields (variantFields tag name words) (map_fst_variantFields tag name words ▸ distinct)
  name?
    | .string name => some name
    | v =>
      match v.fields with
      | [(name, .null)] => some name
      | _ => none
  ofName := .string

theorem wordPair_eq_some_iff {first second : Json} {p s : UInt32} :
    wordPair first second = some (p, s) ↔ first = .ofWord p ∧ second = .ofWord s := by
  rw [← Json.toWord?_eq_some_iff, ← Json.toWord?_eq_some_iff, wordPair]
  cases first.toWord? <;> cases second.toWord? <;> simp

theorem plain_lawful : plain.Lawful where
  tagged_isObject _ := rfl
  tagged_tag _ := Json.field?_of_mem _ List.mem_cons_self
  tagged_word _ _ _ hw :=
    Json.field?_of_mem _ (List.mem_cons_of_mem _ (List.mem_map.2 ⟨_, hw, rfl⟩))
  tag_of_untag := by
    intro v tag name content hv h
    obtain ⟨names, distinct, value, rfl⟩ := Json.exists_object hv
    simp only [plain] at h
    split at h
    · rename_i htag
      cases h
      exact htag
    · cases h
  untag_of_tag := by
    intro v tag name hv h
    obtain ⟨names, distinct, value, rfl⟩ := Json.exists_object hv
    refine ⟨_, ?_, rfl, fun _ _ => rfl⟩
    simp only [plain, h]
  isBare_object := by
    intro v hv
    obtain ⟨names, distinct, value, rfl⟩ := Json.exists_object hv
    rfl
  words_object := by
    intro v first second p s hv
    obtain ⟨names, distinct, value, rfl⟩ := Json.exists_object hv
    simp only [plain]
    split
    · rename_i hfirst hsecond
      rw [wordPair_eq_some_iff, hfirst, hsecond, Option.some.injEq, Option.some.injEq]
    · rename_i hmissing
      simp only [reduceCtorEq, false_iff, not_and]
      intro hfirst hsecond
      exact hmissing _ _ hfirst hsecond
  name?_ofName _ := rfl

end Encoding

end Hypercube
