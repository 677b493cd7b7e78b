/-!
# JSON values

The values in which types are exchanged.  A number is kept as it is written: `digits` with the
decimal point moved `places` to the left, so that `10` and `10.0` differ.  An object has different
names for its fields, and one value for each of them.

* `Json.field?` — the value of a field of an object.
* `Json.ofFields` — the object with given fields.
* `Json.toWord?`, `Json.ofWord` — 32-bit words as numbers.
-/

set_option autoImplicit false

namespace Hypercube

/-- A JSON value. -/
inductive Json where
  | null
  | bool (value : Bool)
  | number (digits : Int) (places : Nat)
  | string (value : String)
  | array (elements : List Json)
  | object (names : List String) (distinct : names.Nodup) (value : {name // name ∈ names} → Json)
deriving Inhabited

namespace Json

/-! ## Objects -/

/-- Objects, which have fields. -/
def isObject : Json → Bool
  | object _ _ _ => true
  | _ => false

theorem exists_object {j : Json} (h : j.isObject = true) :
    ∃ names distinct value, j = object names distinct value := by
  cases j with
  | object names distinct value => exact ⟨names, distinct, value, rfl⟩
  | null | bool | number | string | array => cases h

/-- The value of a field of an object. -/
def field? : Json → String → Option Json
  | object names _ value, name => if h : name ∈ names then some (value ⟨name, h⟩) else none
  | _, _ => none

/-- The fields of an object. -/
def fields : Json → List (String × Json)
  | object names _ value => names.attach.map fun name => (name.1, value name)
  | _ => []

theorem exists_lookup {fields : List (String × Json)} {name : String}
    (h : name ∈ fields.map Prod.fst) : (fields.lookup name).isSome := by
  obtain ⟨field, hfield, rfl⟩ := List.mem_map.1 h
  exact List.lookup_isSome_iff.2 ⟨field, hfield, beq_self_eq_true _⟩

/-- The object with given fields, which need to have different names. -/
def ofFields (fields : List (String × Json)) (distinct : (fields.map Prod.fst).Nodup) : Json :=
  object (fields.map Prod.fst) distinct fun name =>
    (fields.lookup name.1).get (exists_lookup name.2)

theorem field?_ofFields (fields : List (String × Json)) (distinct : (fields.map Prod.fst).Nodup)
    (name : String) : (ofFields fields distinct).field? name = fields.lookup name := by
  rw [ofFields, field?]
  split
  · exact Option.some_get _
  · rename_i h
    rw [eq_comm, List.lookup_eq_none_iff]
    intro field hfield
    rw [bne_iff_ne]
    rintro rfl
    exact h (List.mem_map_of_mem hfield)

theorem lookup_of_mem {fields : List (String × Json)} (distinct : (fields.map Prod.fst).Nodup)
    {name : String} {value : Json} (h : (name, value) ∈ fields) :
    fields.lookup name = some value := by
  induction fields with
  | nil => cases h
  | cons field rest ih =>
    rw [List.map_cons, List.nodup_cons] at distinct
    rcases List.mem_cons.1 h with rfl | htail
    · exact List.lookup_cons_self
    · have hne : name ≠ field.1 := by
        rintro rfl
        exact distinct.1 (List.mem_map.2 ⟨_, htail, rfl⟩)
      rw [List.lookup_cons, beq_false_of_ne hne]
      exact ih distinct.2 htail

/-- An object has each of the fields that it was made of. -/
theorem field?_of_mem {fields : List (String × Json)} (distinct : (fields.map Prod.fst).Nodup)
    {name : String} {value : Json} (h : (name, value) ∈ fields) :
    (ofFields fields distinct).field? name = some value := by
  rw [field?_ofFields, lookup_of_mem distinct h]

/-! ## Words -/

/-- A number written without a point, in the range of a 32-bit word. -/
def toWord? : Json → Option UInt32
  | number (.ofNat n) 0 => if n < UInt32.size then some (UInt32.ofNat n) else none
  | _ => none

/-- A word written as a number. -/
def ofWord (w : UInt32) : Json :=
  number w.toNat 0

/-- A word is read from nothing but the number as which it is written. -/
theorem toWord?_eq_some_iff {j : Json} {w : UInt32} : j.toWord? = some w ↔ j = ofWord w := by
  constructor
  · intro h
    unfold toWord? at h
    split at h
    · split at h
      · rename_i n hn
        cases h
        rw [ofWord, UInt32.toNat_ofNat_of_lt' hn]
        rfl
      · cases h
    · cases h
  · rintro rfl
    have h : w.toNat < UInt32.size := w.toNat_lt
    show (if w.toNat < UInt32.size then some (UInt32.ofNat w.toNat) else none) = some w
    simp [h]

end Json

end Hypercube
