import RustStream.Lib.Assoc

/-!
# JSON values

A document as a tree: objects are lists of fields. A value inside it is reached by a path of keys, with the index of
an array's item as a decimal key. A reference is the text of a field named `$ref`, anywhere in the document.

## Main definitions

* `Json`: values.
* `Json.find`: the value at a path.
* `Json.refs`, `Json.fieldRefs`: the references of a value, and of an object with given fields.

## Main results

* `Json.induct`: induction over a value.
* `Json.same_iff`: equality of values is decided.
* `Json.refs_obj`, `Json.refs_arr`: the references of an object and of an array.
-/

inductive Json where
  | null
  | bool (value : Bool)
  | num (text : String)
  | str (text : String)
  | arr (items : List Json)
  | obj (fields : List (String × Json))

namespace Json

open List

/-- The member of an object, or the item of an array, under a key. -/
def member (value : Json) (key : String) : Option Json :=
  match value with
  | .obj fields => fields.lookup key
  | .arr items => ((List.range items.length).find? fun n => toString n == key).bind fun n => items[n]?
  | _ => none

/-- The value at a path of keys. -/
def find (value : Json) : List String → Option Json
  | [] => some value
  | key :: path =>
    match value.member key with
    | some inner => inner.find path
    | none => none

/-- Whether a value is an object. -/
def isObj : Json → Bool
  | .obj _ => true
  | _ => false

/-- The fields of a value that is there and an object, others else. -/
def objectOr (fields : List (String × Json)) : Option Json → List (String × Json)
  | some (.obj own) => own
  | _ => fields

/-- The items of a value that is there and an array, none else. -/
def itemsOf : Option Json → List Json
  | some (.arr items) => items
  | _ => []

/-- Whether a value is the given text. -/
def isText (value : Json) (text : String) : Bool :=
  match value with
  | .str own => own = text
  | _ => false

/-- Whether a value may stand for a schema: an object, or a Boolean. -/
def isSchema : Json → Bool
  | .obj _ => true
  | .bool _ => true
  | _ => false

mutual

/-- Whether two values are the same. -/
def same : Json → Json → Bool
  | .null, .null => true
  | .bool value, .bool value' => value == value'
  | .num text, .num text' => text == text'
  | .str text, .str text' => text == text'
  | .arr items, .arr items' => sameItems items items'
  | .obj fields, .obj fields' => sameFields fields fields'
  | _, _ => false

def sameItems : List Json → List Json → Bool
  | [], [] => true
  | item :: items, item' :: items' => same item item' && sameItems items items'
  | _, _ => false

def sameFields : List (String × Json) → List (String × Json) → Bool
  | [], [] => true
  | (key, value) :: fields, (key', value') :: fields' => key == key' && same value value' && sameFields fields fields'
  | _, _ => false

end

/-- What a field itself refers to. -/
def refText (key : String) : Json → List String
  | .str text => if key = "$ref" then [text] else []
  | _ => []

mutual

/-- The references of a value. -/
def refs : Json → List String
  | .null => []
  | .bool _ => []
  | .num _ => []
  | .str _ => []
  | .arr items => refsOfItems items
  | .obj fields => refsOfFields fields

def refsOfItems : List Json → List String
  | [] => []
  | item :: items => refs item ++ refsOfItems items

def refsOfFields : List (String × Json) → List String
  | [] => []
  | (key, value) :: fields => refText key value ++ refs value ++ refsOfFields fields

end

/-- Induction over a value: items of arrays and fields of objects first. -/
@[elab_as_elim]
theorem induct {motive : Json → Prop} (null : motive null) (bool : ∀ value, motive (.bool value))
    (num : ∀ text, motive (.num text)) (str : ∀ text, motive (.str text))
    (arr : ∀ items, (∀ item ∈ items, motive item) → motive (.arr items))
    (obj : ∀ fields, (∀ field ∈ fields, motive field.2) → motive (.obj fields)) (value : Json) : motive value :=
  @Json.rec motive (fun items => ∀ item ∈ items, motive item) (fun fields => ∀ field ∈ fields, motive field.2)
    (fun field => motive field.2) null bool num str arr obj (fun _ hmem => absurd hmem not_mem_nil)
    (fun _ _ hhead htail => forall_mem_cons.mpr ⟨hhead, htail⟩) (fun _ hmem => absurd hmem not_mem_nil)
    (fun _ _ hhead htail => forall_mem_cons.mpr ⟨hhead, htail⟩) (fun _ _ hvalue => hvalue) value

theorem sameItems_iff {items : List Json} (h : ∀ item ∈ items, ∀ other, item.same other = true ↔ item = other)
    (items' : List Json) : sameItems items items' = true ↔ items = items' := by
  induction items generalizing items' with
  | nil => cases items' <;> simp [sameItems]
  | cons item items ih =>
    obtain ⟨hitem, hitems⟩ := forall_mem_cons.mp h
    cases items' with
    | nil => simp [sameItems]
    | cons item' items' => rw [sameItems, Bool.and_eq_true, hitem, ih hitems, List.cons.injEq]

variable {fields : List (String × Json)}

theorem sameFields_iff
    (h : ∀ field ∈ fields, ∀ other, field.2.same other = true ↔ field.2 = other) (fields' : List (String × Json)) :
    sameFields fields fields' = true ↔ fields = fields' := by
  induction fields generalizing fields' with
  | nil => cases fields' <;> simp [sameFields]
  | cons field fields ih =>
    obtain ⟨hfield, hfields⟩ := forall_mem_cons.mp h
    obtain ⟨key, value⟩ := field
    cases fields' with
    | nil => simp [sameFields]
    | cons field' fields' =>
      obtain ⟨key', value'⟩ := field'
      rw [sameFields, Bool.and_eq_true, Bool.and_eq_true, hfield, ih hfields, List.cons.injEq, Prod.mk.injEq, beq_iff_eq]

theorem same_iff (value other : Json) : value.same other = true ↔ value = other := by
  induction value using induct generalizing other with
  | null | bool value | num text | str text => cases other <;> simp [same]
  | arr items ih =>
    cases other with
    | arr items' => rw [same, sameItems_iff ih, arr.injEq]
    | _ => simp [same]
  | obj fields ih =>
    cases other with
    | obj fields' => rw [same, sameFields_iff ih, obj.injEq]
    | _ => simp [same]

instance : DecidableEq Json := fun value other => decidable_of_iff _ (same_iff value other)

theorem refs_str (text : String) : (str text).refs = [] :=
  rfl

theorem refs_arr (items : List Json) : (arr items).refs = items.flatMap refs := by
  rw [refs]
  induction items with
  | nil => rfl
  | cons item items ih => rw [refsOfItems, ih, flatMap_cons]

/-- The references of an object with the given fields. -/
def fieldRefs (fields : List (String × Json)) : List String :=
  fields.flatMap fun field => refText field.1 field.2 ++ field.2.refs

theorem refs_obj (fields : List (String × Json)) : (obj fields).refs = fieldRefs fields := by
  rw [refs, fieldRefs]
  induction fields with
  | nil => rfl
  | cons field fields ih => rw [refsOfFields, ih, flatMap_cons]

theorem fieldRefs_append (fields fields' : List (String × Json)) :
    fieldRefs (fields ++ fields') = fieldRefs fields ++ fieldRefs fields' :=
  flatMap_append

theorem fieldRefs_cons (key : String) (value : Json) (fields : List (String × Json)) :
    fieldRefs ((key, value) :: fields) = refText key value ++ value.refs ++ fieldRefs fields :=
  flatMap_cons

theorem refText_of_ne {key : String} (h : key ≠ "$ref") (value : Json) : refText key value = [] := by
  cases value with
  | str text => exact if_neg h
  | _ => rfl

variable {value : Json}

theorem refText_of_isObj (h : value.isObj = true) (key : String) : refText key value = [] := by
  cases value with
  | obj fields => rfl
  | _ => cases h

theorem mem_fieldRefs_set {key text : String} (hvalue : refText key value = [])
    (h : text ∈ fieldRefs (Assoc.set key value fields)) : text ∈ value.refs ∨ text ∈ fieldRefs fields := by
  obtain ⟨entry, hentry, htext⟩ := mem_flatMap.mp h
  rcases Assoc.mem_set hentry with rfl | hmem
  · rw [hvalue] at htext
    exact Or.inl htext
  · exact Or.inr (mem_flatMap.mpr ⟨entry, hmem, htext⟩)

theorem mem_fieldRefs_of_lookup {key text : String} (hvalue : fields.lookup key = some value)
    (h : text ∈ value.refs) : text ∈ fieldRefs fields :=
  mem_flatMap.mpr ⟨_, Assoc.mem_of_lookup_eq_some hvalue, mem_append_right _ h⟩

section

variable (h : fieldRefs fields = [])
include h

theorem fieldRefs_set {key : String}
    (htext : refText key value = []) (hvalue : value.refs = []) : fieldRefs (Assoc.set key value fields) = [] := by
  refine eq_nil_iff_forall_not_mem.mpr fun text hmem => ?_
  rcases mem_fieldRefs_set htext hmem with hin | hin
  · rw [hvalue] at hin
    cases hin
  · rw [h] at hin
    cases hin

theorem fieldRefs_eq_nil_of_lookup {key : String}
    (hlookup : fields.lookup key = some value) : value.refs = [] := by
  refine eq_nil_iff_forall_not_mem.mpr fun text hmem => ?_
  have hin := mem_fieldRefs_of_lookup hlookup hmem
  rw [h] at hin
  cases hin

theorem fieldRefs_objectOr {value : Option Json}
    (hvalue : ∀ json, value = some json → json.refs = []) : fieldRefs (objectOr fields value) = [] := by
  rw [objectOr.eq_def]
  split
  · next own => exact (refs_obj own).symm.trans (hvalue _ rfl)
  · exact h

theorem fieldRefs_objectOr_lookup (key : String) :
    fieldRefs (objectOr [] (fields.lookup key)) = [] :=
  fieldRefs_objectOr rfl fun _ hlookup => fieldRefs_eq_nil_of_lookup h hlookup

theorem refs_itemsOf_lookup (key : String) : (itemsOf (fields.lookup key)).flatMap refs = [] := by
  rw [itemsOf.eq_def]
  split
  · next items hlookup => exact (refs_arr items).symm.trans (fieldRefs_eq_nil_of_lookup h hlookup)
  · rfl

end

end Json
