import Stencil.Json

/-!
The values that a template shows: texts, lists and ordered mappings. A section
is repeated over its value, and `passCount` says how often.
-/

namespace Stencil

inductive Value
  | scalar (text : String)
  | list (items : List Value)
  | mapping (entries : List (String × Value))

/-- The texts that stand for nothing. -/
def isFalsy (text : String) : Bool :=
  text = "" || text = "0" || text = "n" || text = "N"

namespace Value

/-- The word for the kind of a value. -/
def kindName : Value → String
  | scalar _ => "scalar"
  | list _ => "list"
  | mapping _ => "mapping"

/-- How often a section over this value is shown. -/
def passCount : Value → Nat
  | scalar text => if isFalsy text then 0 else 1
  | list items => items.length
  | mapping _ => 1

def scalar? : Value → Option String
  | scalar text => some text
  | _ => none

def mapping? : Value → Option (List (String × Value))
  | mapping entries => some entries
  | _ => none

def isList : Value → Bool
  | list _ => true
  | _ => false

/-- The entries of a mapping; no other value has any. -/
def entries (v : Value) : List (String × Value) := v.mapping?.getD []

@[simp] theorem entries_mapping (fields : List (String × Value)) : (mapping fields).entries = fields := rfl

/-- The value under a key. A list answers for its first item. -/
def getKey? (key : String) : Value → Option Value
  | scalar _ => none
  | list [] => none
  | list (first :: _) => first.getKey? key
  | mapping entries => Fields.get? key entries

/-! ## Values of documents -/

mutual

/-- The value of a document. Numbers keep their text, truth values become `1`
and `0`, and null becomes the empty text. -/
def ofJson : Json → Value
  | .null => scalar ""
  | .bool b => scalar (if b then "1" else "0")
  | .number n => scalar n.text
  | .string s => scalar s
  | .array items => list (ofItems items)
  | .object members => mapping (ofMembers [] members)
termination_by structural json => json

def ofItems : List Json → List Value
  | [] => []
  | item :: items => ofJson item :: ofItems items
termination_by structural items => items

/-- Adds members one by one to entries that are there already. -/
def ofMembers (entries : List (String × Value)) : List (String × Json) → List (String × Value)
  | [] => entries
  | (key, value) :: members => ofMembers (Fields.insert key (ofJson value) entries) members
termination_by structural members => members

end

/-! ## Merging -/

mutual

/-- Merges an update into a value: mappings key by key, and anything else is
replaced. -/
def merge (target : Value) : Value → Value
  | mapping incoming =>
    match target with
    | mapping existing => mapping (mergeEntries existing incoming)
    | _ => mapping incoming
  | scalar text => scalar text
  | list items => list items
termination_by structural update => update

def mergeEntries (existing : List (String × Value)) : List (String × Value) → List (String × Value)
  | [] => existing
  | (key, value) :: incoming =>
    let merged := fun
      | some slot => merge slot value
      | none => value
    mergeEntries (Fields.alter key merged existing) incoming
termination_by structural incoming => incoming

end

end Value

end Stencil
