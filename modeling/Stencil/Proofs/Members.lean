import Stencil.Proofs.Reach

/-!
The members of a document.

A document may have a key twice. Its value then has the last of the members under that key, in the
place of the first.

* `Json.atKeys?`: where a chain of keys leads in a document.
* `Value.atKeys?_ofJson`: it leads to the same in the value of the document.
* `Value.keys_ofMembers_nil`: the keys of an object's value are its keys, each once.
-/

namespace Stencil

/-- The value that comes last under a key. -/
def Fields.last? {α : Type} (key : String) : List (String × α) → Option α
  | [] => none
  | (k, v) :: rest => (last? key rest).or (if k = key then some v else none)

theorem Fields.mem_of_last? {α : Type} {key : String} {value : α} {fields : List (String × α)}
    (h : last? key fields = some value) : (key, value) ∈ fields := by
  induction fields with
  | nil => cases h
  | cons field rest ih =>
    obtain ⟨k, v⟩ := field
    rw [last?, Option.or_eq_some_iff] at h
    rcases h with later | ⟨-, first⟩
    · exact .tail _ (ih later)
    · obtain ⟨rfl, same⟩ := Option.ite_none_right_eq_some.1 first
      cases same
      exact List.mem_cons_self

/-- Where a chain of keys leads from object to object. -/
def Json.atKeys? : Json → List String → Option Json
  | json, [] => some json
  | .object members, key :: keys => (Fields.last? key members).bind (·.atKeys? keys)
  | _, _ :: _ => none

namespace Value

/-- Under a key there is the value of the last member with it, or what was there before. -/
theorem get?_ofMembers (key : String) (entries : List (String × Value))
    (members : List (String × Json)) :
    Fields.get? key (ofMembers entries members) =
      ((Fields.last? key members).map ofJson).or (Fields.get? key entries) := by
  induction members generalizing entries with
  | nil => rfl
  | cons member members ih =>
    obtain ⟨k, json⟩ := member
    rw [ofMembers, ih, Fields.insert, Fields.get?_alter, Fields.last?]
    cases Fields.last? key members with
    | some later => rfl
    | none =>
      by_cases here : k = key
      · simp [here]
      · have apart : ¬ key = k := fun same => here same.symm
        simp [here, apart]

/-- An entry of the value of an object comes from one of its members. -/
theorem exists_member_of_get?_ofMembers {key : String} {v : Value} {members : List (String × Json)}
    (found : Fields.get? key (ofMembers [] members) = some v) :
    ∃ json, (key, json) ∈ members ∧ ofJson json = v := by
  rw [get?_ofMembers, Fields.get?, Option.or_none] at found
  obtain ⟨json, last, same⟩ := Option.map_eq_some_iff.1 found
  exact ⟨json, Fields.mem_of_last? last, same⟩

/-- The keys that are new come behind those that are there, in the order in which each comes
first. -/
theorem keys_ofMembers (entries : List (String × Value)) (members : List (String × Json)) :
    Fields.keys (ofMembers entries members) =
      Fields.keys entries ++ ((Fields.keys members).filter (· ∉ Fields.keys entries)).eraseDups := by
  induction members generalizing entries with
  | nil => simp [ofMembers, Fields.keys]
  | cons member members ih =>
    obtain ⟨key, json⟩ := member
    rw [ofMembers, ih, Fields.insert, Fields.keys_alter, Fields.keys_cons]
    by_cases old : key ∈ Fields.keys entries
    · rw [if_pos old, List.filter_cons_of_neg (by simpa using old)]
    · have others : (Fields.keys members).filter (· ∉ Fields.keys entries ++ [key]) =
          ((Fields.keys members).filter (· ∉ Fields.keys entries)).filter (!· == key) := by
        rw [List.filter_filter]
        refine List.filter_congr fun other _ => ?_
        by_cases same : other = key <;> simp [same]
      rw [if_neg old, List.filter_cons_of_pos (by simpa using old), List.eraseDups_cons, others,
        List.append_assoc, List.singleton_append]

theorem keys_ofMembers_nil (members : List (String × Json)) :
    Fields.keys (ofMembers [] members) = (Fields.keys members).eraseDups := by
  rw [keys_ofMembers, Fields.keys, List.map_nil, List.nil_append, List.filter_eq_self.2 (by simp)]

/-- The value of a document goes along with it under every chain of keys. -/
theorem atKeys?_ofJson (json : Json) (keys : List String) :
    (ofJson json).atKeys? keys = (json.atKeys? keys).map ofJson := by
  induction keys generalizing json with
  | nil => cases json <;> rfl
  | cons key keys ih =>
    cases json with
    | object members =>
      rw [Json.atKeys?, ofJson, atKeys?_cons, entries_mapping, get?_ofMembers]
      cases Fields.last? key members with
      | none => rfl
      | some member => exact ih member
    | _ => rfl

end Value

end Stencil
