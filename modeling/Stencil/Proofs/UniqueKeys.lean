import Stencil.Proofs.Rewriting

/-!
One entry for each key.

A mapping is a list of entries, and nothing in the type of a value keeps a key from coming
twice. `Value.UniqueKeys` says that none does, at any depth. The values of documents are
like this (`Value.UniqueKeys.ofJson`), and a write leaves them so
(`Value.UniqueKeys.assign`).
-/

namespace Stencil

/-- Every mapping in a value, at any depth, has one entry for each key. -/
inductive Value.UniqueKeys : Value → Prop
  | scalar (text : String) : UniqueKeys (.scalar text)
  | list {items : List Value} (each : ∀ item ∈ items, UniqueKeys item) : UniqueKeys (.list items)
  | mapping {entries : List (String × Value)} (nodup : (Fields.keys entries).Nodup)
    (each : ∀ key v, Fields.get? key entries = some v → UniqueKeys v) :
    UniqueKeys (.mapping entries)

namespace Value.UniqueKeys

variable {v new : Value} {step : Step}

theorem empty : UniqueKeys (.mapping []) := by
  refine .mapping .nil ?_
  intro key v found
  cases found

theorem entries (h : v.UniqueKeys) : (Value.mapping v.entries).UniqueKeys := by
  cases h with
  | scalar text => exact empty
  | list each => exact empty
  | mapping nodup each => exact .mapping nodup each

theorem alter {entries : List (String × Value)} (h : (Value.mapping entries).UniqueKeys) {key : String}
    {f : Option Value → Value} (changed : (f (Fields.get? key entries)).UniqueKeys) :
    (Value.mapping (Fields.alter key f entries)).UniqueKeys := by
  cases h with
  | mapping nodup each =>
    refine .mapping (Fields.nodup_keys_alter nodup key f) ?_
    intro other v found
    rw [Fields.get?_alter] at found
    split at found
    · cases found
      exact changed
    · exact each other v found

/-- What holds of all entries holds of the first and of the others. -/
theorem of_cons {key : String} {entries : List (String × Value)}
    (h : (Value.mapping ((key, v) :: entries)).UniqueKeys) :
    v.UniqueKeys ∧ key ∉ Fields.keys entries ∧ (Value.mapping entries).UniqueKeys := by
  cases h with
  | mapping nodup each =>
    obtain ⟨absent, others⟩ := List.nodup_cons.1 nodup
    refine ⟨each key v ?first, absent, .mapping others ?later⟩
    case first => rw [Fields.get?, if_pos rfl]
    case later =>
      intro other w found
      have apart : ¬ key = other := by
        rintro rfl
        rw [Fields.get?_eq_none_iff.2 absent] at found
        cases found
      apply each other w
      rw [Fields.get?, if_neg apart, found]

/-! ## Documents -/

mutual

/-- A repeated key of a document replaces what came under it before. -/
theorem ofJson : ∀ json : Json, (Value.ofJson json).UniqueKeys
  | .null => .scalar _
  | .bool _ => .scalar _
  | .number _ => .scalar _
  | .string _ => .scalar _
  | .array items => .list (ofItems items)
  | .object members => ofMembers members [] empty

theorem ofItems : ∀ items : List Json, ∀ v ∈ Value.ofItems items, v.UniqueKeys
  | [], _, member => nomatch member
  | item :: items, v, member => by
    rcases List.mem_cons.1 member with rfl | later
    · exact ofJson item
    · exact ofItems items v later

theorem ofMembers : ∀ (members : List (String × Json)) (entries : List (String × Value)),
    (Value.mapping entries).UniqueKeys → (Value.mapping (Value.ofMembers entries members)).UniqueKeys
  | [], _, h => h
  | (_, json) :: members, _, h => ofMembers members _ (h.alter (ofJson json))

end

/-! ## Writes -/

theorem slot? (h : v.UniqueKeys) {below : Value} (found : v.slot? step = some below) :
    below.UniqueKeys := by
  cases h with
  | scalar text => cases found
  | list each =>
    cases step with
    | key name => cases found
    | index i => exact each below (List.mem_of_getElem? found)
  | mapping nodup each => exact each step.text below found

theorem fill (h : v.UniqueKeys) (taken : v.refusal? step = none) {below : Value}
    (filled : below.UniqueKeys) : (v.fill step below).UniqueKeys := by
  rcases taken_cases taken with ⟨items, i, rfl, rfl, -⟩ | flat
  · cases h with
    | list each =>
      refine .list fun item member => ?_
      rcases List.mem_or_eq_of_mem_set member with old | rfl
      · exact each item old
      · exact filled
  · rw [fill_of_not_list flat]
    exact h.entries.alter filled

/-- A write leaves one entry for each key. -/
theorem assign (h : v.UniqueKeys) (path : Path) (written : new.UniqueKeys) :
    (v.assign path new).value.UniqueKeys := by
  induction path generalizing v with
  | nil => exact written
  | cons step path ih =>
    cases taken : v.refusal? step with
    | some reason =>
      rw [assign_cons_of_refusal taken]
      exact h
    | none =>
      rw [assign_cons_of_refusal_none taken]
      apply h.fill taken
      apply ih
      cases found : v.slot? step with
      | none => exact empty
      | some below => exact h.slot? found

end Value.UniqueKeys

end Stencil
