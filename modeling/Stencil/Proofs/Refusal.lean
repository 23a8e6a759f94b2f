import Stencil.Store

/-!
Writes that are refused.

A write changes the store as it goes: it makes mappings, replaces scalars by mappings,
and only then looks at the next step. Nothing is rolled back when a step is refused. That
nothing needs to be is a matter of order. What a write makes is an empty mapping, and
below an empty mapping every step can be taken (`Value.refused_assign_empty`); so all
steps in front of a refused one lead through values that were there before.

* `Value.assign_eq_of_refused`: a refused write leaves its value as it was.
* `Value.refused_assign`: whether a write is refused is read off the value before it.
* `Store.set_eq_of_refused`: both, for a store and dotted text.
-/

namespace Stencil

/-! ## Writing what is there -/

/-- Writing under a key what stands there already changes nothing, not even the order. -/
theorem Fields.insert_of_get? {α : Type} {key : String} {value : α}
    {fields : List (String × α)} (h : Fields.get? key fields = some value) :
    Fields.insert key value fields = fields := Fields.alter_of_get? h rfl

namespace Value

/-! ## One step of a write -/

/-- What a write finds one step below a value: the item of a list, or the entry of a
mapping. Unlike a read it does not take the first item of a list for the list. -/
def slot? : Value → Step → Option Value
  | scalar _, _ => none
  | list _, .key _ => none
  | list items, .index i => items[i]?
  | mapping entries, step => Fields.get? step.text entries

/-- Why a value refuses a step. Only lists refuse any. -/
def refusal? : Value → Step → Option StepError
  | list _, .key name => some (.keyOfList name)
  | list items, .index i =>
    if i < items.length then none else some (.indexOutOfRange i items.length)
  | _, _ => none

/-- A value with another value one step below it. -/
def fill (v : Value) (step : Step) (below : Value) : Value :=
  match v, step with
  | list items, .index i => list (items.set i below)
  | v, step => mapping (Fields.insert step.text below v.entries)

theorem assign_cons_of_refusal {v : Value} {step : Step} {e : StepError}
    (h : v.refusal? step = some e) (path : Path) (new : Value) :
    v.assign (step :: path) new = ⟨v, some e⟩ := by
  cases v with
  | scalar text => cases h
  | mapping entries => cases h
  | list items =>
    cases step with
    | key name => cases h; rfl
    | index i =>
      simp only [refusal?] at h
      split at h
      · cases h
      · cases h
        have beyond : items[i]? = none := List.getElem?_eq_none (Nat.le_of_not_lt ‹_›)
        rw [assign, beyond]

/-- A step that is not refused is taken, into what stands there or into a new mapping. -/
theorem assign_cons_of_refusal_none {v : Value} {step : Step} (h : v.refusal? step = none)
    (path : Path) (new : Value) :
    v.assign (step :: path) new =
      ⟨v.fill step (((v.slot? step).getD (mapping [])).assign path new).value,
        (((v.slot? step).getD (mapping [])).assign path new).refused⟩ := by
  cases v with
  | scalar text => cases step <;> rfl
  | mapping entries => cases step <;> rfl
  | list items =>
    cases step with
    | key name => cases h
    | index i =>
      simp only [refusal?] at h
      split at h
      · have inside : items[i]? = some items[i] := List.getElem?_eq_getElem ‹_›
        rw [assign, inside, slot?, inside]
        rfl
      · cases h

theorem fill_of_slot? {v below : Value} {step : Step} (h : v.slot? step = some below) :
    v.fill step below = v := by
  cases v with
  | scalar text => cases h
  | mapping entries => exact congrArg mapping (Fields.insert_of_get? h)
  | list items =>
    cases step with
    | key name => cases h
    | index i =>
      obtain ⟨bound, rfl⟩ := List.getElem?_eq_some_iff.1 h
      exact congrArg list (List.set_getElem_self bound)

/-! ## Whole writes -/

/-- Below a new mapping nothing is refused: each step makes the next mapping. -/
theorem refused_assign_empty (path : Path) (new : Value) :
    ((mapping []).assign path new).refused = none := by
  induction path with
  | nil => rfl
  | cons step path ih =>
    rw [assign_cons_of_refusal_none rfl]
    exact ih

/-- A refused write leaves its value as it was. -/
theorem assign_eq_of_refused {v : Value} {path : Path} {new : Value} {e : StepError}
    (h : (v.assign path new).refused = some e) : (v.assign path new).value = v := by
  induction path generalizing v with
  | nil => cases h
  | cons step path ih =>
    cases here : v.refusal? step with
    | some reason => rw [assign_cons_of_refusal here]
    | none =>
      rw [assign_cons_of_refusal_none here] at h ⊢
      cases found : v.slot? step with
      | none =>
        -- The step makes a mapping, so what follows cannot have been refused.
        rw [found, Option.getD_none, refused_assign_empty] at h
        cases h
      | some below =>
        rw [found, Option.getD_some] at h
        rw [Option.getD_some, ih h]
        exact fill_of_slot? found

/-- Why a write along a path is refused, found by reading alone: the walk goes through
what is there, and ends at the first step that the value it has come to refuses, or that
finds nothing. -/
def obstacle? (v : Value) : Path → Option StepError
  | [] => none
  | step :: path => (v.refusal? step).or ((v.slot? step).bind (·.obstacle? path))

/-- Whether a write is refused, and why, is settled before anything is written. -/
theorem refused_assign (v : Value) (path : Path) (new : Value) :
    (v.assign path new).refused = v.obstacle? path := by
  induction path generalizing v with
  | nil => rfl
  | cons step path ih =>
    cases here : v.refusal? step with
    | some reason => rw [assign_cons_of_refusal here, obstacle?, here, Option.some_or]
    | none =>
      rw [assign_cons_of_refusal_none here, obstacle?, here, Option.none_or]
      cases v.slot? step with
      | none => exact refused_assign_empty path new
      | some below => exact ih below

end Value

namespace Store

/-- A refused write leaves the store exactly as it was, and the reason can be read off
that store: on the way to the refused step the write only passed what was there. -/
theorem set_eq_of_refused {s : Store} {dotted : String} {value : Value} {e : DataError}
    (refused : (s.set dotted value).2 = .error e) :
    (s.set dotted value).1 = s ∧
      ∃ reason, s.root.obstacle? (.parse dotted) = some reason ∧
        e = .notWritable reason dotted := by
  cases outcome : (s.root.assign (.parse dotted) value).refused with
  | none =>
    simp only [set, outcome] at refused
    cases refused
  | some reason =>
    simp only [set, outcome, Except.error.injEq] at refused
    refine ⟨?_, reason, ?_, refused.symm⟩
    · exact congrArg Store.mk (Value.assign_eq_of_refused outcome)
    · rw [← Value.refused_assign s.root (.parse dotted) value]
      exact outcome

/-- Past the end of a list inside a list, behind a mapping and a scalar that stay. -/
theorem set_eq_of_refused_nested :
    let s : Store := ⟨.mapping [("n", .scalar "1"),
      ("rooms", .list [.mapping [("pins", .list [.scalar "a"])]])]⟩
    (s.set "rooms.0.pins.2.x" (.scalar "b")).2 =
        .error (.notWritable (.indexOutOfRange 2 1) "rooms.0.pins.2.x") ∧
      (s.set "rooms.0.pins.2.x" (.scalar "b")).1 = s ∧
        ∃ reason, s.root.obstacle? (.parse "rooms.0.pins.2.x") = some reason ∧
          (.notWritable (.indexOutOfRange 2 1) "rooms.0.pins.2.x" : DataError) =
            .notWritable reason "rooms.0.pins.2.x" := by
  intro s
  have refused : (s.set "rooms.0.pins.2.x" (.scalar "b")).2 =
      .error (.notWritable (.indexOutOfRange 2 1) "rooms.0.pins.2.x") := by rfl
  exact ⟨refused, set_eq_of_refused refused⟩

end Store

end Stencil
