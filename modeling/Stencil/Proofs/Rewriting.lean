import Stencil.Proofs.Refusal

/-!
Writing and reading along one path.

Reader and writer go by different rules: a key of a list reads the first item but is
refused by a write, and a scalar ends a read but becomes a mapping under a write. They
still agree on what a write leaves behind. A step that was taken is read back from where
it was filled in (`Value.child?_fill`), and a step that a read takes is one that a write
takes to the same place unless the write is refused there (`Value.slot?_eq_child?`).

* `Value.get?_assign`: what was written is read.
* `Value.assign_of_get?`: writing what is read changes nothing.
* `Value.assign_assign`: of two writes along a path the last one counts.
* `Store.set_laws`: all three, for a store and dotted text.
-/

namespace Stencil

theorem Fields.insert_insert {α : Type} (key : String) (first last : α)
    (fields : List (String × α)) :
    Fields.insert key last (Fields.insert key first fields) = Fields.insert key last fields := by
  induction fields with
  | nil => simp [Fields.insert, Fields.alter]
  | cons field rest ih =>
    obtain ⟨k, v⟩ := field
    unfold Fields.insert at ih ⊢
    by_cases hk : k = key
    · simp [Fields.alter, hk]
    · simp [Fields.alter, hk, ih]

namespace Value

/-! ## One step -/

variable {v : Value} {step : Step}

/-- A value that takes a step is a list with an item there, or no list at all. -/
theorem taken_cases (taken : v.refusal? step = none) :
    (∃ items i, v = list items ∧ step = .index i ∧ i < items.length) ∨ v.isList = false := by
  cases v with
  | scalar text => exact .inr rfl
  | mapping entries => exact .inr rfl
  | list items =>
    cases step with
    | key name => cases taken
    | index i =>
      simp only [refusal?, ite_eq_left_iff, reduceCtorEq, imp_false, Decidable.not_not] at taken
      exact .inl ⟨items, i, rfl, rfl, taken⟩

/-- A step below anything but a list fills in an entry of a mapping. -/
theorem fill_of_not_list (h : v.isList = false) (step : Step) (below : Value) :
    v.fill step below = mapping (Fields.insert step.text below v.entries) := by
  cases v with
  | list items => cases h
  | scalar text => rfl
  | mapping entries => rfl

/-- What has been filled in one step below a value is read there. -/
theorem child?_fill (taken : v.refusal? step = none) (below : Value) :
    (v.fill step below).child? step = some below := by
  rcases taken_cases taken with ⟨items, i, rfl, rfl, inside⟩ | flat
  · exact List.getElem?_set_self inside
  · rw [fill_of_not_list flat, child?_mapping, Fields.insert, Fields.get?_alter, if_pos rfl]

/-- A value that has been filled takes the step again. -/
theorem refusal?_fill (taken : v.refusal? step = none) (below : Value) :
    (v.fill step below).refusal? step = none := by
  rcases taken_cases taken with ⟨items, i, rfl, rfl, inside⟩ | flat
  · rw [fill, refusal?, List.length_set, if_pos inside]
  · rw [fill_of_not_list flat]
    rfl

theorem fill_fill (taken : v.refusal? step = none) (first last : Value) :
    (v.fill step first).fill step last = v.fill step last := by
  rcases taken_cases taken with ⟨items, i, rfl, rfl, -⟩ | flat
  · exact congrArg list (List.set_set ..)
  · rw [fill_of_not_list flat, fill_of_not_list flat, fill_of_not_list rfl]
    exact congrArg mapping (Fields.insert_insert step.text first last v.entries)

/-- Where a write takes a step, a read takes it to the same place. -/
theorem slot?_eq_child? (taken : v.refusal? step = none) : v.slot? step = v.child? step := by
  cases v with
  | list items =>
    cases step with
    | key name => cases taken
    | index i => rfl
  | scalar text => cases step <;> rfl
  | mapping entries => cases step <;> rfl

/-! ## Whole paths -/

/-- A write that is not refused can be read back. -/
theorem get?_assign {path : Path} {new : Value} (written : (v.assign path new).refused = none) :
    (v.assign path new).value.get? path = some new := by
  induction path generalizing v with
  | nil => rfl
  | cons step path ih =>
    cases taken : v.refusal? step with
    | some reason =>
      rw [assign_cons_of_refusal taken] at written
      cases written
    | none =>
      rw [assign_cons_of_refusal_none taken] at written ⊢
      rw [get?, child?_fill taken]
      exact ih written

/-- Writing what is read changes nothing. -/
theorem assign_of_get? {path : Path} {new : Value} (read : v.get? path = some new)
    (written : (v.assign path new).refused = none) : (v.assign path new).value = v := by
  induction path generalizing v with
  | nil =>
    cases read
    rfl
  | cons step path ih =>
    cases taken : v.refusal? step with
    | some reason =>
      rw [assign_cons_of_refusal taken] at written
      cases written
    | none =>
      obtain ⟨below, found, readBelow⟩ := Option.bind_eq_some_iff.1 read
      have here := (slot?_eq_child? taken).trans found
      rw [assign_cons_of_refusal_none taken, here, Option.getD_some] at written ⊢
      rw [ih readBelow written]
      exact fill_of_slot? here

/-- Of two writes along a path the last one counts, whether or not it is refused. -/
theorem assign_assign (v : Value) (path : Path) (first last : Value) :
    (v.assign path first).value.assign path last = v.assign path last := by
  induction path generalizing v with
  | nil => rfl
  | cons step path ih =>
    cases taken : v.refusal? step with
    | some reason => rw [assign_cons_of_refusal taken path first]
    | none =>
      -- Both writes take the step to the same value, which the first has filled in.
      have again := refusal?_fill taken (((v.slot? step).getD (mapping [])).assign path first).value
      have filled := (slot?_eq_child? again).trans (child?_fill taken _)
      rw [assign_cons_of_refusal_none taken, assign_cons_of_refusal_none taken,
        assign_cons_of_refusal_none again, filled, Option.getD_some, ih, fill_fill taken]

end Value

namespace Store

theorem set_eq_ok_iff {s : Store} {dotted : String} {value : Value} :
    (s.set dotted value).2 = .ok () ↔
      (s.root.assign (.parse dotted) value).refused = none := by
  rw [set]
  cases (s.root.assign (.parse dotted) value).refused <;> simp

/-- The laws of reading and writing along one dotted path. What has been written is
read; writing what is read leaves the store exactly as it was; and a write makes up for
every earlier one along the path, of which it has the same outcome in any case: it is done
unless a list is in the way. -/
theorem set_laws (s : Store) (dotted : String) (first last : Value) :
    ((s.set dotted last).2 = .ok () → (s.set dotted last).1.getDotted? dotted = some last) ∧
      (s.getDotted? dotted = some last → (s.set dotted last).2 = .ok () →
        (s.set dotted last).1 = s) ∧
      (s.set dotted first).1.set dotted last = s.set dotted last ∧
      (s.set dotted first).2 = (s.set dotted last).2 ∧
      ((s.set dotted last).2 = .ok () ↔ s.root.obstacle? (.parse dotted) = none) := by
  refine ⟨?read, ?unchanged, ?overwritten, ?outcome, ?done⟩
  case read =>
    intro written
    exact Value.get?_assign (set_eq_ok_iff.1 written)
  case unchanged =>
    intro read written
    exact congrArg Store.mk (Value.assign_of_get? read (set_eq_ok_iff.1 written))
  case overwritten =>
    simp only [set, Value.assign_assign]
  case outcome =>
    simp only [set, Value.refused_assign]
  case done =>
    rw [set_eq_ok_iff, Value.refused_assign]

/-- An item of a list inside a mapping, first written as it is and then anew. -/
theorem set_laws_item :
    let s : Store := ⟨.mapping [("up", .scalar "1"),
      ("rooms", .list [.mapping [("name", .scalar "hall")], .scalar "attic"])]⟩
    (s.set "rooms.0.name" (.scalar "hall")).2 = .ok () ∧
      s.getDotted? "rooms.0.name" = some (.scalar "hall") ∧
      (s.set "rooms.0.name" (.scalar "hall")).1 = s ∧
      (s.set "rooms.0.name" (.scalar "loft")).2 = .ok () ∧
      (s.set "rooms.0.name" (.scalar "loft")).1.getDotted? "rooms.0.name" =
        some (.scalar "loft") ∧
      (s.set "rooms.0.name" (.scalar "hall")).1.set "rooms.0.name" (.scalar "loft") =
        s.set "rooms.0.name" (.scalar "loft") := by
  intro s
  obtain ⟨-, unchanged, -⟩ := set_laws s "rooms.0.name" (.scalar "loft") (.scalar "hall")
  obtain ⟨read, -, overwritten, -⟩ := set_laws s "rooms.0.name" (.scalar "hall") (.scalar "loft")
  have old : (s.set "rooms.0.name" (.scalar "hall")).2 = .ok () := by rfl
  have there : s.getDotted? "rooms.0.name" = some (.scalar "hall") := by rfl
  have new : (s.set "rooms.0.name" (.scalar "loft")).2 = .ok () := by rfl
  exact ⟨old, there, unchanged there old, new, read new, overwritten⟩

end Store

end Stencil
