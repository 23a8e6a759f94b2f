import Mathlib.Data.Option.Defs
import Stencil.Proofs.Faces

/-!
The order of keys.

A store keeps the keys of its mappings in the order in which they first came. Nothing that
reads a store depends on this order. `Value.Reordered` says of two values that they differ in
nothing else, at any depth; they then hold `Reordered` values at every path, which in
particular have the same face, and so they give the same page: `Template.render_eq_of_reordered`.
-/

namespace Stencil

/-- With one entry for each key, the order of entries does not decide what a key has. -/
theorem Fields.get?_eq_of_perm {α : Type} {fields others : List (String × α)}
    (perm : fields.Perm others) (unique : (keys fields).Nodup) (key : String) :
    get? key fields = get? key others := by
  induction perm with
  | nil => rfl
  | cons field perm ih =>
    obtain ⟨k, v⟩ := field
    rw [get?, get?, ih (List.nodup_cons.1 unique).2]
  | swap second first rest =>
    obtain ⟨k, v⟩ := second
    obtain ⟨l, w⟩ := first
    have apart : k ≠ l := fun same =>
      (List.nodup_cons.1 unique).1 (same ▸ List.mem_cons_self)
    simp only [get?]
    by_cases here : k = key
    · have notThere : ¬ l = key := fun there => apart (here.trans there.symm)
      rw [if_pos here, if_pos here, if_neg notThere]
    · rw [if_neg here, if_neg here]
  | trans perm _ ihFirst ihSecond =>
    exact (ihFirst unique).trans (ihSecond ((perm.map Prod.fst).nodup_iff.1 unique))

/-- Equality up to the order of the keys of mappings, at any depth. -/
inductive Value.Reordered : Value → Value → Prop
  | scalar (text : String) : Reordered (.scalar text) (.scalar text)
  | list {items others : List Value} (length : items.length = others.length)
    (each : ∀ (i : Nat) (v w : Value), items[i]? = some v → others[i]? = some w → Reordered v w) :
    Reordered (.list items) (.list others)
  | mapping {entries others : List (String × Value)}
    (missing : ∀ key, Fields.get? key entries = none ↔ Fields.get? key others = none)
    (each : ∀ (key : String) (v w : Value), Fields.get? key entries = some v → Fields.get? key others = some w →
      Reordered v w) :
    Reordered (.mapping entries) (.mapping others)

namespace Value

variable {v w : Value}

/-- Options that are missing together have related contents. -/
theorem rel_of_missing_iff {r : Value → Value → Prop} {a b : Option Value}
    (missing : a = none ↔ b = none) (each : ∀ v w, a = some v → b = some w → r v w) :
    Option.Rel r a b := by
  cases a with
  | none =>
    cases missing.1 rfl
    exact .none
  | some v =>
    cases b with
    | none => cases missing.2 rfl
    | some w => exact .some (each v w rfl rfl)

namespace Reordered

theorem refl : ∀ v : Value, v.Reordered v
  | .scalar text => .scalar text
  | .list items => by
    refine .list rfl ?_
    intro i v w found same
    have member := List.mem_of_getElem? found
    cases found.symm.trans same
    exact refl v
  | .mapping entries => by
    refine .mapping (fun _ => Iff.rfl) ?_
    intro key v w found same
    have member := Fields.mem_of_get? found
    cases found.symm.trans same
    exact refl v
termination_by v => sizeOf v
decreasing_by
  · have smaller := List.sizeOf_lt_of_mem member
    simp only [Value.list.sizeOf_spec]
    omega
  · have smaller := List.sizeOf_lt_of_mem member
    simp only [Value.mapping.sizeOf_spec, Prod.mk.sizeOf_spec] at smaller ⊢
    omega

theorem rel_refl (found : Option Value) : Option.Rel Reordered found found := by
  cases found with
  | none => exact .none
  | some v => exact .some (refl v)

/-- Mappings whose keys have reordered values are reordered. -/
theorem of_fieldsGet? {entries others : List (String × Value)}
    (each : ∀ key, Option.Rel Reordered (Fields.get? key entries) (Fields.get? key others)) :
    Reordered (.mapping entries) (.mapping others) := by
  refine .mapping ?missing ?present
  case missing =>
    intro key
    have values := each key
    generalize Fields.get? key entries = a, Fields.get? key others = b at values
    cases values with
    | none => exact Iff.rfl
    | some same => exact iff_of_false nofun nofun
  case present =>
    intro key v w here there
    have values := each key
    rw [here, there] at values
    cases values with
    | some same => exact same

/-- To permute the entries of a mapping is to reorder it. -/
theorem of_perm {entries others : List (String × Value)} (perm : entries.Perm others)
    (unique : (Fields.keys entries).Nodup) : Reordered (.mapping entries) (.mapping others) := by
  apply of_fieldsGet?
  intro key
  rw [Fields.get?_eq_of_perm perm unique]
  exact rel_refl _

theorem face_eq (h : v.Reordered w) : v.face = w.face := by
  cases h with
  | scalar text => rfl
  | list length each => exact congrArg Face.list length
  | mapping missing each => rfl

/-- Items of lists are compared place by place. -/
theorem getElem? {items others : List Value} (h : Reordered (.list items) (.list others)) (i : Nat) :
    Option.Rel Reordered items[i]? others[i]? := by
  cases h with
  | list length each =>
    have missing : items[i]? = none ↔ others[i]? = none := by
      rw [List.getElem?_eq_none_iff, List.getElem?_eq_none_iff, length]
    exact rel_of_missing_iff missing (each i)

theorem fieldsGet? {entries others : List (String × Value)}
    (h : Reordered (.mapping entries) (.mapping others)) (key : String) :
    Option.Rel Reordered (Fields.get? key entries) (Fields.get? key others) := by
  cases h with
  | mapping missing each => exact rel_of_missing_iff (missing key) (each key)

theorem getKey? (h : v.Reordered w) (key : String) :
    Option.Rel Reordered (v.getKey? key) (w.getKey? key) := by
  induction h with
  | scalar text => exact .none
  | mapping missing each => exact fieldsGet? (.mapping missing each) key
  | @list items others length each ih =>
    cases items with
    | nil =>
      cases others with
      | nil => exact .none
      | cons w others => cases length
    | cons v items =>
      cases others with
      | nil => cases length
      | cons w others => exact ih 0 v w rfl rfl

theorem child? (h : v.Reordered w) (step : Step) :
    Option.Rel Reordered (v.child? step) (w.child? step) := by
  cases step with
  | key name => exact h.getKey? name
  | index i =>
    cases h with
    | scalar text => exact .none
    | list length each => exact getElem? (.list length each) i
    | mapping missing each => exact fieldsGet? (.mapping missing each) (toString i)

theorem get? (h : v.Reordered w) (path : Path) :
    Option.Rel Reordered (v.get? path) (w.get? path) := by
  induction path generalizing v w with
  | nil => exact .some h
  | cons step path ih =>
    rw [Value.get?, Value.get?]
    have children := h.child? step
    generalize v.child? step = a, w.child? step = b at children ⊢
    cases children with
    | none => exact .none
    | some below => exact ih below

end Reordered

end Value

/-- Stores that differ in the order of keys at most give the same page. -/
theorem Template.render_eq_of_reordered (t : Template) {s other : Store}
    (same : s.root.Reordered other.root) (options : Options) :
    t.render s options = t.render other options := by
  have territory : Territory (t.outline.tags.map (·.name)) s fun _ => True :=
    ⟨trivial, fun _ _ => trivial, fun _ _ _ => trivial, fun _ _ _ _ => trivial,
      fun _ _ _ _ _ => trivial⟩
  apply t.render_eq_of_face_eq territory
  intro path _
  have values := same.get? path
  rw [Store.get?, Store.get?]
  generalize s.root.get? path = a, other.root.get? path = b at values ⊢
  cases values with
  | none => rfl
  | some below => exact congrArg some below.face_eq

end Stencil
