import Stencil.Proofs.Merging
import Stencil.Proofs.Reordering

/-!
Updates that do not get in each other's way.

Two updates are compatible if each key that both have holds an object on both sides, and these
objects are compatible again (`Json.Compatible`). Then it does not matter which one is merged
first, whatever the store holds and however it is reshaped by the first of them: each key is
written by one update only, or by two that are merged below it in either order. Only the order
of new keys tells which came first, and no page shows that (`Store.merge_commutes`).
-/

namespace Stencil

/-! ## Compatible updates -/

/-- Objects in which every shared key holds compatible objects on both sides. -/
inductive Json.Compatible : Json → Json → Prop
  | object {members others : List (String × Json)}
    (shared : ∀ key value other, (key, value) ∈ members → (key, other) ∈ others →
      Compatible value other) :
    Compatible (.object members) (.object others)

/-- Objects without a shared key are compatible. -/
theorem Json.Compatible.of_disjoint {members others : List (String × Json)}
    (apart : ∀ key ∈ Fields.keys members, key ∉ Fields.keys others) :
    Json.Compatible (.object members) (.object others) := by
  refine .object fun key value other here there => ?_
  exact absurd (List.mem_map_of_mem there) (apart key (List.mem_map_of_mem here))

namespace Value

/-! ## Both orders -/

/-- Merges commute if they do so under every key that both updates have. -/
theorem reordered_merge_mapping {first second : List (String × Value)}
    (ofFirst : (mapping first).UniqueKeys) (ofSecond : (mapping second).UniqueKeys)
    (shared : ∀ key v w, Fields.get? key first = some v → Fields.get? key second = some w →
      ∀ slot : Value, ((slot.merge v).merge w).Reordered ((slot.merge w).merge v))
    (target : Value) :
    ((target.merge (mapping first)).merge (mapping second)).Reordered
      ((target.merge (mapping second)).merge (mapping first)) := by
  rw [merge_mapping ofFirst, merge_mapping ofSecond, merge_mapping ofSecond, merge_mapping ofFirst,
    entries_mapping, entries_mapping]
  apply Reordered.of_fieldsGet?
  intro key
  rw [get?_mergeEntries ofSecond, get?_mergeEntries ofFirst, get?_mergeEntries ofFirst,
    get?_mergeEntries ofSecond]
  cases here : Fields.get? key first with
  | none => exact Reordered.rel_refl _
  | some v =>
    cases there : Fields.get? key second with
    | none => exact Reordered.rel_refl _
    | some w => exact .some (shared key v w here there _)

/-- Compatible updates commute in whatever they are merged into, but for the order of keys. -/
theorem reordered_merge_merge {first second : Json} (compatible : first.Compatible second)
    (target : Value) :
    ((target.merge (ofJson first)).merge (ofJson second)).Reordered
      ((target.merge (ofJson second)).merge (ofJson first)) := by
  induction compatible generalizing target with
  | @object members others shared ih =>
    refine reordered_merge_mapping (.ofJson (.object members)) (.ofJson (.object others)) ?_ target
    intro key v w here there
    obtain ⟨value, isMember, rfl⟩ := exists_member_of_get?_ofMembers here
    obtain ⟨other, isOther, rfl⟩ := exists_member_of_get?_ofMembers there
    exact ih key value other isMember isOther

end Value

/-! ## Stores -/

namespace Store

/-- Compatible updates can be merged in either order: both are done both times, the stores
differ in the order of keys at most, and every template gives the same page from both. -/
theorem merge_commutes (s : Store) {first second : Json} (compatible : first.Compatible second) :
    ((s.merge first).2 = .ok () ∧ ((s.merge first).1.merge second).2 = .ok ()) ∧
    ((s.merge second).2 = .ok () ∧ ((s.merge second).1.merge first).2 = .ok ()) ∧
    ((s.merge first).1.merge second).1.root.Reordered ((s.merge second).1.merge first).1.root ∧
    ∀ (t : Template) (options : Options),
      t.render ((s.merge first).1.merge second).1 options =
        t.render ((s.merge second).1.merge first).1 options := by
  cases compatible with
  | @object members others shared =>
    have same := Value.reordered_merge_merge (.object shared) s.root
    exact ⟨⟨rfl, rfl⟩, ⟨rfl, rfl⟩, same, fun t options => t.render_eq_of_reordered same options⟩

/-- Two updates that share a key where the store has a list, which the first of them replaces. -/
theorem merge_commutes_host :
    let s : Store := ⟨.mapping [("host", .list [.scalar "x"]), ("n", .scalar "1")]⟩
    let first : Json := .object [("host", .object [("ip", .string "2")]), ("b", .bool true)]
    let second : Json := .object [("c", .array []), ("host", .object [("name", .string "a")])]
    let forth := ((s.merge first).1.merge second).1
    let back := ((s.merge second).1.merge first).1
    first.Compatible second ∧ forth.root.Reordered back.root ∧
      Fields.keys forth.root.entries = ["host", "n", "b", "c"] ∧
      Fields.keys back.root.entries = ["host", "n", "c", "b"] := by
  intro s first second forth back
  have compatible : first.Compatible second := by
    refine .object fun key value other here there => ?_
    simp only [List.mem_cons, Prod.mk.injEq, List.not_mem_nil, or_false] at here there
    rcases here with ⟨rfl, rfl⟩ | ⟨rfl, rfl⟩
    · rcases there with ⟨same, -⟩ | ⟨-, rfl⟩
      · exact absurd same (by decide)
      · exact .of_disjoint (by decide)
    · rcases there with ⟨same, -⟩ | ⟨same, -⟩
      · exact absurd same (by decide)
      · exact absurd same (by decide)
  exact ⟨compatible, (merge_commutes s compatible).2.2.1, by rfl, by rfl⟩

end Store

end Stencil
