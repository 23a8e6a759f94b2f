import Stencil.Proofs.Merging
import Stencil.Proofs.Surroundings

/-!
A write as an update.

A value can be put at the end of a path in two ways. A write goes down step by step, makes
what is missing and overwrites scalars. A merge takes the value at the end of a chain of
objects with one key each. The two do the same as long as they meet no list in front of the
end of the path: a write enters the list or is refused by it, and a merge puts a mapping in
its place.

* `Value.assign_eq_merge_nest_iff`: when a write is a merge, for values.
* `Store.set_eq_merge_chain_iff`: the same for a store, dotted text and a document.
-/

namespace Stencil

/-- A change of what is under a key sets it to what the change makes of it. -/
theorem Fields.alter_eq_insert {α : Type} (key : String) (f : Option α → α)
    (fields : List (String × α)) :
    Fields.alter key f fields = Fields.insert key (f (Fields.get? key fields)) fields := by
  induction fields with
  | nil => rfl
  | cons field rest ih =>
    obtain ⟨k, v⟩ := field
    unfold Fields.insert at ih ⊢
    by_cases same : k = key
    · rw [alter, alter, get?, if_pos same, if_pos same, if_pos same]
    · rw [alter, alter, get?, if_neg same, if_neg same, if_neg same, ih]

theorem Fields.insert_inj {α : Type} {key : String} {v w : α} {fields : List (String × α)} :
    Fields.insert key v fields = Fields.insert key w fields ↔ v = w := by
  refine ⟨fun same => ?_, fun same => congrArg (Fields.insert key · fields) same⟩
  have found := congrArg (Fields.get? key) same
  rw [insert, insert, get?_alter, get?_alter, if_pos rfl, if_pos rfl] at found
  exact Option.some.inj found

/-- A document at the end of a chain of objects, each with one key of a list. -/
def Json.chain (keys : List String) (leaf : Json) : Json :=
  match keys with
  | [] => leaf
  | key :: keys => .object [(key, chain keys leaf)]

namespace Value

theorem ofJson_chain (keys : List String) (leaf : Json) :
    ofJson (.chain keys leaf) = (ofJson leaf).nest keys := by
  induction keys with
  | nil => rfl
  | cons key keys ih =>
    rw [nest, ← ih]
    rfl

/-- Only objects become mappings. -/
theorem isMapping_ofJson {leaf : Json} (flat : ∀ members, leaf ≠ .object members) :
    (ofJson leaf).isMapping = false := by
  cases leaf with
  | object members => exact absurd rfl (flat members)
  | _ => rfl

variable {v new : Value} {step : Step} {path : Path}

theorem refusal?_of_not_list (flat : v.isList = false) (step : Step) : v.refusal? step = none := by
  cases v with
  | list items => cases flat
  | _ => rfl

/-! ## Lists on the way -/

/-- Whether a path leads to no list before its end. -/
def ClearOfLists (v : Value) (path : Path) : Prop :=
  ∀ front, front <+: path → front ≠ path → ∀ there, v.get? front = some there →
    there.isList = false

theorem clearOfLists_nil (v : Value) : v.ClearOfLists [] := by
  intro front isFront other
  exact absurd (List.prefix_nil.1 isFront) other

theorem clearOfLists_cons_iff :
    v.ClearOfLists (step :: path) ↔
      v.isList = false ∧ ∀ below, v.child? step = some below → below.ClearOfLists path := by
  constructor
  · intro clear
    refine ⟨clear [] List.nil_prefix (List.cons_ne_nil _ _).symm v rfl, ?_⟩
    intro below found front isFront other there reached
    refine clear (step :: front) ((List.prefix_cons_inj step).2 isFront) ?_ there ?_
    · exact fun same => other (List.cons.inj same).2
    · rw [get?, found]
      exact reached
  · rintro ⟨flat, clear⟩ front isFront other there reached
    rcases List.prefix_cons_iff.1 isFront with rfl | ⟨tail, rfl, isTail⟩
    · cases reached
      exact flat
    · obtain ⟨below, found, rest⟩ := Option.bind_eq_some_iff.1 reached
      exact clear below found tail isTail (fun same => other (congrArg _ same)) there rest

/-- Below an empty mapping there is nothing, and so no list. -/
theorem clearOfLists_empty (path : Path) : (mapping []).ClearOfLists path := by
  cases path with
  | nil => exact clearOfLists_nil _
  | cons step path =>
    refine clearOfLists_cons_iff.2 ⟨rfl, fun below found => ?_⟩
    rw [child?_mapping] at found
    cases found

/-- What counts for the way below a step is what is there, or the empty mapping that is made. -/
theorem clearOfLists_getD_iff (slot : Option Value) :
    (slot.getD (mapping [])).ClearOfLists path ↔
      ∀ below, slot = some below → below.ClearOfLists path := by
  cases slot with
  | none => exact iff_of_true (clearOfLists_empty path) nofun
  | some there => simp

instance decidableClearOfLists : (path : Path) → (v : Value) → Decidable (v.ClearOfLists path)
  | [], v => .isTrue (clearOfLists_nil v)
  | step :: path, v =>
    have := decidableClearOfLists path
    decidable_of_iff (v.isList = false ∧ ∀ below ∈ v.child? step, below.ClearOfLists path)
      clearOfLists_cons_iff.symm

/-! ## Merging a chain -/

theorem empty_merge_nest (flat : new.isMapping = false) (keys : List String) :
    (mapping []).merge (new.nest keys) = new.nest keys := by
  cases keys with
  | nil => exact merge_of_not_isMapping flat _
  | cons key keys => rfl

/-- The merge of a chain goes on below its first key. -/
theorem merge_nest_cons (flat : new.isMapping = false) (v : Value) (key : String)
    (keys : List String) :
    v.merge (new.nest (key :: keys)) =
      mapping (Fields.insert key
        (((Fields.get? key v.entries).getD (mapping [])).merge (new.nest keys)) v.entries) := by
  have merged : v.merge (new.nest (key :: keys)) =
      mapping (Fields.alter key (·.elim (new.nest keys) (·.merge (new.nest keys))) v.entries) := by
    cases v with
    | mapping entries => exact congrArg mapping (mergeEntries_cons entries key _ [])
    | scalar text => rfl
    | list items => rfl
  rw [merged, Fields.alter_eq_insert]
  cases Fields.get? key v.entries with
  | some there => rfl
  | none => rw [Option.elim_none, Option.getD_none, empty_merge_nest flat]

/-- A write of anything but a mapping is the merge of a chain exactly if its path leads to no
list before its end. -/
theorem assign_eq_merge_nest_iff (flat : new.isMapping = false) (v : Value) (path : Path) :
    v.assign path new = ⟨v.merge (new.nest (path.map Step.text)), none⟩ ↔ v.ClearOfLists path := by
  induction path generalizing v with
  | nil =>
    refine iff_of_true ?_ (clearOfLists_nil v)
    rw [List.map_nil, nest, merge_of_not_isMapping flat]
    cases v <;> rfl
  | cons step path ih =>
    rw [List.map_cons, clearOfLists_cons_iff]
    cases isList : v.isList with
    | true =>
      -- The write keeps the list, or what is left of it, and the merge makes a mapping.
      refine iff_of_false (fun same => ?_) (fun clear => Bool.noConfusion clear.1)
      have kept := isMapping_assign v step path new
      rw [same, isList, merge_nest_cons flat] at kept
      cases kept
    | false =>
      have taken := refusal?_of_not_list isList step
      rw [assign_cons_of_refusal_none taken, fill_of_not_list isList, merge_nest_cons flat,
        slot?_eq_child? taken, child?_of_not_list isList, Attempt.mk.injEq, mapping.injEq,
        Fields.insert_inj, ← Attempt.mk.injEq, ih, clearOfLists_getD_iff]
      simp

end Value

/-! ## Stores -/

namespace Store

theorem set_eq_iff {s after : Store} {dotted : String} {value : Value} :
    s.set dotted value = (after, .ok ()) ↔
      s.root.assign (.parse dotted) value = ⟨after.root, none⟩ := by
  obtain ⟨root⟩ := after
  rw [set]
  rcases s.root.assign (.parse dotted) value with ⟨written, _ | reason⟩ <;> simp

/-- What is no object is written along a path, exactly as the merge of the chain of its keys
would do it, if and only if no value on the way is a list. -/
theorem set_eq_merge_chain_iff (s : Store) {dotted : String} (steps : Path.parse dotted ≠ [])
    {leaf : Json} (flat : ∀ members, leaf ≠ .object members) :
    ((s.set dotted (.ofJson leaf)).2 = .ok () ∧
        s.set dotted (.ofJson leaf) = s.merge (.chain ((Path.parse dotted).map Step.text) leaf)) ↔
      ∀ front, front <+: Path.parse dotted → front ≠ Path.parse dotted →
        ∀ value, s.get? front = some value → value.isList = false := by
  have merged : s.merge (.chain ((Path.parse dotted).map Step.text) leaf) =
      (⟨s.root.merge ((Value.ofJson leaf).nest ((Path.parse dotted).map Step.text))⟩, .ok ()) := by
    rw [← Value.ofJson_chain]
    cases path : Path.parse dotted with
    | nil => exact absurd path steps
    | cons step path => rfl
  have written := Value.assign_eq_merge_nest_iff (Value.isMapping_ofJson flat) s.root (.parse dotted)
  rw [merged, set_eq_iff, written]
  refine ⟨And.right, fun clear => ⟨?_, clear⟩⟩
  rw [set_eq_ok_iff, written.2 clear]

/-- Through mappings, one of them under a number, a scalar and nothing, to the end. -/
theorem set_eq_merge_chain_hosts :
    let s : Store := ⟨.mapping [("hosts", .mapping [("7", .scalar "up"), ("a", .list [])])]⟩
    let leaf : Json := .array [.null]
    Path.parse "hosts.7.pins.0" ≠ [] ∧ (∀ members, leaf ≠ .object members) ∧
      (s.set "hosts.7.pins.0" (.ofJson leaf)).2 = .ok () ∧
      s.set "hosts.7.pins.0" (.ofJson leaf) =
        s.merge (.object [("hosts", .object [("7", .object [("pins", .object [("0", leaf)])])])]) := by
  intro s leaf
  have steps : Path.parse "hosts.7.pins.0" ≠ [] := by decide +kernel
  have flat : ∀ members, leaf ≠ .object members := nofun
  have clear : s.root.ClearOfLists (.parse "hosts.7.pins.0") := by decide +kernel
  obtain ⟨written, same⟩ := (set_eq_merge_chain_iff s steps flat).2 clear
  exact ⟨steps, flat, written, same⟩

end Store

end Stencil
