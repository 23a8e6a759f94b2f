import Mathlib.Data.List.Infix
import Stencil.Proofs.Dotted
import Stencil.Store

/-!
The root of a store under updates.

A store starts as a mapping, and a merge leaves it one. A write with a dotted path
makes mappings on its way, so it too keeps the root a mapping, with one exception:
dotted text of nothing but dots has no step, and the value takes the place of the
root. `Store.mapping_throughout_iff` says that there is no other way to lose it.
-/

namespace Stencil

/-! ## Single updates -/

def Value.isMapping (v : Value) : Bool := v.mapping?.isSome

namespace Value

/-- A write below the root keeps a list, and makes a mapping of anything else. -/
theorem isMapping_assign (v : Value) (step : Step) (path : Path) (new : Value) :
    (v.assign (step :: path) new).value.isMapping = !v.isList := by
  cases v with
  | list items =>
    cases step with
    | key name => rfl
    | index i =>
      rw [assign]
      cases items[i]? <;> rfl
  | scalar text => cases step <;> rfl
  | mapping entries => cases step <;> rfl

theorem isMapping_merge (v : Value) (incoming : List (String × Value)) :
    (v.merge (.mapping incoming)).isMapping = true := by
  cases v <;> simp [merge, isMapping, mapping?]

theorem isList_of_isMapping {v : Value} (h : v.isMapping = true) : v.isList = false := by
  cases v with
  | mapping entries => rfl
  | scalar text => cases h
  | list items => cases h

end Value

/-- A call that changes a store. -/
inductive Update
  | set (dotted : String) (value : Value)
  | merge (update : Json)

/-- A call loses the root if it puts anything but a mapping in its place. -/
def Update.losesRoot : Update → Prop
  | .set dotted value => (∀ c ∈ dotted.toList, c = '.') ∧ value.isMapping = false
  | .merge _ => False

namespace Store

/-- The store after an update, whether or not the update is refused. -/
def apply (s : Store) : Update → Store
  | .set dotted value => (s.set dotted value).1
  | .merge update => (s.merge update).1

/-- The store after a sequence of updates. -/
def run (s : Store) (updates : List Update) : Store := updates.foldl apply s

/-- A store that no update has reached yet. -/
inductive Fresh : Store → Prop
  | empty : Fresh .empty
  | ofJson {json : Json} {s : Store} (built : Store.ofJson json = .ok s) : Fresh s

theorem Fresh.isMapping {s : Store} (h : s.Fresh) : s.root.isMapping = true := by
  cases h with
  | empty => rfl
  | @ofJson json _ built =>
    cases json with
    | object members =>
      cases built
      rfl
    | _ => cases built

theorem root_set_of_dots {dotted : String} (dots : ∀ c ∈ dotted.toList, c = '.') (s : Store)
    (value : Value) : (s.set dotted value).1.root = value := by
  rw [set, (Path.parse_eq_nil_iff dotted).2 dots]
  cases s.root <;> rfl

theorem root_set_of_steps {dotted : String} {step : Step} {path : Path}
    (steps : Path.parse dotted = step :: path) (s : Store) (value : Value) :
    (s.set dotted value).1.root.isMapping = !s.root.isList := by
  rw [set, steps]
  exact Value.isMapping_assign s.root step path value

/-- From a mapping, one update leads to a mapping again unless it loses the root. -/
theorem isMapping_apply_iff {s : Store} (h : s.root.isMapping = true) (update : Update) :
    (s.apply update).root.isMapping = true ↔ ¬ update.losesRoot := by
  cases update with
  | merge json =>
    refine ⟨fun _ => id, fun _ => ?_⟩
    cases json with
    | object members => exact Value.isMapping_merge s.root _
    | _ => exact h
  | set dotted value =>
    rcases path : Path.parse dotted with _ | ⟨step, rest⟩
    · have dots := (Path.parse_eq_nil_iff dotted).1 path
      have replaced : (s.apply (.set dotted value)).root = value := root_set_of_dots dots s value
      rw [replaced, Update.losesRoot, not_and, Bool.not_eq_false]
      exact ⟨fun kept _ => kept, fun kept => kept dots⟩
    · have kept := root_set_of_steps path s value
      rw [Value.isList_of_isMapping h] at kept
      refine ⟨fun _ loses => ?_, fun _ => kept⟩
      cases path.symm.trans ((Path.parse_eq_nil_iff dotted).2 loses.1)

/-! ## Runs -/

/-- A run from a mapping passes through mappings only, exactly if no update in it loses
the root. -/
theorem isMapping_run_iff {s : Store} (h : s.root.isMapping = true) (updates : List Update) :
    (∀ front, front <+: updates → (s.run front).root.isMapping = true) ↔
      ∀ update ∈ updates, ¬ update.losesRoot := by
  induction updates generalizing s with
  | nil =>
    constructor
    · intro _ update member
      cases member
    · intro _ front isFront
      rw [List.prefix_nil.1 isFront]
      exact h
  | cons update updates ih =>
    rw [List.forall_mem_cons]
    constructor
    · intro throughout
      have one := throughout [update] ⟨updates, rfl⟩
      refine ⟨(isMapping_apply_iff h update).1 one, (ih one).1 ?_⟩
      intro front isFront
      exact throughout (update :: front) ((List.prefix_cons_inj update).2 isFront)
    · rintro ⟨here, later⟩ front isFront
      have one := (isMapping_apply_iff h update).2 here
      rcases List.prefix_cons_iff.1 isFront with rfl | ⟨tail, rfl, isTail⟩
      · exact h
      · exact (ih one).2 later tail isTail

/-- From a fresh store on, the root stays a mapping exactly if no call writes anything
but a mapping under dotted text of nothing but dots. -/
theorem mapping_throughout_iff {start : Store} (fresh : start.Fresh) (updates : List Update) :
    (∀ front, front <+: updates → (start.run front).root.isMapping = true) ↔
      ∀ dotted value, .set dotted value ∈ updates → (∀ c ∈ dotted.toList, c = '.') →
        value.isMapping = true := by
  rw [isMapping_run_iff fresh.isMapping]
  constructor
  · intro none dotted value member dots
    by_contra other
    exact none _ member ⟨dots, Bool.eq_false_iff.2 other⟩
  · intro mappings update member loses
    cases update with
    | merge json => exact loses
    | set dotted value =>
      obtain ⟨dots, other⟩ := loses
      exact Bool.eq_false_iff.1 other (mappings dotted value member dots)

/-- Writes on the way to a list, through a scalar and past the end of a list, and a
refused merge. -/
theorem mapping_throughout_iff_sample :
    let updates : List Update :=
      [.set "a.0" (.scalar "x"), .set "b" (.list []), .set "b.3" (.scalar "y"),
        .set "..a.0.c." (.scalar "z"), .merge .null]
    Store.empty.Fresh ∧
      ((∀ front, front <+: updates → (Store.empty.run front).root.isMapping = true) ↔
        ∀ dotted value, .set dotted value ∈ updates → (∀ c ∈ dotted.toList, c = '.') →
          value.isMapping = true) ∧
      (Store.empty.run updates).root.isMapping = true := by
  intro updates
  exact ⟨.empty, mapping_throughout_iff .empty updates, by decide +kernel⟩

/-- One write with empty dotted text is enough to lose the root. -/
theorem not_mapping_after_empty_path :
    ¬ ∀ (start : Store) (updates : List Update), start.Fresh →
      (start.run updates).root.isMapping = true := by
  intro always
  have kept := always .empty [.set "" (.scalar "x")] .empty
  have lost : (Store.empty.run [.set "" (.scalar "x")]).root.isMapping = false := by
    decide +kernel
  rw [lost] at kept
  cases kept

end Store

end Stencil
