import Stencil.Proofs.Rewriting

/-!
What a write leaves alone.

A write goes down along one path and fills in one child of each value on its way, where
something missing counts as an empty mapping (`Value.get?_assign_front`). A read that turns
off to another child therefore finds what it found before. Which children are others is up
to the value: a list has items, of which a key reads the first, and in anything else a step
is its text, so that an index is the key with its digits.

* `Value.child?_fill_of_separates`: to fill in one child keeps all others.
* `Value.get?_assign_of_separates`: the same for paths that part at some value.
* `Store.set_frame`: what a write to a store keeps, beside its path and along it.
-/

namespace Stencil

/-! ## Other children -/

/-- The item that a step reads in a list. A key reads the first. -/
def Step.item : Step → Nat
  | key _ => 0
  | index position => position

namespace Value

/-- Whether two steps select different children of a value: different items of a list, and
entries under different keys of anything else. -/
def Separates (v : Value) (step turn : Step) : Prop :=
  match v with
  | list _ => step.item ≠ turn.item
  | _ => step.text ≠ turn.text

instance (v : Value) (step turn : Step) : Decidable (v.Separates step turn) :=
  match v with
  | list _ => inferInstanceAs (Decidable (_ ≠ _))
  | scalar _ => inferInstanceAs (Decidable (_ ≠ _))
  | mapping _ => inferInstanceAs (Decidable (_ ≠ _))

variable {v : Value} {step turn : Step}

/-- The first item stays while another one is filled in. -/
theorem getKey?_list_set {items : List Value} {i : Nat} (other : i ≠ 0) (below : Value)
    (key : String) : (list (items.set i below)).getKey? key = (list items).getKey? key := by
  cases items with
  | nil => rfl
  | cons first items =>
    cases i with
    | zero => exact absurd rfl other
    | succ i => rfl

theorem separates_iff_of_not_list (flat : v.isList = false) :
    v.Separates step turn ↔ step.text ≠ turn.text := by
  cases v with
  | list items => cases flat
  | scalar text => rfl
  | mapping entries => rfl

/-- In anything but a list a step is its text. -/
theorem child?_of_not_list (flat : v.isList = false) (step : Step) :
    v.child? step = Fields.get? step.text v.entries := by
  cases v with
  | list items => cases flat
  | scalar text => cases step <;> rfl
  | mapping entries => exact child?_mapping entries step

/-- To fill in one child keeps all others. -/
theorem child?_fill_of_separates (taken : v.refusal? step = none) (apart : v.Separates step turn)
    (below : Value) : (v.fill step below).child? turn = v.child? turn := by
  rcases taken_cases taken with ⟨items, i, rfl, rfl, -⟩ | flat
  · cases turn with
    | key name => exact getKey?_list_set apart below name
    | index j => exact List.getElem?_set_ne apart
  · have other : turn.text ≠ step.text := ((separates_iff_of_not_list flat).1 apart).symm
    rw [fill_of_not_list flat, child?_mapping, Fields.insert, Fields.get?_alter, if_neg other,
      child?_of_not_list flat]

/-! ## Along a path -/

/-- What a write meets at the end of a path. Something missing counts as an empty mapping. -/
def site (v : Value) (path : Path) : Value := (v.get? path).getD (mapping [])

theorem site_empty (path : Path) : (mapping []).site path = mapping [] := by
  cases path with
  | nil => rfl
  | cons step path =>
    rw [site, get?, child?_mapping]
    rfl

/-- A step that is taken goes on to what is met there. -/
theorem site_cons (taken : v.refusal? step = none) (path : Path) :
    v.site (step :: path) = ((v.slot? step).getD (mapping [])).site path := by
  rw [slot?_eq_child? taken]
  cases found : v.child? step with
  | none =>
    rw [Option.getD_none, site_empty, site, get?, found]
    rfl
  | some below =>
    rw [Option.getD_some, site, get?, found]
    rfl

/-- A write fills in one child of each value that it passes. -/
theorem get?_assign_front {front rest : Path} {new : Value}
    (written : (v.assign (front ++ step :: rest) new).refused = none) :
    (v.site front).refusal? step = none ∧
      ∃ below, (v.assign (front ++ step :: rest) new).value.get? front =
        some ((v.site front).fill step below) := by
  induction front generalizing v with
  | nil =>
    cases taken : v.refusal? step with
    | some reason =>
      rw [List.nil_append, assign_cons_of_refusal taken] at written
      cases written
    | none =>
      rw [List.nil_append, assign_cons_of_refusal_none taken]
      exact ⟨taken, _, rfl⟩
  | cons first front ih =>
    cases taken : v.refusal? first with
    | some reason =>
      rw [List.cons_append, assign_cons_of_refusal taken] at written
      cases written
    | none =>
      rw [List.cons_append, assign_cons_of_refusal_none taken] at written ⊢
      rw [get?, child?_fill taken, site_cons taken]
      exact ih written

/-- A read that turns off the path of a write finds what it found before. -/
theorem get?_assign_of_separates {front rest tail : Path} {new : Value}
    (written : (v.assign (front ++ step :: rest) new).refused = none)
    (apart : (v.site front).Separates step turn) :
    (v.assign (front ++ step :: rest) new).value.get? (front ++ turn :: tail) =
      v.get? (front ++ turn :: tail) := by
  obtain ⟨taken, below, filled⟩ := get?_assign_front written
  rw [get?_append, filled, Option.bind_some, get?, child?_fill_of_separates taken apart, get?_append,
    site]
  cases v.get? front with
  | none =>
    -- Below something missing a read finds nothing, and no more below an empty mapping.
    rw [Option.getD_none, child?_mapping]
    rfl
  | some there => rfl

/-- A list that takes a step keeps its length. -/
theorem fill_list {items : List Value} (taken : (list items).refusal? step = none)
    (below : Value) :
    ∃ kept, (list items).fill step below = list kept ∧ kept.length = items.length := by
  cases step with
  | key name => cases taken
  | index i => exact ⟨items.set i below, rfl, List.length_set⟩

end Value

/-! ## Stores -/

namespace Store

/-- Whether two paths part in a store: neither ends where the other goes on, and the first steps
in which they differ select different children of what is there. -/
def Parts (s : Store) (path other : Path) : Prop :=
  ∃ front step turn rest tail, path = front ++ step :: rest ∧ other = front ++ turn :: tail ∧
    (s.root.site front).Separates step turn

/-- What a write keeps. Beside its path, it keeps all that can be read by a path that parts
from it. Along its path, in front of the end, a list keeps its length, and a mapping keeps its
keys in their order and gets at most the key of the next step, behind all others. -/
theorem set_frame {s : Store} {dotted : String} {value : Value}
    (written : (s.set dotted value).2 = .ok ()) :
    (∀ other, s.Parts (.parse dotted) other →
      (s.set dotted value).1.get? other = s.get? other) ∧
    ∀ front step rest, Path.parse dotted = front ++ step :: rest →
      (∀ items, s.get? front = some (.list items) →
        ∃ kept, (s.set dotted value).1.get? front = some (.list kept) ∧
          kept.length = items.length) ∧
      ∀ entries, s.get? front = some (.mapping entries) →
        ∃ kept, (s.set dotted value).1.get? front = some (.mapping kept) ∧
          Fields.keys kept =
            if step.text ∈ Fields.keys entries then Fields.keys entries
            else Fields.keys entries ++ [step.text] := by
  have done := set_eq_ok_iff.1 written
  refine ⟨?beside, ?along⟩
  case beside =>
    intro other parts
    obtain ⟨front, step, turn, rest, tail, path, rfl, apart⟩ := parts
    rw [path] at done
    rw [get?, get?, set, path]
    exact Value.get?_assign_of_separates done apart
  case along =>
    intro front step rest path
    rw [path] at done
    obtain ⟨taken, below, filled⟩ := Value.get?_assign_front done
    have after : (s.set dotted value).1.get? front = some ((s.root.site front).fill step below) := by
      rw [get?, set, path]
      exact filled
    refine ⟨?lists, ?mappings⟩
    case lists =>
      intro items there
      have site : s.root.site front = .list items := congrArg (Option.getD · _) there
      rw [site] at taken after
      obtain ⟨kept, isList, length⟩ := Value.fill_list taken below
      rw [isList] at after
      exact ⟨kept, after, length⟩
    case mappings =>
      intro entries there
      have site : s.root.site front = .mapping entries := congrArg (Option.getD · _) there
      rw [site, Value.fill_of_not_list rfl] at after
      exact ⟨_, after, Fields.keys_alter ..⟩

/-- A new entry in the second item of a list. The key `name` of the list reads the first item,
and the second item keeps its name in front of the new key. -/
theorem set_frame_second_item :
    let s : Store := ⟨.mapping [("rooms", .list
      [.mapping [("name", .scalar "hall")], .mapping [("name", .scalar "attic")]])]⟩
    let after := (s.set "rooms.1.mac.0" (.scalar "7c")).1
    (s.set "rooms.1.mac.0" (.scalar "7c")).2 = .ok () ∧
      s.Parts (.parse "rooms.1.mac.0") [.key "rooms", .key "name"] ∧
      after.get? [.key "rooms", .key "name"] = some (.scalar "hall") ∧
      (∃ kept, after.get? [.key "rooms"] = some (.list kept) ∧ kept.length = 2) ∧
      ∃ kept, after.get? [.key "rooms", .index 1] = some (.mapping kept) ∧
        Fields.keys kept = ["name", "mac"] := by
  intro s after
  have written : (s.set "rooms.1.mac.0" (.scalar "7c")).2 = .ok () := by rfl
  have path : Path.parse "rooms.1.mac.0" = [.key "rooms", .index 1, .key "mac", .index 0] := by
    decide +kernel
  have parts : s.Parts (.parse "rooms.1.mac.0") [.key "rooms", .key "name"] :=
    ⟨[.key "rooms"], .index 1, .key "name", _, [], path, rfl, by decide⟩
  obtain ⟨beside, along⟩ := set_frame written
  have list := (along [.key "rooms"] _ _ path).1 _ rfl
  have mapping := (along [.key "rooms", .index 1] _ _ path).2 _ rfl
  exact ⟨written, parts, beside _ parts, list, mapping⟩

end Store

end Stencil
