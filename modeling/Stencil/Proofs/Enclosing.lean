import Mathlib.Data.Nat.Find
import Stencil.Proofs.Reach

/-!
How far out a name is looked up.

A name that means nothing where it stands is looked up in the mappings around. The lookup stops
at keys only, since the number of a pass belongs to the list in front of it, but a number is
also what an entry of a mapping has for its step when its key is made of digits. So the mapping
around such an entry is passed over: inside the section `5` of the section `a` a name is looked
up at `a.5` and then at the root.

`Store.LongestHit` says which prefix of a scope a name should be found below, and
`Store.resolve_longest_iff` says when it is: for one name if the scope may be cut there, and for
all stores and names if no step of the scope but the first is a number.
-/

namespace Stencil

/-- Between keys a scope may be cut everywhere. -/
theorem Path.isCut_of_keys {scope : Path} (keys : ∀ step ∈ scope.tail, step.isIndex = false)
    {p : Nat} (within : p ≤ scope.length) : scope.IsCut p := by
  cases p with
  | zero => exact .inr (.inl rfl)
  | succ p =>
    rcases Nat.eq_or_lt_of_le within with whole | inside
    · exact .inl whole
    · refine .inr (.inr ?_)
      cases scope with
      | nil => cases inside
      | cons first steps =>
        have inside : p < steps.length := Nat.lt_of_succ_lt_succ inside
        have notIndex := keys _ (List.getElem_mem inside)
        rw [List.getElem?_cons_succ, List.getElem?_eq_getElem inside]
        cases step : steps[p] with
        | key name => exact ⟨name, rfl⟩
        | index i =>
          rw [step] at notIndex
          cases notIndex

/-- Behind the first step a scope is cut at keys only. -/
theorem Path.IsCut.not_isIndex {front back : Path} {step : Step} (more : front ≠ [])
    (cut : (front ++ step :: back).IsCut front.length) : step.isIndex = false := by
  rcases cut with whole | none | ⟨name, isKey⟩
  · rw [List.length_append, List.length_cons] at whole
    omega
  · exact absurd (List.length_eq_zero_iff.1 none) more
  · rw [List.getElem?_append_right (Nat.le_refl _), Nat.sub_self, List.getElem?_cons_zero] at isKey
    cases isKey
    rfl

/-! ## Mappings in mappings -/

/-- There is always one more key. -/
theorem exists_fresh (taken : List String) : ∃ key, IsKeyWord key ∧ ¬ IsPadded key ∧ key ∉ taken := by
  -- It is longer than all the others.
  let longer := (taken.map String.length).max?.getD 0 + 1
  have letters : ∀ c ∈ (String.ofList (List.replicate longer 'x')).toList, c = 'x' := by
    rw [String.toList_ofList]
    exact fun c member => List.eq_of_mem_replicate member
  refine ⟨String.ofList (List.replicate longer 'x'), ⟨?_, ?_⟩, ?_, ?_⟩
  · intro empty
    have none := congrArg String.length empty
    rw [String.length_ofList, List.length_replicate] at none
    exact Nat.succ_ne_zero _ none
  · intro c member
    rw [letters c member]
    decide
  · rintro ⟨-, zero, -⟩
    cases letters '0' (List.mem_of_mem_head? zero)
  · intro member
    have bound := List.le_max?_getD_of_mem (k := 0) (List.mem_map_of_mem (f := String.length) member)
    rw [String.length_ofList, List.length_replicate] at bound
    exact Nat.not_succ_le_self _ bound

namespace Value

/-- Mappings on a path have no other entries than the next. -/
theorem get?_nest_of_notMem {path : Path} {step : Step} (fresh : step.text ∉ path.map Step.text)
    (n : Nat) : ((mapping []).nest (path.map Step.text)).get? (path.take n ++ [step]) = none := by
  induction path generalizing n with
  | nil =>
    rw [List.take_nil, List.nil_append, get?, List.map_nil, nest, child?_mapping]
    rfl
  | cons first path ih =>
    rw [List.map_cons, List.mem_cons, not_or] at fresh
    obtain ⟨other, fresh⟩ := fresh
    rw [List.map_cons, nest]
    cases n with
    | zero =>
      rw [List.take_zero, List.nil_append, get?, child?_mapping, Fields.get?, if_neg (Ne.symm other)]
      rfl
    | succ n =>
      rw [List.take_succ_cons, List.cons_append, get?, child?_mapping, Fields.get?, if_pos rfl]
      exact ih fresh n

end Value

namespace Store

/-! ## The longest prefix -/

/-- A value below a prefix of a scope where there is none below a longer one. -/
structure LongestHit (s : Store) (scope name : Path) (p : Nat) (v : Value) : Prop where
  within : p ≤ scope.length
  there : s.get? (scope.take p ++ name) = some v
  missed : ∀ q, p < q → q ≤ scope.length → s.get? (scope.take q ++ name) = none

variable {s : Store} {scope : Path}

theorem LongestHit.unique {name : Path} {p q : Nat} {v w : Value}
    (h : s.LongestHit scope name p v) (k : s.LongestHit scope name q w) : p = q := by
  rcases Nat.lt_trichotomy p q with below | same | above
  · cases (h.missed q below k.within).symm.trans k.there
  · exact same
  · cases (k.missed p above h.within).symm.trans h.there

/-- If there is a value below some prefix, there is a longest. -/
theorem exists_longestHit {name : Path} {n : Nat} {v : Value} (within : n ≤ scope.length)
    (there : s.get? (scope.take n ++ name) = some v) : ∃ p w, s.LongestHit scope name p w := by
  obtain ⟨w, found⟩ := Option.isSome_iff_exists.1 <|
    Nat.findGreatest_spec (P := fun p => (s.get? (scope.take p ++ name)).isSome = true) within
      (Option.isSome_of_eq_some there)
  refine ⟨_, w, Nat.findGreatest_le _, found, ?_⟩
  intro q above inside
  exact Option.not_isSome_iff_eq_none.1 (Nat.findGreatest_is_greatest above inside)

/-- The longest prefix answers exactly if the scope may be cut there. -/
theorem LongestHit.found_iff {name : String} {p : Nat} {v : Value}
    (h : s.LongestHit scope (.parse name) p v) :
    s.resolve scope name = .ok (.found (scope.take p ++ .parse name) v) ↔ scope.IsCut p := by
  rw [resolve_eq_found_iff, firstHit?_eq_some_iff]
  constructor
  · rintro ⟨q, w, cut, -, -, same⟩
    have same : scope.take p ++ Path.parse name = scope.take q ++ Path.parse name := by
      injection same
    have lengths := congrArg List.length (List.append_cancel_right same)
    rw [List.length_take_of_le h.within, List.length_take_of_le cut.le_length] at lengths
    exact lengths ▸ cut
  · intro cut
    exact ⟨p, v, cut, h.there, fun q other above => h.missed q above other.le_length, rfl⟩

/-! ## Chains of entries -/

/-- Mappings in mappings, with one more entry beside one of those on the way. -/
def beside (front : List String) (key : String) (back : List String) (other : String) : Store :=
  ⟨.nest (.mapping [(key, .nest (.mapping []) back), (other, .scalar "")]) front⟩

theorem atKeys?_beside (front : List String) (key : String) (back : List String) (other : String) :
    (beside front key back other).root.atKeys? (front ++ key :: back) = some (.mapping []) := by
  rw [beside, Value.atKeys?_append, Value.atKeys?_nest, Option.bind_some, Value.atKeys?_cons,
    Value.entries_mapping, Fields.get?, if_pos rfl]
  exact Value.atKeys?_nest _ back

/-- The longest prefix for the other entry is the one of the mapping that has it. -/
theorem longestHit_beside (front : Path) {back : Path} {step other : Step}
    (fresh : other.text ∉ step.text :: back.map Step.text) :
    (beside (front.map Step.text) step.text (back.map Step.text) other.text).LongestHit
      (front ++ step :: back) [other] front.length (.scalar "") := by
  obtain ⟨apart, fresh⟩ := not_or.1 (List.mem_cons.not.1 fresh)
  have around := Value.get?_of_atKeys? (Value.atKeys?_nest
    (.mapping [(step.text, .nest (.mapping []) (back.map Step.text)), (other.text, .scalar "")])
    (front.map Step.text))
  refine ⟨?within, ?there, ?missed⟩
  case within =>
    rw [List.length_append]
    exact Nat.le_add_right _ _
  case there =>
    rw [List.take_left, get?, beside, Value.get?_append, around, Option.bind_some, Value.get?,
      Value.child?_mapping, Fields.get?, if_neg (Ne.symm apart), Fields.get?, if_pos rfl]
    rfl
  case missed =>
    intro q above _
    obtain ⟨n, rfl⟩ := Nat.exists_eq_add_of_lt above
    rw [Nat.add_assoc, List.take_length_add_append, List.take_succ_cons, List.append_assoc, get?,
      beside, Value.get?_append, around, Option.bind_some, List.cons_append, Value.get?,
      Value.child?_mapping, Fields.get?, if_pos rfl]
    exact Value.get?_nest_of_notMem fresh n

/-- Which names fall back through all enclosing mappings. A name with a value below some prefix of
its scope has a longest such prefix, and is found below it exactly if the scope may be cut there.
This is so in all stores where the scope leads from entry to entry of mappings, and for all names,
exactly if no step of the scope behind the first is a number. -/
theorem resolve_longest_iff (scope : Path) :
    (∀ (s : Store) (name : String) (n : Nat) (v : Value), n ≤ scope.length →
      s.get? (scope.take n ++ .parse name) = some v →
      ∃ p w, s.LongestHit scope (.parse name) p w ∧
        (s.resolve scope name = .ok (.found (scope.take p ++ .parse name) w) ↔ scope.IsCut p)) ∧
    ((∀ (s : Store) (inner : Value), s.root.atKeys? (scope.map Step.text) = some inner →
      ∀ (name : String) (n : Nat) (v : Value), n ≤ scope.length →
      s.get? (scope.take n ++ .parse name) = some v →
      ∃ p w, s.LongestHit scope (.parse name) p w ∧
        s.resolve scope name = .ok (.found (scope.take p ++ .parse name) w)) ↔
      ∀ step ∈ scope.tail, step.isIndex = false) := by
  refine ⟨?each, ?necessary, ?sufficient⟩
  case each =>
    intro s name n v within there
    obtain ⟨p, w, hit⟩ := exists_longestHit within there
    exact ⟨p, w, hit, hit.found_iff⟩
  case sufficient =>
    intro keys s inner _ name n v within there
    obtain ⟨p, w, hit⟩ := exists_longestHit within there
    exact ⟨p, w, hit, hit.found_iff.2 (Path.isCut_of_keys keys hit.within)⟩
  case necessary =>
    intro always step member
    cases scope with
    | nil => cases member
    | cons first tail =>
      obtain ⟨middle, back, rfl⟩ := List.append_of_mem member
      -- A new entry in the mapping that the step leads on from must be found there.
      obtain ⟨key, word, unpadded, fresh⟩ := exists_fresh (step.text :: back.map Step.text)
      rw [← (Step.text_ofSegment_eq_iff key).2 unpadded] at fresh
      have leads := atKeys?_beside ((first :: middle).map Step.text) step.text (back.map Step.text)
        (Step.ofSegment key).text
      have hit := longestHit_beside (first :: middle) fresh
      rw [← List.map_cons, ← List.map_append] at leads
      rw [← Path.parse_of_isKeyWord word] at hit
      obtain ⟨p, w, longest, found⟩ := always _ _ leads key _ _ hit.within hit.there
      have cut := longest.found_iff.1 found
      rw [longest.unique hit] at cut
      exact cut.not_isIndex (List.cons_ne_nil first middle)

/-- Only the first entry on the way to `7.a` is a number, so a name is looked up at `7.a`, at `7`
and at the root. -/
theorem resolve_longest_iff_first :
    let s : Store := ⟨.mapping [("7", .mapping [("a", .mapping []), ("x", .scalar "inner")]),
      ("x", .scalar "outer")]⟩
    let scope : Path := [.index 7, .key "a"]
    (∀ step ∈ scope.tail, step.isIndex = false) ∧
      s.root.atKeys? (scope.map Step.text) = some (.mapping []) ∧
      s.get? (scope.take 0 ++ .parse "x") = some (.scalar "outer") ∧
      s.resolve scope "x" = .ok (.found [.index 7, .key "x"] (.scalar "inner")) := by
  intro s scope
  have name : Path.parse "x" = [.key "x"] := by decide +kernel
  have keys : ∀ step ∈ scope.tail, step.isIndex = false := by decide
  have chain : s.root.atKeys? (scope.map Step.text) = some (.mapping []) := by rfl
  have outer : s.get? (scope.take 0 ++ .parse "x") = some (.scalar "outer") := by
    rw [name]
    rfl
  have inner : s.LongestHit scope (.parse "x") 1 (.scalar "inner") := by
    rw [name]
    refine ⟨by decide, rfl, fun q above inside => ?_⟩
    cases Nat.le_antisymm inside above
    rfl
  obtain ⟨p, w, longest, found⟩ :=
    (resolve_longest_iff scope).2.2 keys s _ chain "x" 0 _ (Nat.zero_le _) outer
  cases longest.unique inner
  cases longest.there.symm.trans inner.there
  rw [name] at found
  exact ⟨keys, chain, outer, found⟩

/-- Inside the entry `5` of `a`, a name that `a` knows is found at the root. -/
theorem not_resolve_longest :
    ¬ ∀ (s : Store) (scope : Path) (inner : Value),
      s.root.atKeys? (scope.map Step.text) = some inner →
      ∀ (name : String) (n : Nat) (v : Value), n ≤ scope.length →
      s.get? (scope.take n ++ .parse name) = some v →
      ∃ p w, s.LongestHit scope (.parse name) p w ∧
        s.resolve scope name = .ok (.found (scope.take p ++ .parse name) w) := by
  intro always
  let s : Store := ⟨.mapping [("a", .mapping [("5", .mapping []), ("x", .scalar "inner")]),
    ("x", .scalar "outer")]⟩
  let scope : Path := [.key "a", .index 5]
  have name : Path.parse "x" = [.key "x"] := by decide +kernel
  have cuts : scope.cutLengths scope.length = [2, 0] := by decide +kernel
  have inA : s.get? (scope.take 1 ++ .parse "x") = some (.scalar "inner") := by
    rw [name]
    rfl
  have atRoot : s.resolve scope "x" = .ok (.found [.key "x"] (.scalar "outer")) := by
    apply resolve_of_hit
    rw [firstHit?, name, cuts]
    rfl
  obtain ⟨p, w, longest, found⟩ := always s scope (.mapping []) rfl "x" 1 _ (by decide) inA
  rw [atRoot, name] at found
  injection found with found
  injection found with path
  -- What is found is at the root, where the prefix is empty, although `a` has a value too.
  have short := congrArg List.length path
  rw [List.length_append, List.length_take_of_le longest.within, List.length_singleton] at short
  have missed := longest.missed 1 (by omega) (by decide)
  cases missed.symm.trans inA

end Store

end Stencil
