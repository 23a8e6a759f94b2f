import Mathlib.Data.List.Basic
import Stencil.Resolution

/-!
What a name stands for in a scope.

The lookup walks down from the whole scope, a key with its indices at a time.
`Path.IsCut` says without a walk where it stops: at the end, at every key, and at the
beginning. `Path.mem_cutLengths` and `Path.pairwise_cutLengths` say that the walk visits
exactly these places, the longest first, and `Store.resolve_spec` reads off it what
`Store.resolve` answers.
-/

namespace Stencil

namespace Path

variable {scope : Path} {length : Nat}

/-! ## The places where a scope is cut -/

/-- A scope may be cut at its end, in front of a key, and at its beginning. -/
def IsCut (scope : Path) (p : Nat) : Prop :=
  p = scope.length ∨ p = 0 ∨ ∃ name, scope[p]? = some (.key name)

/-- Only indices are dropped from the end of a prefix. -/
theorem isIndex_of_withoutIndices_le {i : Nat} (h : scope.withoutIndices length ≤ i)
    (less : i < length) : scope[i]?.any Step.isIndex = true := by
  induction length with
  | zero => exact absurd less (Nat.not_lt_zero i)
  | succ last ih =>
    rw [withoutIndices] at h
    split at h
    · rename_i isIndex
      rcases Nat.lt_succ_iff_lt_or_eq.1 less with below | rfl
      · exact ih h below
      · exact isIndex
    · omega

/-- What is left of a prefix without its last indices ends in no index. -/
theorem not_isIndex_of_withoutIndices {last : Nat} (h : scope.withoutIndices length = last + 1) :
    scope[last]?.any Step.isIndex = false := by
  induction length with
  | zero => cases h
  | succ n ih =>
    rw [withoutIndices] at h
    split at h
    · exact ih h
    · rename_i notIndex
      cases h
      exact Bool.eq_false_iff.2 notIndex

/-- The walk goes on at a key, or at the beginning. -/
theorem isKey_parentLength (scope : Path) (length : Nat) :
    scope.parentLength length = 0 ∨
      ∃ name, scope[scope.parentLength length]? = some (.key name) := by
  have dropped := scope.withoutIndices_le (min length scope.length)
  rcases kept : scope.withoutIndices (min length scope.length) with _ | last
  · left
    rw [parentLength, kept]
  · right
    have notIndex := not_isIndex_of_withoutIndices kept
    have inside : last < scope.length := by omega
    rw [parentLength, kept, Nat.add_sub_cancel]
    rw [List.getElem?_eq_getElem inside] at notIndex ⊢
    rcases step : scope[last] with name | i
    · exact ⟨name, rfl⟩
    · rw [step] at notIndex
      cases notIndex

/-- The walk passes over indices only. -/
theorem not_isKey_of_parentLength_lt (within : length ≤ scope.length) {i : Nat}
    (above : scope.parentLength length < i) (less : i < length) (name : String) :
    scope[i]? ≠ some (.key name) := by
  intro isKey
  have kept : scope.withoutIndices length ≤ i := by
    rw [parentLength, Nat.min_eq_left within] at above
    omega
  have isIndex := isIndex_of_withoutIndices_le kept less
  rw [isKey] at isIndex
  cases isIndex

/-! ## The walk -/

theorem cutLengths_zero (scope : Path) : scope.cutLengths 0 = [0] := by
  rw [cutLengths, if_pos rfl]

theorem cutLengths_of_pos (scope : Path) (positive : 0 < length) :
    scope.cutLengths length = length :: scope.cutLengths (scope.parentLength length) := by
  rw [cutLengths, if_neg (Nat.ne_of_gt positive)]

/-- The walk from `length` down visits the keys in front of it and the beginning. -/
theorem mem_cutLengths_iff {p : Nat} (within : length ≤ scope.length) :
    p ∈ scope.cutLengths length ↔
      p = length ∨ p < length ∧ (p = 0 ∨ ∃ name, scope[p]? = some (.key name)) := by
  induction length using Nat.strongRecOn with
  | ind length ih =>
  rcases Nat.eq_zero_or_pos length with rfl | positive
  · rw [cutLengths_zero, List.mem_singleton]
    exact ⟨.inl, fun h => h.elim id fun below => absurd below.1 (Nat.not_lt_zero p)⟩
  · have shorter := scope.parentLength_lt positive
    have parentKey := isKey_parentLength scope length
    rw [cutLengths_of_pos scope positive, List.mem_cons, ih _ shorter (by omega)]
    constructor
    · rintro (rfl | rfl | ⟨below, isKey⟩)
      · exact .inl rfl
      · exact .inr ⟨shorter, parentKey⟩
      · exact .inr ⟨Nat.lt_trans below shorter, isKey⟩
    · rintro (rfl | ⟨below, isKey⟩)
      · exact .inl rfl
      · rcases Nat.lt_trichotomy p (scope.parentLength length) with less | same | above
        · exact .inr (.inr ⟨less, isKey⟩)
        · exact .inr (.inl same)
        · rcases isKey with rfl | ⟨name, isKey⟩
          · exact absurd above (Nat.not_lt_zero _)
          · exact absurd isKey (not_isKey_of_parentLength_lt within above below name)

/-- The walk over a whole scope visits its cuts. -/
theorem mem_cutLengths {p : Nat} : p ∈ scope.cutLengths scope.length ↔ scope.IsCut p := by
  rw [mem_cutLengths_iff (Nat.le_refl _), IsCut]
  constructor
  · rintro (rfl | ⟨-, isKey⟩)
    · exact .inl rfl
    · exact .inr isKey
  · rintro (rfl | rfl | ⟨name, isKey⟩)
    · exact .inl rfl
    · rcases Nat.eq_zero_or_pos scope.length with empty | positive
      · exact .inl empty.symm
      · exact .inr ⟨positive, .inl rfl⟩
    · exact .inr ⟨(List.getElem?_eq_some_iff.1 isKey).1, .inr ⟨name, isKey⟩⟩

example :
    cutLengths [.index 3, .key "a", .index 0, .index 1, .key "b"] 5 = [5, 4, 1, 0] := by
  decide +kernel

/-- The walk goes down at every step. -/
theorem pairwise_cutLengths (within : length ≤ scope.length) :
    (scope.cutLengths length).Pairwise (· > ·) := by
  induction length using Nat.strongRecOn with
  | ind length ih =>
  rcases Nat.eq_zero_or_pos length with rfl | positive
  · rw [cutLengths_zero]
    exact List.pairwise_singleton _ 0
  · have shorter := scope.parentLength_lt positive
    rw [cutLengths_of_pos scope positive, List.pairwise_cons]
    refine ⟨?_, ih _ shorter (by omega)⟩
    intro p visited
    rcases (mem_cutLengths_iff (by omega)).1 visited with rfl | ⟨below, -⟩
    · exact shorter
    · exact Nat.lt_trans below shorter

theorem IsCut.le_length {p : Nat} (cut : scope.IsCut p) : p ≤ scope.length := by
  rcases cut with rfl | rfl | ⟨name, isKey⟩
  · exact Nat.le_refl _
  · exact Nat.zero_le _
  · exact Nat.le_of_lt (List.getElem?_eq_some_iff.1 isKey).1

/-- No cut falls between a key and an index that belongs to it. -/
theorem IsCut.le_or_ge {p k j : Nat} (cut : scope.IsCut p)
    (indices : ∀ i, k < i → i ≤ j → ∃ n, scope[i]? = some (.index n)) : p ≤ k ∨ j < p := by
  by_contra between
  obtain ⟨n, isIndex⟩ := indices p (by omega) (by omega)
  rcases cut with rfl | rfl | ⟨name, isKey⟩
  · rw [List.getElem?_eq_none (Nat.le_refl _)] at isIndex
    cases isIndex
  · omega
  · cases isKey.symm.trans isIndex

end Path

/-! ## The first hit of the walk -/

/-- In a list that goes down, the first hit is the hit of the largest number. -/
theorem findSome?_eq_some_iff_of_pairwise {α : Type} {numbers : List Nat} {f : Nat → Option α}
    (down : numbers.Pairwise (· > ·)) (a : α) :
    numbers.findSome? f = some a ↔
      ∃ p ∈ numbers, f p = some a ∧ ∀ q ∈ numbers, p < q → f q = none := by
  rw [List.findSome?_eq_some_iff]
  constructor
  · rintro ⟨before, p, after, rfl, hit, missed⟩
    have later := (List.pairwise_cons.1 (List.pairwise_append.1 down).2.1).1
    refine ⟨p, by simp, hit, ?_⟩
    intro q member above
    rcases List.mem_append.1 member with early | late
    · exact missed q early
    · rcases List.mem_cons.1 late with rfl | late
      · exact absurd above (Nat.lt_irrefl q)
      · exact absurd above (Nat.lt_asymm (later q late))
  · rintro ⟨p, member, hit, missed⟩
    obtain ⟨before, after, rfl⟩ := List.append_of_mem member
    have earlier := (List.pairwise_append.1 down).2.2
    refine ⟨before, p, after, rfl, hit, ?_⟩
    intro q early
    exact missed q (List.mem_append_left _ early) (earlier q early p List.mem_cons_self)

namespace Store

/-- Whether a name asks for the text of a path, and of which below its scope: its last
key has the end `_path`, and a key that is nothing else is dropped. -/
def AsksForPath (name rest : Path) : Prop :=
  ∃ (front : Path) (last : String) (stem : List Char),
    name = front ++ [.key last] ∧ last.toList = stem ++ pathSuffix ∧
      rest = front ++ if stem = [] then [] else [.key (String.ofList stem)]

theorem withoutPathSuffix?_eq_some_iff (name rest : Path) :
    withoutPathSuffix? name = some rest ↔ AsksForPath name rest := by
  rcases List.eq_nil_or_concat' name with rfl | ⟨front, last, rfl⟩
  · constructor
    · rintro ⟨⟩
    · rintro ⟨front, last, stem, same, -, -⟩
      cases List.append_ne_nil_of_right_ne_nil front (List.cons_ne_nil _ _) same.symm
  · rw [withoutPathSuffix?, List.getLast?_concat, List.dropLast_concat]
    cases last with
    | index i =>
      constructor
      · rintro ⟨⟩
      · rintro ⟨other, last, stem, same, -, -⟩
        have := (List.append_inj' same rfl).2
        cases this
    | key last =>
      simp only [Option.map_eq_some_iff]
      constructor
      · rintro ⟨stem, dropped, rfl⟩
        refine ⟨front, last, stem, rfl, Text.eq_append_of_dropSuffix? dropped, ?_⟩
        cases stem <;> rfl
      · rintro ⟨other, key, stem, same, ends, rfl⟩
        obtain ⟨rfl, ⟨⟩⟩ := List.append_inj' same rfl
        refine ⟨stem, ?_, ?_⟩
        · rw [Text.dropSuffix?, ends]
          simp
        · cases stem <;> rfl

/-- No name asks for two paths. -/
theorem withoutPathSuffix?_eq_none_iff (name : Path) :
    withoutPathSuffix? name = none ↔ ¬ ∃ rest, AsksForPath name rest := by
  rw [Option.eq_none_iff_forall_ne_some, not_exists]
  exact forall_congr' fun rest => not_congr (withoutPathSuffix?_eq_some_iff name rest)

/-- The steps of the path that is asked for are steps of the name, or what is left of one. -/
theorem AsksForPath.exists_step {name rest : Path} (asks : AsksForPath name rest) {step : Step}
    (member : step ∈ rest) : ∃ whole ∈ name, step.text.toList <+: whole.text.toList := by
  obtain ⟨front, last, stem, rfl, ends, rfl⟩ := asks
  rcases List.mem_append.1 member with early | late
  · exact ⟨step, List.mem_append_left _ early, List.prefix_refl _⟩
  · split at late
    · cases late
    · cases List.mem_singleton.1 late
      refine ⟨.key last, List.mem_append_right _ List.mem_cons_self, ?_⟩
      rw [Step.text, Step.text, String.toList_ofList, ends]
      exact List.prefix_append _ _

/-- The first value that the walk over a scope meets. -/
def firstHit? (s : Store) (scope name : Path) : Option Resolution :=
  (scope.cutLengths scope.length).findSome? (s.lookUp? scope name)

/-- The first hit is the value below the longest prefix that has one. -/
theorem firstHit?_eq_some_iff (s : Store) (scope name : Path) (resolution : Resolution) :
    s.firstHit? scope name = some resolution ↔
      ∃ p value, scope.IsCut p ∧ s.get? (scope.take p ++ name) = some value ∧
        (∀ q, scope.IsCut q → p < q → s.get? (scope.take q ++ name) = none) ∧
        resolution = .found (scope.take p ++ name) value := by
  rw [firstHit?, findSome?_eq_some_iff_of_pairwise (Path.pairwise_cutLengths (Nat.le_refl _))]
  simp only [Path.mem_cutLengths, lookUp?, Path.prefixJoin, Option.map_eq_some_iff,
    Option.map_eq_none_iff]
  constructor
  · rintro ⟨p, cut, ⟨value, found, rfl⟩, missed⟩
    exact ⟨p, value, cut, found, missed, rfl⟩
  · rintro ⟨p, value, cut, found, missed, rfl⟩
    exact ⟨p, cut, ⟨value, found, rfl⟩, missed⟩

theorem firstHit?_eq_none_iff (s : Store) (scope name : Path) :
    s.firstHit? scope name = none ↔
      ∀ p, scope.IsCut p → s.get? (scope.take p ++ name) = none := by
  simp only [firstHit?, List.findSome?_eq_none_iff, Path.mem_cutLengths, lookUp?, Path.prefixJoin,
    Option.map_eq_none_iff]

section Resolve

variable {s : Store} {scope : Path} {name : String}

theorem resolve_of_hit {resolution : Resolution}
    (hit : s.firstHit? scope (.parse name) = some resolution) :
    s.resolve scope name = .ok resolution := by
  unfold firstHit? at hit
  simp only [resolve, hit]

theorem resolve_of_asks {rest : Path}
    (miss : s.firstHit? scope (.parse name) = none)
    (asks : withoutPathSuffix? (.parse name) = some rest) :
    s.resolve scope name = .ok (.pathText (scope ++ rest)) := by
  unfold firstHit? at miss
  simp only [resolve, miss, asks]

theorem resolve_of_miss
    (miss : s.firstHit? scope (.parse name) = none)
    (plain : withoutPathSuffix? (.parse name) = none) :
    s.resolve scope name = .error ⟨name, scope.text⟩ := by
  unfold firstHit? at miss
  simp only [resolve, miss, plain]

theorem resolve_eq_found_iff {path : Path} {value : Value} :
    s.resolve scope name = .ok (.found path value) ↔
      s.firstHit? scope (.parse name) = some (.found path value) := by
  rcases hit : s.firstHit? scope (.parse name) with _ | resolution
  · rcases asks : withoutPathSuffix? (.parse name) with _ | rest
    · rw [resolve_of_miss hit asks]
      simp
    · rw [resolve_of_asks hit asks]
      simp
  · rw [resolve_of_hit hit]
    simp

theorem resolve_eq_pathText_iff {path : Path} :
    s.resolve scope name = .ok (.pathText path) ↔
      s.firstHit? scope (.parse name) = none ∧
        ∃ rest, withoutPathSuffix? (.parse name) = some rest ∧ path = scope ++ rest := by
  rcases hit : s.firstHit? scope (.parse name) with _ | resolution
  · rcases asks : withoutPathSuffix? (.parse name) with _ | rest
    · rw [resolve_of_miss hit asks]
      simp
    · rw [resolve_of_asks hit asks]
      simp [eq_comm]
  · -- A hit is a value, not a path.
    obtain ⟨p, value, -, -, -, rfl⟩ := (firstHit?_eq_some_iff s scope _ _).1 hit
    rw [resolve_of_hit hit]
    simp

theorem resolve_eq_error_iff {e : NotFound} :
    s.resolve scope name = .error e ↔
      s.firstHit? scope (.parse name) = none ∧
        withoutPathSuffix? (.parse name) = none ∧ e = ⟨name, scope.text⟩ := by
  rcases hit : s.firstHit? scope (.parse name) with _ | resolution
  · rcases asks : withoutPathSuffix? (.parse name) with _ | rest
    · rw [resolve_of_miss hit asks]
      simp [eq_comm]
    · rw [resolve_of_asks hit asks]
      simp
  · rw [resolve_of_hit hit]
    simp

/-- What is found is there. -/
theorem get?_of_found {path : Path} {value : Value}
    (found : s.resolve scope name = .ok (.found path value)) : s.get? path = some value := by
  obtain ⟨p, v, -, reached, -, same⟩ :=
    (firstHit?_eq_some_iff s scope _ _).1 (resolve_eq_found_iff.1 found)
  cases same
  exact reached

/-- What is there below the whole scope is found there. -/
theorem resolve_of_get? {value : Value} (there : s.get? (scope ++ .parse name) = some value) :
    s.resolve scope name = .ok (.found (scope ++ .parse name) value) := by
  rw [resolve_eq_found_iff, firstHit?_eq_some_iff]
  refine ⟨scope.length, value, .inl rfl, ?_, ?_, ?_⟩
  · rw [List.take_length, there]
  · intro q cut above
    exact absurd cut.le_length (Nat.not_le_of_lt above)
  · rw [List.take_length]

end Resolve

/-- What a name stands for in a scope. The cuts of the scope are tried from the longest
down, none of them between a key and its indices. The first of them that has a value
answers; if none has, the end `_path` does; and if the name has no such end, it is not
found. -/
theorem resolve_spec (s : Store) (scope : Path) (name : String) :
    let steps := Path.parse name
    let missing := ∀ p, scope.IsCut p → s.get? (scope.take p ++ steps) = none
    ((scope.cutLengths scope.length).Pairwise (· > ·) ∧
      (∀ p, p ∈ scope.cutLengths scope.length ↔ scope.IsCut p) ∧
      ∀ p k j, scope.IsCut p → (∀ i, k < i → i ≤ j → ∃ n, scope[i]? = some (.index n)) →
        p ≤ k ∨ j < p) ∧
    (∀ path value, s.resolve scope name = .ok (.found path value) ↔
      ∃ p, scope.IsCut p ∧ path = scope.take p ++ steps ∧ s.get? path = some value ∧
        ∀ q, scope.IsCut q → p < q → s.get? (scope.take q ++ steps) = none) ∧
    (∀ path, s.resolve scope name = .ok (.pathText path) ↔
      missing ∧ ∃ rest, AsksForPath steps rest ∧ path = scope ++ rest) ∧
    (∀ e, s.resolve scope name = .error e ↔
      missing ∧ (¬ ∃ rest, AsksForPath steps rest) ∧ e = ⟨name, scope.text⟩) := by
  intro steps missing
  refine ⟨⟨?descending, ?visited, ?together⟩, ?found, ?pathText, ?error⟩
  case descending => exact Path.pairwise_cutLengths (Nat.le_refl _)
  case visited => exact fun p => Path.mem_cutLengths
  case together => exact fun p k j cut indices => cut.le_or_ge indices
  case found =>
    intro path value
    rw [resolve_eq_found_iff, firstHit?_eq_some_iff]
    constructor
    · rintro ⟨p, _, cut, found, missed, ⟨⟩⟩
      exact ⟨p, cut, rfl, found, missed⟩
    · rintro ⟨p, cut, rfl, found, missed⟩
      exact ⟨p, value, cut, found, missed, rfl⟩
  case pathText =>
    intro path
    rw [resolve_eq_pathText_iff, firstHit?_eq_none_iff]
    simp only [withoutPathSuffix?_eq_some_iff, missing, steps]
  case error =>
    intro e
    rw [resolve_eq_error_iff, firstHit?_eq_none_iff, withoutPathSuffix?_eq_none_iff]

end Store

end Stencil
