import Mathlib.Data.List.Basic
import Stencil.Proofs.Lookup
import Stencil.Render

/-!
What a render sees of a store.

Of a value a render sees only its `Value.face`: the text of a scalar, the length of a list,
or that it is a mapping. And it looks at values only along certain paths. It starts at the
root, goes back to prefixes, adds the steps of names, and adds the number of a pass where
there is a list; `Territory` says of a set of paths that none of this leads out of it.

`Template.render_eq_of_face_eq`: two stores whose values have the same faces throughout a
territory give the same page.
-/

namespace Stencil

/-! ## Faces -/

/-- What a render sees of a value. -/
inductive Face
  | text (content : String)
  | list (length : Nat)
  | mapping
  deriving DecidableEq

namespace Value

def face : Value → Face
  | scalar text => .text text
  | list items => .list items.length
  | mapping _ => .mapping

variable {v w : Value}

theorem passCount_eq_of_face (h : v.face = w.face) : v.passCount = w.passCount := by
  cases v <;> cases w <;> simp_all [face, passCount]

theorem isList_eq_of_face (h : v.face = w.face) : v.isList = w.isList := by
  cases v <;> cases w <;> simp_all [face, isList]

end Value

/-! ## Territories -/

/-- A set of paths that lookups do not leave: they start at the root, shorten paths, add the
steps of the given names, and add a number at a list. -/
structure Territory (names : List String) (s : Store) (inside : Path → Prop) : Prop where
  root : inside []
  take {path : Path} (h : inside path) (length : Nat) : inside (path.take length)
  name {path : Path} (h : inside path) {name : String} (named : name ∈ names) :
    inside (path ++ .parse name)
  asked {path rest : Path} (h : inside path) {name : String} (named : name ∈ names)
    (asks : Store.AsksForPath (.parse name) rest) : inside (path ++ rest)
  pass {path : Path} (h : inside path) {value : Value} (found : s.get? path = some value)
    (isList : value.isList = true) (i : Nat) : inside (path.withIndex i)

/-- Whether the values of two stores have the same faces at some paths. -/
def Store.FacesAgree (s other : Store) (inside : Path → Prop) : Prop :=
  ∀ path, inside path → (s.get? path).map Value.face = (other.get? path).map Value.face

/-- Results of two lookups that a render cannot tell apart. -/
inductive LooksAlike : Except NotFound Resolution → Except NotFound Resolution → Prop
  | error (e : NotFound) : LooksAlike (.error e) (.error e)
  | found (path : Path) {v w : Value} (same : v.face = w.face) :
    LooksAlike (.ok (.found path v)) (.ok (.found path w))
  | pathText (path : Path) : LooksAlike (.ok (.pathText path)) (.ok (.pathText path))

variable {names : List String} {s other : Store} {inside : Path → Prop} {scope : Path}
  {name : String}

/-- The first hit of a lookup is the same path in both stores. -/
theorem Store.firstHit?_alike (territory : Territory names s inside)
    (agree : s.FacesAgree other inside) (here : inside scope) (named : name ∈ names) :
    (s.firstHit? scope (.parse name) = none ∧ other.firstHit? scope (.parse name) = none) ∨
      ∃ path v w, s.firstHit? scope (.parse name) = some (.found path v) ∧
        other.firstHit? scope (.parse name) = some (.found path w) ∧ v.face = w.face := by
  have candidates (p : Nat) := agree _ (territory.name (territory.take here p) named)
  have missing (p : Nat) : s.get? (scope.take p ++ .parse name) = none ↔
      other.get? (scope.take p ++ .parse name) = none := by
    have same := candidates p
    rw [← Option.map_eq_none_iff (f := Value.face), same, Option.map_eq_none_iff]
  cases hit : s.firstHit? scope (.parse name) with
  | none =>
    left
    refine ⟨rfl, ?_⟩
    rw [firstHit?_eq_none_iff] at hit ⊢
    exact fun p cut => (missing p).1 (hit p cut)
  | some resolution =>
    right
    obtain ⟨p, v, cut, found, missed, rfl⟩ := (firstHit?_eq_some_iff s scope _ _).1 hit
    have same := candidates p
    rw [found] at same
    obtain ⟨w, reached, alike⟩ := Option.map_eq_some_iff.1 same.symm
    refine ⟨_, v, w, rfl, ?_, alike.symm⟩
    exact (firstHit?_eq_some_iff other scope _ _).2
      ⟨p, w, cut, reached, fun q isCut above => (missing q).1 (missed q isCut above), rfl⟩

theorem Store.resolve_alike (territory : Territory names s inside)
    (agree : s.FacesAgree other inside) (here : inside scope) (named : name ∈ names) :
    LooksAlike (s.resolve scope name) (other.resolve scope name) := by
  rcases firstHit?_alike territory agree here named with ⟨miss, miss'⟩ | ⟨path, v, w, hit, hit', same⟩
  · cases asks : withoutPathSuffix? (.parse name) with
    | none =>
      rw [resolve_of_miss miss asks, resolve_of_miss miss' asks]
      exact .error _
    | some rest =>
      rw [resolve_of_asks miss asks, resolve_of_asks miss' asks]
      exact .pathText _
  · rw [resolve_of_hit hit, resolve_of_hit hit']
    exact .found path same

/-- A lookup stays inside, and a value that it finds is there. -/
theorem Store.inside_of_resolve (territory : Territory names s inside) (here : inside scope)
    (named : name ∈ names) {resolution : Resolution} (h : s.resolve scope name = .ok resolution) :
    inside resolution.path ∧
      ∀ path value, resolution = .found path value → s.get? path = some value := by
  cases resolution with
  | found path value =>
    obtain ⟨p, _, -, reached, -, ⟨⟩⟩ :=
      (firstHit?_eq_some_iff s scope _ _).1 (resolve_eq_found_iff.1 h)
    refine ⟨territory.name (territory.take here p) named, ?_⟩
    intro path value same
    cases same
    exact reached
  | pathText path =>
    obtain ⟨-, rest, asks, rfl⟩ := resolve_eq_pathText_iff.1 h
    refine ⟨?_, nofun⟩
    exact territory.asked here named ((withoutPathSuffix?_eq_some_iff _ _).1 asks)

/-! ## Rendering -/

namespace Rendering

variable {t : Template} {options : Options} {tag : Tag}

theorem variableText_alike (h : LooksAlike (s.resolve scope tag.name) (other.resolve scope tag.name)) :
    variableText ⟨t, s, options⟩ tag scope = variableText ⟨t, other, options⟩ tag scope := by
  unfold variableText
  dsimp only
  generalize s.resolve scope tag.name = result, other.resolve scope tag.name = result' at h ⊢
  cases h with
  | error e => rfl
  | pathText path => rfl
  | @found path v w same => cases v <;> cases w <;> simp_all [Value.face]

theorem sectionScopes_alike (h : LooksAlike (s.resolve scope tag.name) (other.resolve scope tag.name)) :
    sectionScopes ⟨t, s, options⟩ tag scope = sectionScopes ⟨t, other, options⟩ tag scope := by
  unfold sectionScopes
  dsimp only
  generalize s.resolve scope tag.name = result, other.resolve scope tag.name = result' at h ⊢
  cases h with
  | error e => rfl
  | pathText path => rfl
  | found path same =>
    simp only [repeatedScopes, invertedScopes, Resolution.passCount, Resolution.path,
      Value.passCount_eq_of_face same, Value.isList_eq_of_face same]
    rfl

/-- The passes of a section have scopes inside. -/
theorem inside_of_mem_sectionScopes (territory : Territory names s inside) (here : inside scope)
    (named : tag.name ∈ names) {inner : Path} (h : inner ∈ sectionScopes ⟨t, s, options⟩ tag scope) :
    inside inner := by
  unfold sectionScopes at h
  dsimp only at h
  cases resolved : s.resolve scope tag.name with
  | error e =>
    rw [resolved] at h
    simp only [repeatedScopes, invertedScopes] at h
    split at h
    · cases List.mem_singleton.1 h
      exact here
    · cases h
  | ok resolution =>
    obtain ⟨insidePath, reached⟩ := Store.inside_of_resolve territory here named resolved
    rw [resolved] at h
    simp only [repeatedScopes, invertedScopes] at h
    split at h
    · split at h
      · cases List.mem_singleton.1 h
        exact insidePath
      · cases h
    · obtain ⟨pass, -, rfl⟩ := List.mem_map.1 h
      cases resolution with
      | pathText path => exact insidePath
      | found path value =>
        dsimp only
        split
        · exact territory.pass insidePath (reached path value rfl) ‹_› pass
        · exact insidePath

/-- A stretch of a template is shown the same from both stores. -/
theorem walk_alike (territory : Territory names s inside) (agree : s.FacesAgree other inside)
    {outline : Outline} (named : ∀ tag ∈ outline.tags, tag.name ∈ names) (here : inside scope)
    (cursor boundary : Position) :
    walk ⟨t, s, options⟩ outline cursor boundary scope =
      walk ⟨t, other, options⟩ outline cursor boundary scope := by
  induction outline generalizing cursor boundary scope with
  | nil => rfl
  | cons tag body rest ihBody ihRest =>
    rw [Outline.tags, List.forall_mem_cons, List.forall_mem_append] at named
    obtain ⟨ofTag, ofBody, ofRest⟩ := named
    have alike := Store.resolve_alike territory agree here ofTag
    have later := ihRest ofRest here
    have passes (bodyEnd : Position) :
        (sectionScopes ⟨t, other, options⟩ tag scope).flatMap
            (walk ⟨t, s, options⟩ body tag.stop bodyEnd) =
          (sectionScopes ⟨t, other, options⟩ tag scope).flatMap
            (walk ⟨t, other, options⟩ body tag.stop bodyEnd) := by
      apply List.flatMap_congr
      intro inner member
      rw [← sectionScopes_alike alike] at member
      exact ihBody ofBody (inside_of_mem_sectionScopes territory here ofTag member) _ _
    rw [walk, walk, variableText_alike alike, sectionScopes_alike alike]
    simp only [later, passes]

end Rendering

/-- Stores whose values have the same faces wherever the names of a template lead give the
same page. -/
theorem Template.render_eq_of_face_eq (t : Template)
    (territory : Territory (t.outline.tags.map (·.name)) s inside)
    (agree : s.FacesAgree other inside) (options : Options) :
    t.render s options = t.render other options := by
  have named : ∀ tag ∈ t.outline.tags, tag.name ∈ t.outline.tags.map (·.name) :=
    fun tag member => List.mem_map_of_mem member
  have same : Rendering.pieces ⟨t, s, options⟩ = Rendering.pieces ⟨t, other, options⟩ :=
    Rendering.walk_alike territory agree named territory.root .start t.stop
  exact congrArg (Rendered.ofPieces options.lineNumbers) same

end Stencil
