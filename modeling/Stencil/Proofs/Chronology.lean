import Mathlib.Data.List.Nodup
import Stencil.Render

/-!
What a render does, in order.

The output of a render does not say how it came about. `Rendering.events` does: which bodies
were entered and in which scope, which stretches of the source were copied, and where a text
was put in for a variable, each with the passes over sections that were going on.
`Rendering.flatMap_output_events` says that these events make the output, so that nothing
happens beside them.

`Rendering.Kept.events` is the one induction over a template that the rest goes by: what a step
into a pass or on to the next tag keeps holds for all events.

`Rendering.Entered` says how scopes come about: from the root by one pass after another, each to
an item of a list, to a value, or to no other place. All scopes of a render come about so
(`Rendering.entered_events`), and facts about them go by induction over the passes and need no
look at the outline.
-/

namespace Stencil

/-! ## Events -/

/-- A pass over the body of a section. -/
structure Pass where
  /-- The tag that opens the section. -/
  tag : Tag
  /-- The scope in which the tag stands, where its name is looked up. -/
  outer : Path
  number : Nat
  deriving DecidableEq

/-- A body on its way to the output. -/
structure Chunk where
  body : Outline
  cursor : Position
  boundary : Position
  scope : Path
  /-- The passes that are going on, the innermost first. -/
  passes : List Pass
  deriving DecidableEq

/-- Something that a render does. -/
inductive Event
  | enter (chunk : Chunk)
  | copy (start stop : Position)
  /-- A text is put in for a variable. -/
  | insert (tag : Tag) (scope : Path) (passes : List Pass)
  deriving DecidableEq

/-- Whether the scope and the passes that belong to an event are related. -/
def Event.Holds (related : Path → List Pass → Prop) : Event → Prop
  | enter chunk => related chunk.scope chunk.passes
  | copy _ _ => True
  | insert _ scope passes => related scope passes

/-- Whether a relation between a body, its scope and the passes holds where an event takes place:
for the body that is entered, or for the tags from a variable on. -/
def Event.Meets (holds : Outline → Path → List Pass → Prop) : Event → Prop
  | enter chunk => holds chunk.body chunk.scope chunk.passes
  | copy _ _ => True
  | insert tag scope passes =>
    tag.isVariable = true ∧ ∃ body rest, holds (.cons tag body rest) scope passes

namespace Rendering

/-- The events of a body, from `cursor` to `boundary`, when it has been entered. -/
def bodyEvents (r : Rendering) : Outline → Position → Position → Path → List Pass → List Event
  | .nil, cursor, boundary, _, _ => [.copy cursor boundary]
  | .cons tag body rest, cursor, boundary, scope, passes =>
    if boundary ≤ tag.position then [.copy cursor boundary]
    else
      .copy cursor tag.position ::
        if tag.opens then
          let bodyEnd := rest.leadingClose?.elim boundary (·.position)
          ((r.sectionScopes tag scope).zipIdx.flatMap fun (inner, number) =>
            let enclosing := ⟨tag, scope, number⟩ :: passes
            .enter ⟨body, tag.stop, bodyEnd, inner, enclosing⟩ ::
              r.bodyEvents body tag.stop bodyEnd inner enclosing) ++
            r.bodyEvents rest bodyEnd boundary scope passes
        else if tag.isClosing then r.bodyEvents rest tag.stop boundary scope passes
        else .insert tag scope passes :: r.bodyEvents rest tag.stop boundary scope passes

/-- The events of a whole render. -/
def events (r : Rendering) : List Event :=
  .enter ⟨r.template.outline, .start, r.template.stop, [], []⟩ ::
    r.bodyEvents r.template.outline .start r.template.stop [] []

/-! ## The output -/

/-- What an event adds to the output. -/
def output (r : Rendering) : Event → List Piece
  | .enter _ => []
  | .copy start stop => copySource r.template start stop
  | .insert tag scope _ => [.text (r.variableText tag scope)]

theorem flatMap_zipIdx {α β : Type} (f : α → List β) (l : List α) :
    (l.zipIdx.flatMap fun (a, _) => f a) = l.flatMap f :=
  calc
    (l.zipIdx.flatMap fun (a, _) => f a) = (l.zipIdx.map Prod.fst).flatMap f :=
      (List.flatMap_map ..).symm
    _ = l.flatMap f := by rw [List.zipIdx_map_fst]

/-- The walk over a body puts out what its events do. -/
theorem flatMap_output_bodyEvents (r : Rendering) (outline : Outline) (cursor boundary : Position)
    (scope : Path) (passes : List Pass) :
    (r.bodyEvents outline cursor boundary scope passes).flatMap r.output =
      r.walk outline cursor boundary scope := by
  induction outline generalizing cursor boundary scope passes with
  | nil => exact List.flatMap_singleton _ _
  | cons tag body rest ihBody ihRest =>
    rw [bodyEvents, walk]
    by_cases outside : boundary ≤ tag.position
    · rw [if_pos outside, if_pos outside]
      exact List.flatMap_singleton _ _
    · rw [if_neg outside, if_neg outside, List.flatMap_cons]
      congr 1
      by_cases opens : tag.opens = true
      · -- The passes are numbered for the events only.
        rw [if_pos opens, if_pos opens]
        dsimp only
        rw [List.flatMap_append, ihRest, List.flatMap_assoc]
        simp only [List.flatMap_cons, output, List.nil_append, ihBody]
        rw [flatMap_zipIdx]
      · rw [if_neg opens, if_neg opens]
        by_cases closes : tag.isClosing = true
        · rw [if_pos closes, if_pos closes, ihRest]
        · rw [if_neg closes, if_neg closes, List.flatMap_cons, ihRest]
          rfl

/-- The output of a render is what its events put out. -/
theorem flatMap_output_events (r : Rendering) : r.events.flatMap r.output = r.pieces :=
  flatMap_output_bodyEvents r r.template.outline .start r.template.stop [] []

/-! ## Invariants -/

/-- Whether a relation between a body, its scope and the passes that are going on is kept on the
way through a template: into the passes over a section, and on to what stands behind a tag. -/
structure Kept (r : Rendering) (holds : Outline → Path → List Pass → Prop) : Prop where
  pass {tag : Tag} {body rest : Outline} {outer inner : Path} {number : Nat} {passes : List Pass} :
    holds (.cons tag body rest) outer passes →
    (inner, number) ∈ (r.sectionScopes tag outer).zipIdx →
    holds body inner (⟨tag, outer, number⟩ :: passes)
  rest {tag : Tag} {body rest : Outline} {scope : Path} {passes : List Pass} :
    holds (.cons tag body rest) scope passes → holds rest scope passes

variable {r : Rendering}

/-- What is neither opened nor closed is a variable. -/
theorem isVariable_of_flat {tag : Tag} (flat : ¬ tag.opens = true) (stays : ¬ tag.isClosing = true) :
    tag.isVariable = true := by
  unfold Tag.opens at flat
  unfold Tag.isClosing at stays
  unfold Tag.isVariable
  cases sigil : tag.sigil with
  | none => rfl
  | some sort => cases sort <;> simp_all [Sigil.opens]

/-- What is kept on the way holds for every event of a body. -/
theorem Kept.bodyEvents {holds : Outline → Path → List Pass → Prop} (kept : r.Kept holds)
    {outline : Outline} {cursor boundary : Position} {scope : Path} {passes : List Pass}
    (here : holds outline scope passes) :
    ∀ event ∈ r.bodyEvents outline cursor boundary scope passes, event.Meets holds := by
  induction outline generalizing cursor boundary scope passes with
  | nil =>
    intro event member
    cases List.mem_singleton.1 member
    trivial
  | cons tag body rest ihBody ihRest =>
    have later := kept.rest here
    rw [Rendering.bodyEvents]
    split
    · intro event member
      cases List.mem_singleton.1 member
      trivial
    · refine List.forall_mem_cons.2 ⟨trivial, ?_⟩
      split
      · refine List.forall_mem_append.2 ⟨?_, ihRest later⟩
        intro event member
        obtain ⟨⟨inner, number⟩, isPass, inside⟩ := List.mem_flatMap.1 member
        have within := kept.pass here isPass
        rcases List.mem_cons.1 inside with rfl | below
        · exact within
        · exact ihBody within event below
      · rename_i flat
        split
        · exact ihRest later
        · rename_i stays
          exact List.forall_mem_cons.2 ⟨⟨isVariable_of_flat flat stays, body, rest, here⟩, ihRest later⟩

/-- What holds for the whole template and is kept on the way holds for every event of a render. -/
theorem Kept.events {holds : Outline → Path → List Pass → Prop} (kept : r.Kept holds)
    (here : holds r.template.outline [] []) : ∀ event ∈ r.events, event.Meets holds :=
  List.forall_mem_cons.2 ⟨here, kept.bodyEvents here⟩

/-! ## Scopes -/

/-- How a sequence of passes, the innermost first, comes to its scope from the root. -/
inductive Entered (r : Rendering) : Path → List Pass → Prop
  | root : Entered r [] []
  | pass {tag : Tag} {outer inner : Path} {number : Nat} {passes : List Pass}
    (around : Entered r outer passes) (isPass : (inner, number) ∈ (r.sectionScopes tag outer).zipIdx) :
    Entered r inner (⟨tag, outer, number⟩ :: passes)

/-- All scopes of a render come about by its passes. -/
theorem entered_events (r : Rendering) : ∀ event ∈ r.events, event.Holds r.Entered := by
  have kept : r.Kept fun _ => r.Entered := ⟨.pass, id⟩
  intro event member
  have meets := kept.events .root event member
  cases event with
  | enter chunk => exact meets
  | copy start stop => trivial
  | insert tag scope passes =>
    obtain ⟨-, -, -, entered⟩ := meets
    exact entered

/-! ## One pass -/

/-- How a pass comes to its scope from the one around it. -/
inductive Enters (s : Store) (tag : Tag) (outer : Path) (number : Nat) : Path → Prop
  /-- A list is repeated item by item. -/
  | item {path : Path} {items : List Value}
    (found : s.resolve outer tag.name = .ok (.found path (.list items)))
    (repeats : tag.sigil ≠ some .inverted) (inside : number < items.length) :
    Enters s tag outer number (path.withIndex number)
  /-- Anything else is entered as it is, and so is a list by an inverted section. -/
  | value {path : Path} {v : Value} (found : s.resolve outer tag.name = .ok (.found path v))
    (whole : v.isList = false ∨ tag.sigil = some .inverted) : Enters s tag outer number path
  | pathText {path : Path} (asked : s.resolve outer tag.name = .ok (.pathText path)) :
    Enters s tag outer number path
  /-- An inverted section whose name means nothing stays in the scope around it. -/
  | missing {e : NotFound} (missed : s.resolve outer tag.name = .error e) :
    Enters s tag outer number outer

theorem enters_of_mem_sectionScopes {tag : Tag} {outer inner : Path} {number : Nat}
    (h : (inner, number) ∈ (r.sectionScopes tag outer).zipIdx) :
    Enters r.store tag outer number inner := by
  rw [List.mk_mem_zipIdx_iff_getElem?] at h
  unfold sectionScopes at h
  by_cases inverted : tag.sigil = some .inverted
  · have member := List.mem_of_getElem? h
    rw [if_pos inverted] at member
    cases resolved : r.store.resolve outer tag.name with
    | error e =>
      rw [resolved, invertedScopes] at member
      cases List.mem_singleton.1 member
      exact .missing resolved
    | ok resolution =>
      rw [resolved, invertedScopes] at member
      split at member
      · cases List.mem_singleton.1 member
        cases resolution with
        | found path v => exact .value resolved (.inr inverted)
        | pathText path => exact .pathText resolved
      · cases member
  · rw [if_neg inverted] at h
    cases resolved : r.store.resolve outer tag.name with
    | error e =>
      rw [resolved, repeatedScopes] at h
      cases h
    | ok resolution =>
      rw [resolved, repeatedScopes, List.getElem?_map] at h
      obtain ⟨pass, isPass, rfl⟩ := Option.map_eq_some_iff.1 h
      obtain ⟨inside, rfl⟩ := List.getElem?_eq_some_iff.1 isPass
      rw [List.length_range] at inside
      rw [List.getElem_range]
      cases resolution with
      | pathText path => exact .pathText resolved
      | found path v =>
        cases v with
        | list items => exact .item resolved inverted inside
        | _ => exact .value resolved (.inl rfl)

/-- What is no list has one pass at most. -/
theorem passCount_le_one {v : Value} (h : v.isList = false) : v.passCount ≤ 1 := by
  cases v with
  | list items => cases h
  | mapping entries => exact Nat.le_refl 1
  | scalar text =>
    rw [Value.passCount]
    split <;> decide

theorem nodup_repeatedScopes (result : Except NotFound Resolution) :
    (repeatedScopes result).Nodup := by
  cases result with
  | error e => exact List.nodup_nil
  | ok resolution =>
    refine List.nodup_range.map_on ?_
    intro n isPass m isPass' same
    rw [List.mem_range] at isPass isPass'
    cases resolution with
    | pathText path =>
      have few : (Resolution.pathText path).passCount ≤ 1 :=
        passCount_le_one (v := .scalar path.text) rfl
      omega
    | found path v =>
      cases isList : v.isList with
      | true =>
        simp only [isList, if_true] at same
        cases List.append_cancel_left same
        rfl
      | false =>
        have few : (Resolution.found path v).passCount ≤ 1 := passCount_le_one isList
        omega

theorem nodup_invertedScopes (outer : Path) (result : Except NotFound Resolution) :
    (invertedScopes outer result).Nodup := by
  cases result with
  | error e => exact List.nodup_singleton outer
  | ok resolution =>
    rw [invertedScopes]
    split
    · exact List.nodup_singleton _
    · exact List.nodup_nil

/-- The passes of a section have different scopes. -/
theorem nodup_sectionScopes (r : Rendering) (tag : Tag) (outer : Path) :
    (r.sectionScopes tag outer).Nodup := by
  unfold sectionScopes
  dsimp only
  split
  · exact nodup_invertedScopes outer _
  · exact nodup_repeatedScopes _

end Rendering

end Stencil
