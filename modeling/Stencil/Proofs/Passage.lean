import Stencil.Proofs.Nesting
import Stencil.Proofs.Segment
import Stencil.Render

/-!
What a template means, without places in its source.

A `Passage` is a template as a reader sees it: characters, variables, and sections
around further passages. `Passage.nest` builds it from the segments of a source, and
`Passage.meaning` says what it stands for in a scope of the store. Characters may be of
any type: `Passage.map_meaning` says that the meaning does not look at them.
-/

namespace Stencil

/-! ## Passages -/

/-- A part of a template, with characters of type `α` outside its tags. -/
inductive Passage (α : Type)
  | nil
  | literal (a : α) (rest : Passage α)
  /-- A variable, with a third brace if its value must not be escaped. -/
  | value (name : String) (raw : Bool) (rest : Passage α)
  /-- A section that is shown once for each pass over its value. -/
  | repeated (name : String) (body rest : Passage α)
  /-- A section that is shown where its value has no pass. -/
  | inverted (name : String) (body rest : Passage α)

/-- The place of a tag does not matter to its parts. -/
theorem RawTag.parts_eq_of_text {t u : RawTag} (h : t.text = u.text) : t.parts = u.parts := by
  have inside : t.inside = u.inside := by
    unfold RawTag.inside
    rw [h]
  unfold RawTag.parts
  rw [inside]

namespace Segment

variable {α : Type}

/-- What is inside a tag. Proofs never look into it, so that case splits over the
sigil do not compute it. -/
@[irreducible]
def parts (word : List Char) : TagParts := RawTag.parts ⟨.start, String.ofList word⟩

def sigil? : Segment α → Option Sigil
  | literal _ => none
  | tag word => (parts word).sigil

end Segment

namespace Passage

variable {α : Type}

/-- The section that a sigil opens. -/
def enclose (sigil : Sigil) (name : String) (body rest : Passage α) : Passage α :=
  if sigil = .inverted then inverted name body rest else repeated name body rest

/-- The passage of a sequence of segments. A closing tag ends the innermost section
that is open, and stands for nothing itself; a section that is not closed holds
all that follows it. -/
def nest : List (Segment α) → Passage α
  | [] => nil
  | .literal a :: rest => literal a (nest rest)
  | .tag word :: rest =>
    match (Segment.parts word).sigil with
    | none => value (Segment.parts word).name (Segment.parts word).raw (nest rest)
    | some .closing => nest rest
    | some sigil =>
      match _h : upToClose Segment.sigil? 0 rest with
      | (body, none) => enclose sigil (Segment.parts word).name (nest body) nil
      | (body, some (_, after)) =>
        enclose sigil (Segment.parts word).name (nest body) (nest after)
termination_by segments => segments.length
decreasing_by
  · simp
  · simp
  · simp
  · rw [upToClose_none _h, List.length_cons]; omega
  · rw [(upToClose_some _h).1, List.length_cons, List.length_append]; omega
  · rw [(upToClose_some _h).1, List.length_cons, List.length_append, List.length_cons]; omega

end Passage

/-- The scope of one pass over what a name stands for: inside a list it is the item
with the number of the pass. -/
def Resolution.passScope (pass : Nat) : Resolution → Path
  | found path value => if value.isList then path.withIndex pass else path
  | pathText path => path

namespace Passage

/-! ## Meaning -/

section Meaning

variable {α : Type} (store : Store) (options : Options) (inserted : Char → α)

/-- What a variable means: the text of its value, or of a path, or the placeholder. -/
def variableMeaning (name : String) (raw : Bool) (scope : Path) : String :=
  match store.resolve scope name with
  | .ok (.found _ (.scalar text)) =>
    if options.escapeHtml && !raw then Html.escape text else text
  | .ok (.pathText path) => path.text
  | _ => options.placeholder

/-- What a passage means in a scope. Inserted text is made of `inserted` characters. -/
def meaning : Passage α → Path → List α
  | nil, _ => []
  | literal a rest, scope => a :: rest.meaning scope
  | value name raw rest, scope =>
    (variableMeaning store options name raw scope).toList.map inserted ++ rest.meaning scope
  | repeated name body rest, scope =>
    (match store.resolve scope name with
      | .ok resolution =>
        (List.range resolution.passCount).flatMap fun pass =>
          body.meaning (resolution.passScope pass)
      | .error _ => []) ++ rest.meaning scope
  | inverted name body rest, scope =>
    (match store.resolve scope name with
      | .ok resolution =>
        if resolution.passCount = 0 then body.meaning resolution.path else []
      | .error _ => body.meaning scope) ++ rest.meaning scope

end Meaning

end Passage

/-! ## Nesting by cases -/

namespace Passage

variable {α : Type}

theorem nest_nil : nest ([] : List (Segment α)) = nil := by rw [nest]

theorem nest_literal (a : α) (rest : List (Segment α)) :
    nest (.literal a :: rest) = literal a (nest rest) := by rw [nest]

theorem nest_value {word : List Char} (h : (Segment.parts word).sigil = none)
    (rest : List (Segment α)) :
    nest (.tag word :: rest) =
      value (Segment.parts word).name (Segment.parts word).raw (nest rest) := by
  rw [nest]
  simp [h]

theorem nest_close {word : List Char} (h : (Segment.parts word).sigil = some .closing)
    (rest : List (Segment α)) : nest (.tag word :: rest) = nest rest := by
  rw [nest]
  simp [h]

theorem nest_unclosed {word : List Char} {sigil : Sigil}
    (h : (Segment.parts word).sigil = some sigil) (opens : sigil ≠ .closing)
    {rest body : List (Segment α)} (found : upToClose Segment.sigil? 0 rest = (body, none)) :
    nest (.tag word :: rest) = enclose sigil (Segment.parts word).name (nest body) nil := by
  rw [nest]
  split
  · simp_all
  · simp_all
  · rename_i same
    cases h.symm.trans same
    split
    · rename_i other
      cases found.symm.trans other
      rfl
    · rename_i other
      cases found.symm.trans other

theorem nest_closed {word : List Char} {sigil : Sigil}
    (h : (Segment.parts word).sigil = some sigil) (opens : sigil ≠ .closing)
    {rest body after : List (Segment α)} {close : Segment α}
    (found : upToClose Segment.sigil? 0 rest = (body, some (close, after))) :
    nest (.tag word :: rest) =
      enclose sigil (Segment.parts word).name (nest body) (nest after) := by
  rw [nest]
  split
  · simp_all
  · simp_all
  · rename_i same
    cases h.symm.trans same
    split
    · rename_i other
      cases found.symm.trans other
    · rename_i other
      cases found.symm.trans other
      rfl

end Passage

/-! ## Passages of other characters -/

section Map

variable {α β : Type} (f : α → β)

def Segment.map : Segment α → Segment β
  | literal a => literal (f a)
  | tag word => tag word

namespace Passage

def map : Passage α → Passage β
  | nil => nil
  | literal a rest => literal (f a) rest.map
  | value name raw rest => value name raw rest.map
  | repeated name body rest => repeated name body.map rest.map
  | inverted name body rest => inverted name body.map rest.map

theorem map_enclose (sigil : Sigil) (name : String) (body rest : Passage α) :
    (enclose sigil name body rest).map f = enclose sigil name (body.map f) (rest.map f) := by
  unfold enclose
  split <;> rfl

theorem upToClose_map (depth : Nat) (segments : List (Segment α)) :
    upToClose Segment.sigil? depth (segments.map (Segment.map f)) =
      ((upToClose Segment.sigil? depth segments).1.map (Segment.map f),
        (upToClose Segment.sigil? depth segments).2.map fun (close, after) =>
          (close.map f, after.map (Segment.map f))) := by
  have kept : ∀ (a : Segment α) b, (some ∘ Segment.map f) a = some b → b.sigil? = a.sigil? := by
    intro a b same
    cases a <;> cases same <;> rfl
  have found := upToClose_filterMap (by rintro a ⟨⟩) kept depth segments
  simp only [List.filterMap_eq_map] at found
  rw [found]
  rcases (upToClose Segment.sigil? depth segments).2 with _ | ⟨close, after⟩ <;> rfl

theorem nest_map (segments : List (Segment α)) :
    nest (segments.map (Segment.map f)) = (nest segments).map f := by
  fun_induction nest segments with
  | case1 => rw [List.map_nil, nest_nil]; rfl
  | case2 a rest ih => rw [List.map_cons, Segment.map, nest_literal, ih]; rfl
  | case3 word rest hsigil ih => rw [List.map_cons, Segment.map, nest_value hsigil, ih]; rfl
  | case4 word rest hsigil ih => rw [List.map_cons, Segment.map, nest_close hsigil, ih]
  | case5 word rest sigil opens hsigil body found ih =>
    have image := upToClose_map f 0 rest
    rw [found] at image
    rw [List.map_cons, Segment.map, nest_unclosed hsigil opens image, map_enclose, ih]
    rfl
  | case6 word rest sigil opens hsigil body close after found ihBody ihAfter =>
    have image := upToClose_map f 0 rest
    rw [found] at image
    rw [List.map_cons, Segment.map, nest_closed hsigil opens image, map_enclose, ihBody, ihAfter]

theorem map_meaning (store : Store) (options : Options) (inserted : Char → α)
    (p : Passage α) (scope : Path) :
    (p.meaning store options inserted scope).map f =
      (p.map f).meaning store options (f ∘ inserted) scope := by
  induction p generalizing scope with
  | nil => rfl
  | literal a rest ih => simp [meaning, map, ih]
  | value name raw rest ih => simp [meaning, map, ih]
  | repeated name body rest ihBody ihRest =>
    simp only [meaning, map, List.map_append, ihRest]
    cases store.resolve scope name with
    | error e => rfl
    | ok resolution => simp [List.map_flatMap, ihBody]
  | inverted name body rest ihBody ihRest =>
    simp only [meaning, map, List.map_append, ihRest]
    cases store.resolve scope name with
    | error e => simp [ihBody]
    | ok resolution => by_cases none : resolution.passCount = 0 <;> simp [none, ihBody]

end Passage

end Map

/-- The text that a passage of characters stands for outside all sections. -/
def Passage.text (store : Store) (options : Options) (p : Passage Char) : String :=
  String.ofList (p.meaning store options id [])

end Stencil
