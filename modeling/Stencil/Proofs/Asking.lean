import Mathlib.Data.List.Induction
import Stencil.Learn
import Stencil.Proofs.Brackets
import Stencil.Proofs.Tree

/-!
What a template asks for, found in one pass over its tags.

The requests of a template are read off the table of its nodes, each name behind the names of
the sections above its node. `Asking` does without a table. It takes the tags in order and
keeps the names of the open sections and the names that were asked for.

* `Asking.Follows.push`: one tag keeps a pass in step with a draft, which has the same open
  sections and whose table asks for the same names.
* `Outline.Grown.climbs_ancestors`: the names above a node are those that one meets on the way up
  from parent to parent.
* `Template.learnRequests_eq_pass`: the requests of a source are those of a pass over its tags.
-/

namespace Stencil

/-! ## One pass over the tags -/

/-- A pass over the tags of a template, as far as it has come. -/
structure Asking where
  /-- The names of the open sections, innermost first. -/
  opened : List String
  /-- The names that were asked for, each where it came first. -/
  names : List String

namespace Asking

def start : Asking := ⟨[], []⟩

/-- Asks for a name, unless that was done before. -/
def ask (a : Asking) (name : String) : Asking :=
  if name ∈ a.names then a else { a with names := a.names ++ [name] }

/-- Takes the next tag. A closing tag ends the innermost section, whatever its name, and
does nothing where no section is open. -/
def step (a : Asking) (tag : Tag) : Asking :=
  match tag.sigil with
  | some .closing => { a with opened := a.opened.tail }
  | some _ => { a with opened := tag.name :: a.opened }
  | none =>
    if (segments tag.name).isEmpty then a
    else a.ask (String.intercalate "." (a.opened.reverse ++ [tag.name]))

variable {a : Asking} {tag : Tag}

theorem step_of_closing (h : tag.sigil = some .closing) :
    a.step tag = { a with opened := a.opened.tail } := by
  rw [step, h]

theorem step_of_opens (h : tag.opens = true) :
    a.step tag = { a with opened := tag.name :: a.opened } := by
  unfold Tag.opens at h
  unfold step
  cases sigil : tag.sigil with
  | none => rw [sigil] at h; cases h
  | some sort =>
    rw [sigil] at h
    cases sort with
    | closing => cases h
    | opening => rfl
    | inverted => rfl

theorem step_of_variable (h : tag.sigil = none) :
    a.step tag = if (segments tag.name).isEmpty then a
      else a.ask (String.intercalate "." (a.opened.reverse ++ [tag.name])) := by
  rw [step, h]

end Asking

/-! ## The pass beside a draft -/

namespace Outline

/-- The names that a table of nodes asks for, with repetitions. -/
def requestedNames (table : List Node) : List String := table.filterMap Node.requestedName?

/-- A new node asks last, and no other node asks for anything else than before. -/
theorem requestedNames_grow (table : List Node) (parent : Nat) (ancestors : List String)
    (tag : Tag) :
    requestedNames (grow table parent ancestors tag) =
      requestedNames table ++
        (Node.requestedName? ⟨table.length, tag, parent, [], ancestors⟩).toList := by
  have kept : Node.requestedName? ∘ Node.withChild parent table.length = Node.requestedName? := by
    funext node
    simp [Node.requestedName?]
  rw [requestedNames, grow, List.filterMap_append, List.filterMap_map, kept]
  rfl

namespace Draft

variable {d : Draft} {raw : RawTag}

theorem requestedNames_push_of_sigil (h : raw.tag.sigil ≠ none) :
    requestedNames (d.push raw).outline.nodes = requestedNames d.outline.nodes := by
  have noVariable : raw.tag.isVariable = false := by
    rw [Tag.isVariable, Option.isNone_eq_false_iff, ← Option.ne_none_iff_isSome]
    exact h
  rw [nodes_push, requestedNames_grow, Node.requestedName?]
  simp [noVariable]

/-- A variable asks for its name behind those of the open sections, unless it is all dots. -/
theorem requestedNames_push_of_variable (h : raw.tag.sigil = none) :
    requestedNames (d.push raw).outline.nodes =
      requestedNames d.outline.nodes ++
        if (segments raw.tag.name).isEmpty then []
        else [String.intercalate "." (openNames d.sections ++ [raw.tag.name])] := by
  have isVariable : raw.tag.isVariable = true := by rw [Tag.isVariable, h]; rfl
  have notClosing : raw.tag.isClosing = false := by rw [Tag.isClosing, h]; rfl
  rw [nodes_push, requestedNames_grow, Node.requestedName?, around, notClosing]
  cases dots : (segments raw.tag.name).isEmpty <;> simp [isVariable, dots]

theorem sections_push_of_variable (h : raw.tag.sigil = none) :
    (d.push raw).sections = d.sections := by
  have flat : raw.tag.opens = false := by rw [Tag.opens, h]; rfl
  have notClosing : raw.tag.isClosing = false := by rw [Tag.isClosing, h]; rfl
  rw [sections_push, openBehind, flat, around, notClosing]
  rfl

end Draft

end Outline

open Outline (Draft requestedNames)

namespace Asking

theorem eraseDups_append_singleton (names : List String) (name : String) :
    (names ++ [name]).eraseDups =
      if name ∈ names.eraseDups then names.eraseDups else names.eraseDups ++ [name] := by
  rw [List.eraseDups_append]
  by_cases known : name ∈ names <;> simp [List.removeAll, List.eraseDups_cons, known]

/-- A pass is in step with a draft: the same sections are open, and it has asked once for each
name that the nodes of the draft ask for, in their order. -/
structure Follows (a : Asking) (d : Draft) : Prop where
  opened : a.opened = d.sections.map fun entry => entry.2.name
  names : a.names = (requestedNames d.outline.nodes).eraseDups

namespace Follows

theorem start : Asking.start.Follows .empty := ⟨rfl, rfl⟩

variable {a : Asking} {d : Draft} {raw : RawTag}

theorem openNames_eq (h : a.Follows d) : openNames d.sections = a.opened.reverse := by
  rw [openNames, h.opened]

theorem push_variable (h : a.Follows d) (plain : raw.tag.sigil = none) :
    (a.step raw.tag).Follows (d.push raw) := by
  have sections := Draft.sections_push_of_variable (d := d) plain
  have names := Draft.requestedNames_push_of_variable (d := d) plain
  rw [step_of_variable plain]
  by_cases dots : (segments raw.tag.name).isEmpty = true
  · rw [if_pos dots, List.append_nil] at names
    rw [if_pos dots]
    exact ⟨by rw [sections, h.opened], by rw [names, h.names]⟩
  · rw [if_neg dots, h.openNames_eq] at names
    rw [if_neg dots, ask]
    constructor
    case opened =>
      rw [sections, ← h.opened]
      split <;> rfl
    case names =>
      rw [names, eraseDups_append_singleton, ← h.names]
      split <;> rfl

theorem push_closing (h : a.Follows d) (closes : raw.tag.sigil = some .closing) :
    (a.step raw.tag).Follows (d.push raw) := by
  have isClosing : raw.tag.isClosing = true := decide_eq_true closes
  have flat : raw.tag.opens = false := by rw [Tag.opens, closes]; rfl
  have sigil : raw.tag.sigil ≠ none := by simp [closes]
  rw [step_of_closing closes]
  constructor
  case opened =>
    have behind : (d.push raw).sections = d.sections.tail := by
      rw [Draft.sections_push, openBehind, flat, around, isClosing]
      rfl
    rw [behind, List.map_tail, h.opened]
  case names => rw [Draft.requestedNames_push_of_sigil sigil, h.names]

theorem push_opens (h : a.Follows d) (opens : raw.tag.opens = true) :
    (a.step raw.tag).Follows (d.push raw) := by
  have sigil : raw.tag.sigil ≠ none := by
    intro plain
    rw [Tag.opens, plain] at opens
    cases opens
  rw [step_of_opens opens]
  constructor
  case opened =>
    rw [Draft.sections_push, openBehind, if_pos opens, List.map_cons, h.opened]
  case names => rw [Draft.requestedNames_push_of_sigil sigil, h.names]

/-- One tag keeps a pass in step. -/
theorem push (h : a.Follows d) (raw : RawTag) : (a.step raw.tag).Follows (d.push raw) := by
  rcases raw.tag.sigil_cases with plain | closes | opens
  · exact h.push_variable plain
  · exact h.push_closing closes
  · exact h.push_opens opens

/-- Every run of a pass stays in step. -/
theorem ofTags (tags : List RawTag) :
    ((tags.map RawTag.tag).foldl step Asking.start).Follows (Draft.ofTags tags) := by
  induction tags using List.reverseRecOn with
  | nil => exact .start
  | append_singleton tags raw ih =>
    rw [Draft.ofTags_append_singleton, List.map_append, List.foldl_append]
    exact ih.push raw

end Follows

end Asking

/-! ## The names above a node -/

namespace Outline

/-- A climb from a node to the root, the node itself included, and the names that it meets,
outermost first. The root has no name. -/
inductive Climbs (table : List Node) : Option Nat → List String → Prop
  | top : Climbs table none []
  | root {host : Node} {names : List String} :
    host ∈ table → host.id = 0 → Climbs table host.parent names →
    Climbs table (some host.id) names
  | host {host : Node} {names : List String} :
    host ∈ table → host.id ≠ 0 → Climbs table host.parent names →
    Climbs table (some host.id) (names ++ [host.name])

/-- The names above a node are met on the way up from its parent. -/
theorem Grown.climbs_ancestors {tags : List Tag} {table : List Node} (h : Grown tags table)
    {node : Node} (here : node ∈ table) : Climbs table node.parent node.ancestors := by
  -- Parents have smaller numbers.
  induction number : node.id using Nat.strongRecOn generalizing node with
  | ind id ih =>
  rcases h.origin node here with root | ⟨front, tag, back, split, pushed⟩
  · rw [root.top, root.names]
    exact .top
  · have inside := pushed.inside
    have below := h.parent_lt here inside
    obtain ⟨host, there, same⟩ := h.exists_node (Nat.lt_trans below (h.id_lt here))
    rw [← same] at inside below
    have climb := ih host.id (number ▸ below) there rfl
    rw [h.climbed here there inside, inside]
    by_cases outermost : host.id = 0
    · rw [if_pos outermost]
      have top : host.parent = none := by
        rcases h.origin host there with root | ⟨front, tag, back, -, pushed⟩
        · exact root.top
        · rw [pushed.number] at outermost
          cases outermost
      exact .root there outermost (by rw [top]; exact .top)
    · rw [if_neg outermost]
      exact .host there outermost climb

end Outline

namespace Template

/-- A pass over the tags of a source asks for what the template asks for. -/
theorem learnRequests_parse (source subject : String) :
    (parse source).learnRequests subject =
      (((scan source).map RawTag.tag).foldl Asking.step .start).names.map (⟨·, subject⟩) := by
  have follows := Asking.Follows.ofTags (scan source)
  rw [follows.names]
  rfl

/-- What a template asks for. One pass over the scanned tags asks for the same names in the same
order. The table that the requests are read off holds the nodes as a depth-first walk meets
them, and above each node the names that one meets on the way up to the root. -/
theorem learnRequests_eq_pass (source subject : String) :
    let t := parse source
    let pass := ((scan source).map RawTag.tag).foldl Asking.step .start
    t.learnRequests subject = pass.names.map (⟨·, subject⟩) ∧
      Outline.Visits t.outline.nodes [0] (t.outline.nodes.map Outline.Node.id) ∧
      ∀ node ∈ t.outline.nodes, Outline.Climbs t.outline.nodes node.parent node.ancestors := by
  intro t pass
  have grown : Outline.Grown ((scan source).map RawTag.tag) t.outline.nodes :=
    Outline.grown_ofTags (scan source)
  refine ⟨learnRequests_parse source subject, ?walk, fun node here => grown.climbs_ancestors here⟩
  case walk =>
    rw [grown.ids, ← grown.length_eq]
    exact Outline.visits_nodes t.outline

end Template

end Stencil
