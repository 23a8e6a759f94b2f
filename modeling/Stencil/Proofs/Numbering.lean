import Stencil.Proofs.Nesting
import Stencil.Proofs.Opened

/-!
The numbers of nodes while an outline is built.

Nodes are numbered by a walk over a finished outline. A builder could as well keep a table
and give each tag the next free number as it comes: the numbers would be the same, because
a tag always comes to stand behind all others. `Outline.nodes_push` says so. One push adds
one node at the end of the table, enters it as the last child of the innermost section
that is open around it, and changes nothing else.

Which sections those are can be read off the tags alone: `openSections` keeps the stack of
them by number, and `Draft.sections_push` says that a draft has the same stack.
-/

namespace Stencil

namespace Outline

/-! ## Tables of nodes -/

/-- Enters a child at the end, if this is the node `parent`. -/
def Node.withChild (parent child : Nat) (node : Node) : Node :=
  if node.id = parent then { node with children := node.children ++ [child] } else node

/-- A table with one node more, which becomes the last child of the node `parent`. -/
def grow (table : List Node) (parent : Nat) (ancestors : List String) (tag : Tag) : List Node :=
  table.map (Node.withChild parent table.length) ++
    [{ id := table.length, tag := some tag, parent := some parent, children := [], ancestors }]

section WithChild

variable (parent child : Nat) (node : Node)

@[simp]
theorem Node.id_withChild : (node.withChild parent child).id = node.id := by
  unfold Node.withChild
  split <;> rfl

@[simp]
theorem Node.tag_withChild : (node.withChild parent child).tag = node.tag := by
  unfold Node.withChild
  split <;> rfl

@[simp]
theorem Node.parent_withChild : (node.withChild parent child).parent = node.parent := by
  unfold Node.withChild
  split <;> rfl

@[simp]
theorem Node.ancestors_withChild : (node.withChild parent child).ancestors = node.ancestors := by
  unfold Node.withChild
  split <;> rfl

theorem Node.children_withChild :
    (node.withChild parent child).children =
      node.children ++ if node.id = parent then [child] else [] := by
  unfold Node.withChild
  split <;> simp

theorem Node.id_comp_withChild : Node.id ∘ Node.withChild parent child = Node.id :=
  funext fun node => Node.id_withChild parent child node

theorem map_withChild_of_notMem {table : List Node} (h : parent ∉ table.map Node.id) :
    table.map (Node.withChild parent child) = table := by
  refine (List.map_congr_left ?_).trans (List.map_id table)
  intro node member
  have other : node.id ≠ parent := by
    intro same
    rw [← same] at h
    exact h (List.mem_map_of_mem member)
  rw [Node.withChild, if_neg other]
  rfl

end WithChild

/-! ## Levels -/

theorem size_ofLevel (tail : Outline) (level : Level) :
    (ofLevel tail level).size = (ofLevel nil level).size + tail.size := by
  induction level generalizing tail with
  | nil => exact (Nat.zero_add _).symm
  | cons entry level ih =>
    obtain ⟨tag, body⟩ := entry
    have here := ih (cons tag body tail)
    have alone := ih (cons tag body nil)
    simp only [ofLevel, List.foldl_cons, size] at here alone ⊢
    omega

theorem siblingIds_ofLevel (first : Nat) (tail : Outline) (level : Level) :
    (ofLevel tail level).siblingIds first =
      (ofLevel nil level).siblingIds first ++
        tail.siblingIds (first + (ofLevel nil level).size) := by
  induction level generalizing tail with
  | nil => rfl
  | cons entry level ih =>
    obtain ⟨tag, body⟩ := entry
    have size : (ofLevel nil ((tag, body) :: level)).size =
        (ofLevel nil level).size + (1 + body.size) :=
      size_ofLevel (cons tag body nil) level
    have here : (ofLevel tail ((tag, body) :: level)).siblingIds first = _ :=
      ih (cons tag body tail)
    have alone : (ofLevel nil ((tag, body) :: level)).siblingIds first = _ :=
      ih (cons tag body nil)
    rw [here, alone, size]
    simp [siblingIds, Nat.add_assoc]

theorem nodesFrom_ofLevel (parent : Nat) (ancestors : List String) (first : Nat) (tail : Outline)
    (level : Level) :
    (ofLevel tail level).nodesFrom parent ancestors first =
      (ofLevel nil level).nodesFrom parent ancestors first ++
        tail.nodesFrom parent ancestors (first + (ofLevel nil level).size) := by
  induction level generalizing tail with
  | nil => rfl
  | cons entry level ih =>
    obtain ⟨tag, body⟩ := entry
    have size : (ofLevel nil ((tag, body) :: level)).size =
        (ofLevel nil level).size + (1 + body.size) :=
      size_ofLevel (cons tag body nil) level
    have here : (ofLevel tail ((tag, body) :: level)).nodesFrom parent ancestors first = _ :=
      ih (cons tag body tail)
    have alone : (ofLevel nil ((tag, body) :: level)).nodesFrom parent ancestors first = _ :=
      ih (cons tag body nil)
    rw [here, alone, size]
    simp [nodesFrom, Nat.add_assoc]

/-! ## Numbers below a node -/

/-- The nodes below a node have the numbers that follow its own. -/
theorem map_id_nodesFrom (parent : Nat) (ancestors : List String) (first : Nat) (o : Outline) :
    (o.nodesFrom parent ancestors first).map Node.id = List.range' first o.size := by
  induction o generalizing parent ancestors first with
  | nil => rfl
  | cons tag body rest ihBody ihRest =>
    have split : (cons tag body rest).size = 1 + (body.size + rest.size) := by
      rw [size, Nat.add_assoc]
    rw [nodesFrom, List.map_cons, List.map_append, ihBody, ihRest, split, Nat.add_comm 1,
      List.range'_succ, ← List.range'_append_1]

theorem length_nodesFrom (parent : Nat) (ancestors : List String) (first : Nat) (o : Outline) :
    (o.nodesFrom parent ancestors first).length = o.size := by
  rw [← List.length_map Node.id, map_id_nodesFrom, List.length_range']

theorem length_nodes (o : Outline) : o.nodes.length = o.size + 1 := by
  rw [nodes, List.length_cons, length_nodesFrom]

/-- A node with all nodes below it. -/
def subtree (id : Nat) (tag : Option Tag) (parent : Option Nat) (ancestors below : List String)
    (body : Outline) : List Node :=
  { id, tag, parent, children := body.siblingIds (id + 1), ancestors } ::
    body.nodesFrom id below (id + 1)

/-- A node and what is below it, up to a tag that is the last of its children. -/
def upToLast (id : Nat) (tag : Option Tag) (parent : Option Nat) (ancestors below : List String)
    (level : Level) : List Node :=
  { id, tag, parent,
    children := (ofLevel nil level).siblingIds (id + 1) ++ [id + 1 + (ofLevel nil level).size],
    ancestors } ::
    (ofLevel nil level).nodesFrom id below (id + 1)

theorem map_id_upToLast (id : Nat) (tag : Option Tag) (parent : Option Nat)
    (ancestors below : List String) (level : Level) :
    (upToLast id tag parent ancestors below level).map Node.id =
      List.range' id ((ofLevel nil level).size + 1) := by
  rw [upToLast, List.map_cons, map_id_nodesFrom, List.range'_succ]

/-- With the number that comes next entered at its first node, a subtree is ready for one
more child. -/
theorem map_withChild_subtree (id : Nat) (tag : Option Tag) (parent : Option Nat)
    (ancestors below : List String) (level : Level) :
    (subtree id tag parent ancestors below (ofLevel nil level)).map
        (Node.withChild id (id + 1 + (ofLevel nil level).size)) =
      upToLast id tag parent ancestors below level := by
  have notBelow : id ∉ ((ofLevel nil level).nodesFrom id below (id + 1)).map Node.id := by
    rw [map_id_nodesFrom, List.mem_range'_1]
    omega
  rw [subtree, List.map_cons, map_withChild_of_notMem _ _ notBelow, Node.withChild, if_pos rfl,
    upToLast]

/-- The last child of a node has a subtree of its own at the end of that of the node, and
nothing in front of it looks into it. -/
theorem subtree_ofLevel (id : Nat) (tag : Option Tag) (parent : Option Nat)
    (ancestors below : List String) (level : Level) (last : Tag) (body : Outline) :
    subtree id tag parent ancestors below (ofLevel (cons last body nil) level) =
      upToLast id tag parent ancestors below level ++
        subtree (id + 1 + (ofLevel nil level).size) (some last) (some id) below
          (below ++ [last.name]) body := by
  rw [subtree, siblingIds_ofLevel, nodesFrom_ofLevel, upToLast]
  simp [siblingIds, nodesFrom, subtree]

namespace Draft

/-- The open sections of a draft by number, innermost first. -/
def sectionsOf : List (Tag × Level) → List (Nat × Tag)
  | [] => []
  | (tag, before) :: outer =>
    (innermost (sectionsOf outer) + 1 + (ofLevel nil before).size, tag) :: sectionsOf outer

def sections (d : Draft) : List (Nat × Tag) := sectionsOf d.enclosing

theorem length_sections (d : Draft) : d.sections.length = d.depth := by
  have lengths : ∀ enclosing, (sectionsOf enclosing).length = enclosing.length := by
    intro enclosing
    induction enclosing with
    | nil => rfl
    | cons entry outer ih => rw [sectionsOf, List.length_cons, List.length_cons, ih]
  exact lengths d.enclosing

/-- The outline of what is open around a body that has come so far. -/
def enclose (enclosing : List (Tag × Level)) (body : Outline) : Outline :=
  enclosing.foldl (fun body (tag, before) => ofLevel (cons tag body nil) before) body

theorem outline_eq_enclose (d : Draft) : d.outline = enclose d.enclosing (ofLevel nil d.level) :=
  rfl

theorem enclose_cons (tag : Tag) (before : Level) (outer : List (Tag × Level)) (body : Outline) :
    enclose ((tag, before) :: outer) body = enclose outer (ofLevel (cons tag body nil) before) :=
  rfl

/-- The body of the innermost open section makes the end of the table, whatever it is. -/
theorem exists_nodes_enclose (enclosing : List (Tag × Level)) :
    ∃ outside tag parent ancestors,
      outside.map Node.id = List.range (innermost (sectionsOf enclosing)) ∧
      ∀ body, (enclose enclosing body).nodes =
        outside ++ subtree (innermost (sectionsOf enclosing)) tag parent ancestors
          (openNames (sectionsOf enclosing)) body := by
  induction enclosing with
  | nil => exact ⟨[], none, none, [], rfl, fun body => rfl⟩
  | cons entry outer ih =>
    obtain ⟨last, before⟩ := entry
    obtain ⟨outside, tag, parent, ancestors, ids, nodes⟩ := ih
    have number : innermost (sectionsOf ((last, before) :: outer)) =
        innermost (sectionsOf outer) + 1 + (ofLevel nil before).size := rfl
    have names : openNames (sectionsOf ((last, before) :: outer)) =
        openNames (sectionsOf outer) ++ [last.name] := by
      simp [openNames, sectionsOf]
    refine ⟨outside ++ upToLast (innermost (sectionsOf outer)) tag parent ancestors
      (openNames (sectionsOf outer)) before, some last, some (innermost (sectionsOf outer)),
      openNames (sectionsOf outer), ?_, ?_⟩
    · have joined := @List.range'_append_1 0 (innermost (sectionsOf outer))
        ((ofLevel nil before).size + 1)
      rw [Nat.zero_add] at joined
      rw [List.map_append, ids, map_id_upToLast, number, List.range_eq_range',
        List.range_eq_range', joined, Nat.add_assoc, Nat.add_comm 1]
    · intro body
      rw [enclose_cons, nodes, subtree_ofLevel, ← number, ← names, List.append_assoc]

/-- The next free number. -/
theorem length_nodes_outline (d : Draft) :
    d.outline.nodes.length = innermost d.sections + 1 + (ofLevel nil d.level).size := by
  obtain ⟨outside, tag, parent, ancestors, ids, nodes⟩ := exists_nodes_enclose d.enclosing
  have lengths := congrArg List.length ids
  rw [List.length_map, List.length_range] at lengths
  rw [outline_eq_enclose, nodes, List.length_append, lengths, subtree, List.length_cons,
    length_nodesFrom]
  exact (Nat.add_right_comm _ 1 _).symm

/-! ## One push -/

/-- A tag without a body becomes the last node, and the last child of the innermost open
section. -/
theorem nodes_attach (d : Draft) (tag : Tag) :
    (d.attach tag).outline.nodes =
      grow d.outline.nodes (innermost d.sections) (openNames d.sections) tag := by
  obtain ⟨outside, top, parent, ancestors, ids, nodes⟩ := exists_nodes_enclose d.enclosing
  have notOutside : innermost d.sections ∉ outside.map Node.id := by
    rw [ids, List.mem_range]
    exact Nat.lt_irrefl _
  have before : d.outline.nodes = outside ++ subtree (innermost d.sections) top parent ancestors
      (openNames d.sections) (ofLevel nil d.level) := nodes _
  have after : (d.attach tag).outline.nodes =
      outside ++ subtree (innermost d.sections) top parent ancestors (openNames d.sections)
        (ofLevel (cons tag nil nil) d.level) := nodes _
  rw [after, subtree_ofLevel, grow, length_nodes_outline, before, List.map_append,
    map_withChild_of_notMem _ _ notOutside, map_withChild_subtree, List.append_assoc]
  rfl

theorem outline_leave (d : Draft) : d.leave.outline = d.outline := by
  obtain ⟨level, enclosing⟩ := d
  cases enclosing <;> rfl

theorem sections_leave (d : Draft) : d.leave.sections = d.sections.tail := by
  obtain ⟨level, enclosing⟩ := d
  cases enclosing <;> rfl

/-- A section that starts gets the next free number. -/
theorem sections_enter (d : Draft) (tag : Tag) :
    (d.enter tag).sections = (d.outline.nodes.length, tag) :: d.sections := by
  rw [length_nodes_outline]
  rfl

/-- What a push does, by the kind of the tag. -/
theorem push_cases (d : Draft) (raw : RawTag) :
    (raw.tag.opens = true ∧ raw.tag.isClosing = false ∧ d.push raw = d.enter raw.tag) ∨
    (raw.tag.opens = false ∧ raw.tag.isClosing = true ∧ d.push raw = d.leave.attach raw.tag) ∨
    (raw.tag.opens = false ∧ raw.tag.isClosing = false ∧ d.push raw = d.attach raw.tag) := by
  unfold push Tag.opens Tag.isClosing
  generalize raw.tag = tag
  dsimp only
  cases tag.sigil with
  | none => exact .inr (.inr ⟨rfl, by decide, rfl⟩)
  | some sort =>
    cases sort with
    | opening => exact .inl ⟨rfl, by decide, rfl⟩
    | inverted => exact .inl ⟨rfl, by decide, rfl⟩
    | closing => exact .inr (.inl ⟨rfl, by decide, rfl⟩)

/-- A push adds one node at the end of the table, as the last child of the innermost section
around it. -/
theorem nodes_push (d : Draft) (raw : RawTag) :
    (d.push raw).outline.nodes =
      grow d.outline.nodes (innermost (around d.sections raw.tag))
        (openNames (around d.sections raw.tag)) raw.tag := by
  unfold around
  rcases push_cases d raw with ⟨-, notClosing, pushed⟩ | ⟨-, closing, pushed⟩ |
    ⟨-, notClosing, pushed⟩
  · rw [pushed, notClosing]
    exact nodes_attach d raw.tag
  · rw [pushed, closing, if_pos rfl, nodes_attach, outline_leave, sections_leave]
  · rw [pushed, notClosing]
    exact nodes_attach d raw.tag

/-- A push changes the open sections as its tag says. -/
theorem sections_push (d : Draft) (raw : RawTag) :
    (d.push raw).sections = openBehind d.sections d.outline.nodes.length raw.tag := by
  unfold openBehind around
  rcases push_cases d raw with ⟨opens, -, pushed⟩ | ⟨flat, closing, pushed⟩ |
    ⟨flat, notClosing, pushed⟩
  · rw [pushed, opens, if_pos rfl, sections_enter]
  · rw [pushed, flat, closing]
    exact sections_leave d
  · rw [pushed, flat, notClosing]
    rfl

/-! ## Runs -/

/-- The draft of a sequence of tags. -/
def ofTags (tags : List RawTag) : Draft := tags.foldl push empty

theorem ofTags_append_singleton (tags : List RawTag) (raw : RawTag) :
    ofTags (tags ++ [raw]) = (ofTags tags).push raw := by
  rw [ofTags, List.foldl_append]
  rfl

theorem length_nodes_ofTags (tags : List RawTag) :
    (ofTags tags).outline.nodes.length = tags.length + 1 := by
  have held : (ofTags tags).outline.tags = tags.map RawTag.tag := tags_ofTags tags
  rw [length_nodes, ← length_tags, held, List.length_map]

/-- The open sections of a draft are those of its tags. -/
theorem sections_ofTags (tags : List RawTag) :
    (ofTags tags).sections = openSections (tags.map RawTag.tag) := by
  induction tags using List.reverseRecOn with
  | nil => rfl
  | append_singleton tags raw ih =>
    rw [ofTags_append_singleton, sections_push, length_nodes_ofTags, ih, List.map_append,
      List.map_singleton, openSections_append_singleton, List.length_map]

end Draft

end Outline

end Stencil
