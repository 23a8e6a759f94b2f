import Mathlib.Data.List.Nodup
import Stencil.Proofs.Siblings

/-!
The table of nodes is a tree, whatever the tags.

`WellFormed` puts together what a reader of the table may rely on: who is whose child, in
which order a walk meets the nodes, what a next sibling of a section means, and the names
above a node. `Draft.wellFormed_ofTags` proves it after every sequence of pushes, and that
the depth of a draft can be counted in its table.
-/

namespace Stencil.Outline

/-! ## Walking a table -/

/-- A depth-first walk of a table: it takes the nodes in `pending` one by one, each with all
that is below it, and meets the nodes `met` in this order. -/
inductive Visits (table : List Node) : List Nat → List Nat → Prop
  | done : Visits table [] []
  | node {node : Node} {pending met : List Nat} :
    node ∈ table → Visits table (node.children ++ pending) met →
    Visits table (node.id :: pending) (node.id :: met)

/-- A depth-first walk meets the nodes of an outline in the order of their numbers. -/
theorem visits_nodesFrom {table : List Node} (o : Outline) {parent first : Nat}
    {ancestors : List String} (held : o.nodesFrom parent ancestors first ⊆ table)
    {pending met : List Nat} (rest : Visits table pending met) :
    Visits table (o.siblingIds first ++ pending) (List.range' first o.size ++ met) := by
  induction o generalizing parent first ancestors pending met with
  | nil => exact rest
  | cons tag body more ihBody ihMore =>
    rw [nodesFrom, List.cons_subset, List.append_subset] at held
    obtain ⟨here, below, behind⟩ := held
    have split : List.range' first (cons tag body more).size = first ::
        (List.range' (first + 1) body.size ++
          List.range' (first + 1 + body.size) more.size) := by
      rw [List.range'_append_1, ← List.range'_succ]
      congr 1
      rw [size]
      omega
    rw [split, siblingIds, List.cons_append, List.cons_append, List.append_assoc]
    exact .node here (ihBody below (ihMore behind rest))

theorem visits_nodes (o : Outline) : Visits o.nodes [0] (List.range o.nodes.length) := by
  have below : Visits o.nodes (o.siblingIds 1 ++ []) (List.range' 1 o.size ++ []) :=
    visits_nodesFrom o (List.subset_cons_self _ _) .done
  have numbers : List.range o.nodes.length = 0 :: (List.range' 1 o.size ++ []) := by
    rw [length_nodes, List.range_eq_range', List.range'_succ, List.append_nil]
  rw [numbers]
  exact .node List.mem_cons_self below

/-! ## Trees -/

/-- What the table of a sequence of tags looks like. -/
structure WellFormed (tags : List Tag) (table : List Node) : Prop where
  ids : table.map Node.id = List.range (tags.length + 1)
  /-- Each node but the root is that of the tag with its number. Its ancestors are the
  sections that were open when the tag came, outermost first. -/
  origin : ∀ node ∈ table, node.IsRoot ∨
    ∃ front tag back, tags = front ++ tag :: back ∧ node.PushedBehind front tag
  /-- All child lists together hold each number but that of the root once. -/
  occurs_once : (table.flatMap Node.children).Perm (List.range' 1 tags.length)
  mem_children_iff : ∀ host ∈ table, ∀ id,
    id ∈ host.children ↔ ∃ node ∈ table, node.id = id ∧ node.parent = some host.id
  parent_lt : ∀ node ∈ table, ∀ parent, node.parent = some parent → parent < node.id
  visits : Visits table [0] (List.range table.length)
  /-- Only the root and the sections have children. -/
  flat : ∀ host ∈ table, host.id ≠ 0 → host.opens = false → host.children = []
  /-- The next sibling of a section is the tag that closed it. -/
  next_iff : ∀ node ∈ table, node.opens = true →
    ∀ id, NextSibling table node.id id ↔ ClosedBy tags node.id id
  /-- A section has no next sibling if and only if it is still open. -/
  final_iff_open : ∀ node ∈ table, node.opens = true →
    ((∀ id, ¬ NextSibling table node.id id) ↔ node.id ∈ (openSections tags).map Prod.fst)
  /-- A closing tag that does not follow a section came while nothing was open. -/
  stray : ∀ node ∈ table, ∀ tag, node.tag = some tag → tag.isClosing = true →
    (∀ host ∈ table, host.opens = true → ¬ NextSibling table host.id node.id) →
      node.parent = some 0 ∧ openSections (tags.take (node.id - 1)) = []
  /-- The names above a node are also those on the way up from it. -/
  climbed : ∀ node ∈ table, ∀ host ∈ table, node.parent = some host.id →
    node.ancestors = if host.id = 0 then [] else host.ancestors ++ [host.name]

namespace Grown

variable {tags : List Tag} {table : List Node}

theorem occurs_once (h : Grown tags table) :
    (table.flatMap Node.children).Perm (List.range' 1 tags.length) := by
  have apart : table.Pairwise (Function.onFun List.Disjoint Node.children) := by
    have distinct := List.pairwise_map.mp h.nodup_ids
    refine distinct.imp_of_mem ?_
    intro host other here there ids id child child'
    obtain ⟨node, member, rfl, inside⟩ := (h.mem_children_iff here id).mp child
    have inside' := h.parent_of_mem_children there member child'
    exact ids (Option.some.inj (inside.symm.trans inside'))
  have once : (table.flatMap Node.children).Nodup :=
    List.nodup_flatMap.mpr ⟨fun host here => h.nodup_children here, apart⟩
  refine (List.perm_ext_iff_of_nodup once List.nodup_range').mpr ?_
  intro id
  rw [List.mem_flatMap, List.mem_range'_1]
  constructor
  · intro ⟨host, here, child⟩
    obtain ⟨node, there, rfl, inside⟩ := (h.mem_children_iff here id).mp child
    have below := h.parent_lt there inside
    have bound := h.id_lt there
    omega
  · intro ⟨positive, bound⟩
    have number : id < tags.length + 1 := by omega
    obtain ⟨node, there, rfl⟩ := h.exists_node number
    rcases h.origin node there with root | ⟨front, tag, back, -, behind⟩
    · have zero := root.number
      omega
    · have below := h.parent_lt there behind.inside
      obtain ⟨host, here, outer⟩ := h.exists_node (Nat.lt_trans below number)
      refine ⟨host, here, (h.mem_children_iff here node.id).mpr ⟨node, there, rfl, ?_⟩⟩
      rw [outer, behind.inside]

/-- A node is inside the root or inside a section. -/
theorem parent_cases (h : Grown tags table) {node host : Node} (there : node ∈ table)
    (here : host ∈ table) (inside : node.parent = some host.id) :
    (host.id = 0 ∧ node.ancestors = []) ∨
      (host.id ≠ 0 ∧ host.opens = true ∧ node.ancestors = host.ancestors ++ [host.name]) := by
  rcases h.origin node there with root | ⟨front, tag, back, split, behind⟩
  · rw [root.top] at inside
    cases inside
  · have number := Option.some.inj (inside.symm.trans behind.inside)
    have names := behind.names
    cases sections : around (openSections front) tag with
    | nil =>
      rw [sections] at number names
      exact .inl ⟨number, names⟩
    | cons entry outer =>
      have suffix : entry :: outer <:+ openSections front := by
        rw [← sections]
        exact around_suffix (openSections front) tag
      obtain ⟨other, member, same, opens, name, parent, outerNames⟩ :=
        h.exists_section split suffix
      rw [sections] at number names
      obtain rfl := h.eq_of_id_eq here member (number.trans same.symm)
      have positive := h.parent_lt here parent
      refine .inr ⟨by omega, opens, ?_⟩
      rw [names, outerNames, name]
      simp [openNames]

theorem flat (h : Grown tags table) {host : Node} (here : host ∈ table) (inner : host.id ≠ 0)
    (notSection : host.opens = false) : host.children = [] := by
  rw [List.eq_nil_iff_forall_not_mem]
  intro id child
  obtain ⟨node, there, -, inside⟩ := (h.mem_children_iff here id).mp child
  rcases h.parent_cases there here inside with ⟨root, -⟩ | ⟨-, opens, -⟩
  · exact inner root
  · rw [opens] at notSection
    cases notSection

theorem climbed (h : Grown tags table) {node host : Node} (there : node ∈ table)
    (here : host ∈ table) (inside : node.parent = some host.id) :
    node.ancestors = if host.id = 0 then [] else host.ancestors ++ [host.name] := by
  rcases h.parent_cases there here inside with ⟨root, names⟩ | ⟨inner, -, names⟩
  · rw [if_pos root, names]
  · rw [if_neg inner, names]

/-- Where a section is open, a closing tag becomes its next sibling. -/
theorem stray (h : Grown tags table) {node : Node} {tag : Tag} (there : node ∈ table)
    (holds : node.tag = some tag) (closing : tag.isClosing = true)
    (alone : ∀ host ∈ table, host.opens = true → ¬ NextSibling table host.id node.id) :
    node.parent = some 0 ∧ openSections (tags.take (node.id - 1)) = [] := by
  rcases h.origin node there with root | ⟨front, tag', back, split, behind⟩
  · rw [root.bare] at holds
    cases holds
  · obtain rfl := Option.some.inj (holds.symm.trans behind.holds)
    have taken : tags.take (node.id - 1) = front := by
      rw [split, behind.number, Nat.add_sub_cancel, List.take_left]
    have inside := behind.inside
    rw [around, if_pos closing] at inside
    cases sections : openSections front with
    | nil =>
      rw [sections] at inside
      exact ⟨inside, by rw [taken, sections]⟩
    | cons entry outer =>
      have suffix : entry :: outer <:+ openSections front := ⟨[], sections.symm⟩
      obtain ⟨host, here, number, opens, -⟩ := h.exists_section split suffix
      have closed : ClosedBy tags host.id node.id := by
        refine ⟨front, tag, back, split, closing, behind.number, ?_⟩
        rw [sections, number]
        rfl
      exact absurd ((h.next_iff host here opens node.id).mpr closed) (alone host here opens)

/-- The open sections can be counted in the table. -/
theorem length_openSections (h : Grown tags table) :
    (openSections tags).length = table.countP fun node =>
      node.opens = true ∧ ∀ other ∈ table, ¬ NextSibling table node.id other.id := by
  have same : ((openSections tags).map Prod.fst).Perm ((table.filter fun node =>
      node.opens = true ∧ ∀ other ∈ table, ¬ NextSibling table node.id other.id).map
        Node.id) := by
    refine (List.perm_ext_iff_of_nodup (nodup_openSections tags)
      (h.nodup_ids.sublist (List.filter_sublist.map Node.id))).mpr ?_
    intro id
    simp only [List.mem_map (f := Node.id), List.mem_filter, decide_eq_true_eq]
    constructor
    · intro stillOpen
      obtain ⟨entry, member, rfl⟩ := List.mem_map.mp stillOpen
      obtain ⟨inner, outer, stack⟩ := List.append_of_mem member
      obtain ⟨node, here, number, opens, -⟩ :=
        h.exists_section (List.append_nil tags).symm ⟨inner, stack.symm⟩
      rw [← number] at stillOpen
      have final := (h.final_iff_open here opens).mpr stillOpen
      exact ⟨node, ⟨here, opens, fun other _ => final other.id⟩, number⟩
    · intro counted
      obtain ⟨node, ⟨here, opens, final⟩, rfl⟩ := counted
      refine (h.final_iff_open here opens).mp ?_
      intro next follows
      obtain ⟨host, member, pair⟩ := follows
      have child : next ∈ host.children := pair.subset (by simp)
      obtain ⟨other, there, rfl, -⟩ := (h.mem_children_iff member next).mp child
      exact final other there ⟨host, member, pair⟩
  have lengths := same.length_eq
  rw [List.length_map, List.length_map] at lengths
  rw [lengths, List.countP_eq_length_filter]

theorem wellFormed (h : Grown tags table) (walk : Visits table [0] (List.range table.length)) :
    WellFormed tags table where
  ids := h.ids
  origin := h.origin
  occurs_once := h.occurs_once
  mem_children_iff := fun _ here id => h.mem_children_iff here id
  parent_lt := fun _ here _ inside => h.parent_lt here inside
  visits := walk
  flat := fun _ here inner notSection => h.flat here inner notSection
  next_iff := h.next_iff
  final_iff_open := fun _ here opens => h.final_iff_open here opens
  stray := fun _ here _ holds closing alone => h.stray here holds closing alone
  climbed := fun _ there _ here inside => h.climbed there here inside

end Grown

/-- After every sequence of pushes the table is a tree in which siblings tell which sections
are closed, and by what. The sections that the draft has on its stack are those that its tags
leave open, and their number can be counted in the table. -/
theorem Draft.wellFormed_ofTags (tags : List RawTag) :
    let d := Draft.ofTags tags
    let table := d.outline.nodes
    WellFormed (tags.map RawTag.tag) table ∧
      d.sections = openSections (tags.map RawTag.tag) ∧
      d.depth = table.countP fun node =>
        node.opens = true ∧ ∀ other ∈ table, ¬ NextSibling table node.id other.id := by
  intro d table
  have grown : Grown (tags.map RawTag.tag) table := grown_ofTags tags
  have stack : d.sections = openSections (tags.map RawTag.tag) := sections_ofTags tags
  refine ⟨grown.wellFormed (visits_nodes d.outline), stack, ?_⟩
  rw [← length_sections, stack, grown.length_openSections]

end Stencil.Outline
