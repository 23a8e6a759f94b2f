import Mathlib.Data.List.Nodup
import Stencil.Proofs.Numbering

/-!
What the table of nodes looks like after any number of tags.

A builder keeps a stack of open sections, but those who read its table do not see that
stack. They go by who stands next to whom: a section whose next sibling exists is closed
by it, and a section without one is open. `Draft.wellFormed_ofTags` says that this is
right, whatever the tags and their order.

`Grown` is what one push keeps (`Grown.push`). Only one of its fields speaks of siblings,
and the point of its proof is `Grown.lastChild_iff_closes`: the node that a tag comes to
stand behind is a section exactly if the tag closes this section.
-/

namespace Stencil.Outline

/-! ## Neighbours in a table -/

/-- One node stands right behind another among the children of a node. -/
def NextSibling (table : List Node) (id next : Nat) : Prop :=
  ∃ host ∈ table, [id, next] <:+: host.children

instance (table : List Node) (id next : Nat) : Decidable (NextSibling table id next) :=
  inferInstanceAs (Decidable (∃ host ∈ table, [id, next] <:+: host.children))

/-- A node is the last child of the node `parent`. -/
def LastChild (table : List Node) (parent id : Nat) : Prop :=
  ∃ host ∈ table, host.id = parent ∧ host.children.getLast? = some id

theorem pair_infix_concat_iff {l : List Nat} {a b last : Nat} :
    [a, b] <:+: l ++ [last] ↔ [a, b] <:+: l ∨ (l.getLast? = some a ∧ b = last) := by
  rw [List.infix_concat_iff, List.suffix_concat_iff, or_comm]
  refine or_congr_right ?_
  constructor
  · intro suffix
    rcases suffix with empty | ⟨init, pair, suffix⟩
    · cases empty
    · have split : [a] ++ [b] = init ++ [last] := pair
      obtain ⟨rfl, rfl⟩ := List.append_singleton_inj.mp split
      exact ⟨List.singleton_suffix_iff_getLast?_eq_some.mp suffix, rfl⟩
  · intro ⟨lastly, same⟩
    exact .inr ⟨[a], by rw [same]; rfl,
      List.singleton_suffix_iff_getLast?_eq_some.mpr lastly⟩

theorem not_pair_infix_of_getLast? {l : List Nat} {a : Nat} (distinct : l.Nodup)
    (last : l.getLast? = some a) (b : Nat) : ¬ [a, b] <:+: l := by
  obtain ⟨init, rfl⟩ := List.getLast?_eq_some_iff.mp last
  have once : a ∉ init := by
    have apart := List.disjoint_of_nodup_append distinct
    exact fun member => apart member (List.mem_singleton_self a)
  intro pair
  rcases pair_infix_concat_iff.mp pair with earlier | ⟨lastly, -⟩
  · exact once (earlier.subset List.mem_cons_self)
  · exact once (List.mem_of_getLast? lastly)

section Grow

variable (table : List Node) (parent : Nat) (ancestors : List String) (tag : Tag)

theorem mem_grow_iff {node : Node} :
    node ∈ grow table parent ancestors tag ↔
      (∃ old ∈ table, old.withChild parent table.length = node) ∨
        node = { id := table.length, tag := some tag, parent := some parent,
                 children := [], ancestors } := by
  rw [grow, List.mem_append, List.mem_map, List.mem_singleton]

theorem map_id_grow :
    (grow table parent ancestors tag).map Node.id = table.map Node.id ++ [table.length] := by
  rw [grow, List.map_append, List.map_map, Node.id_comp_withChild]
  rfl

theorem nextSibling_grow (id next : Nat) :
    NextSibling (grow table parent ancestors tag) id next ↔
      NextSibling table id next ∨ (LastChild table parent id ∧ next = table.length) := by
  have child (host : Node) : [id, next] <:+: (host.withChild parent table.length).children ↔
      [id, next] <:+: host.children ∨
        ((host.id = parent ∧ host.children.getLast? = some id) ∧ next = table.length) := by
    rw [Node.children_withChild]
    split
    · rw [pair_infix_concat_iff]
      simp [*]
    · simp [*]
  constructor
  · intro ⟨host, member, pair⟩
    rcases (mem_grow_iff _ _ _ _).mp member with ⟨old, here, rfl⟩ | rfl
    · rcases (child old).mp pair with earlier | ⟨last, number⟩
      · exact .inl ⟨old, here, earlier⟩
      · exact .inr ⟨⟨old, here, last⟩, number⟩
    · cases List.infix_nil.mp pair
  · intro follows
    rcases follows with ⟨host, here, pair⟩ | ⟨⟨host, here, last⟩, number⟩
    · exact ⟨_, (mem_grow_iff _ _ _ _).mpr (.inl ⟨host, here, rfl⟩), (child host).mpr (.inl pair)⟩
    · exact ⟨_, (mem_grow_iff _ _ _ _).mpr (.inl ⟨host, here, rfl⟩),
        (child host).mpr (.inr ⟨last, number⟩)⟩

end Grow

/-! ## Where nodes come from -/

/-- The root, which is no tag. -/
structure Node.IsRoot (node : Node) : Prop where
  number : node.id = 0
  bare : node.tag = none
  top : node.parent = none
  names : node.ancestors = []

/-- The node of a tag that was pushed behind the tags `front`: it has the next number, and
it stands inside the sections that were open then. -/
structure Node.PushedBehind (front : List Tag) (tag : Tag) (node : Node) : Prop where
  number : node.id = front.length + 1
  holds : node.tag = some tag
  inside : node.parent = some (innermost (around (openSections front) tag))
  names : node.ancestors = openNames (around (openSections front) tag)

theorem Node.IsRoot.withChild {node : Node} (h : node.IsRoot) (parent child : Nat) :
    (node.withChild parent child).IsRoot where
  number := by rw [Node.id_withChild, h.number]
  bare := by rw [Node.tag_withChild, h.bare]
  top := by rw [Node.parent_withChild, h.top]
  names := by rw [Node.ancestors_withChild, h.names]

theorem Node.PushedBehind.withChild {front : List Tag} {tag : Tag} {node : Node}
    (h : node.PushedBehind front tag) (parent child : Nat) :
    (node.withChild parent child).PushedBehind front tag where
  number := by rw [Node.id_withChild, h.number]
  holds := by rw [Node.tag_withChild, h.holds]
  inside := by rw [Node.parent_withChild, h.inside]
  names := by rw [Node.ancestors_withChild, h.names]

/-- A table that grew by pushing the tags one by one. -/
structure Grown (tags : List Tag) (table : List Node) : Prop where
  ids : table.map Node.id = List.range (tags.length + 1)
  origin : ∀ node ∈ table, node.IsRoot ∨
    ∃ front tag back, tags = front ++ tag :: back ∧ node.PushedBehind front tag
  children_eq : ∀ host ∈ table,
    host.children = (table.filter fun node => node.parent = some host.id).map Node.id
  next_iff : ∀ node ∈ table, node.opens = true →
    ∀ id, NextSibling table node.id id ↔ ClosedBy tags node.id id

namespace Grown

variable {tags : List Tag} {table : List Node}

theorem length_eq (h : Grown tags table) : table.length = tags.length + 1 := by
  have lengths := congrArg List.length h.ids
  rwa [List.length_map, List.length_range] at lengths

theorem nodup_ids (h : Grown tags table) : (table.map Node.id).Nodup := by
  rw [h.ids]
  exact List.nodup_range

theorem eq_of_id_eq (h : Grown tags table) {node other : Node} (here : node ∈ table)
    (there : other ∈ table) (same : node.id = other.id) : node = other :=
  List.inj_on_of_nodup_map h.nodup_ids here there same

theorem exists_node (h : Grown tags table) {id : Nat} (bound : id < tags.length + 1) :
    ∃ node ∈ table, node.id = id := by
  have member : id ∈ table.map Node.id := by
    rw [h.ids]
    exact List.mem_range.mpr bound
  exact List.mem_map.mp member

theorem id_lt (h : Grown tags table) {node : Node} (here : node ∈ table) :
    node.id < tags.length + 1 := by
  have member := List.mem_map_of_mem (f := Node.id) here
  rw [h.ids] at member
  exact List.mem_range.mp member

/-- Each tag has its node. -/
theorem exists_pushedBehind (h : Grown tags table) {front back : List Tag} {tag : Tag}
    (split : tags = front ++ tag :: back) :
    ∃ node ∈ table, node.PushedBehind front tag := by
  have bound : front.length + 1 < tags.length + 1 := by
    rw [split, List.length_append, List.length_cons]
    omega
  obtain ⟨node, here, number⟩ := h.exists_node bound
  rcases h.origin node here with root | ⟨front', tag', back', split', pushed⟩
  · rw [root.number] at number
    omega
  · have lengths : front'.length = front.length := by
      have numbers := pushed.number.symm.trans number
      omega
    obtain ⟨rfl, rest⟩ := List.append_inj (split'.symm.trans split) lengths
    obtain ⟨rfl, -⟩ := List.cons.inj rest
    exact ⟨node, here, pushed⟩

/-- A section is the node of a tag that opens one. -/
theorem exists_split (h : Grown tags table) {node : Node} (here : node ∈ table)
    (opens : node.opens = true) :
    ∃ front tag back, tags = front ++ tag :: back ∧ node.PushedBehind front tag ∧
      tag.opens = true := by
  unfold Node.opens at opens
  rcases h.origin node here with root | ⟨front, tag, back, split, pushed⟩
  · rw [root.bare] at opens
    cases opens
  · rw [pushed.holds] at opens
    exact ⟨front, tag, back, split, pushed, opens⟩

/-- The sections that were open at some time are nodes, each inside the next one. -/
theorem exists_section (h : Grown tags table) {front back : List Tag}
    (split : tags = front ++ back) {entry : Nat × Tag} {outer : List (Nat × Tag)}
    (suffix : entry :: outer <:+ openSections front) :
    ∃ node ∈ table, node.id = entry.1 ∧ node.opens = true ∧ node.name = entry.2.name ∧
      node.parent = some (innermost outer) ∧ node.ancestors = openNames outer := by
  obtain ⟨before, between, rfl, number, opens, rfl⟩ := openSections_origin suffix
  rw [List.append_assoc, List.cons_append] at split
  obtain ⟨node, here, behind⟩ := h.exists_pushedBehind split
  have inside := behind.inside
  have names := behind.names
  rw [around_of_opens opens] at inside names
  refine ⟨node, here, behind.number.trans number.symm, ?_, ?_, inside, names⟩
  · rw [Node.opens, behind.holds]
    exact opens
  · rw [Node.name, behind.holds]
    rfl

theorem parent_lt (h : Grown tags table) {node : Node} {parent : Nat} (here : node ∈ table)
    (inside : node.parent = some parent) : parent < node.id := by
  rcases h.origin node here with root | ⟨front, tag, back, -, pushed⟩
  · rw [root.top] at inside
    cases inside
  · rw [pushed.inside] at inside
    obtain rfl := Option.some.inj inside
    rw [pushed.number]
    exact Nat.lt_succ_of_le (innermost_around_le front tag)

theorem mem_children_iff (h : Grown tags table) {host : Node} (here : host ∈ table) (id : Nat) :
    id ∈ host.children ↔ ∃ node ∈ table, node.id = id ∧ node.parent = some host.id := by
  rw [h.children_eq host here, List.mem_map]
  simp only [List.mem_filter, decide_eq_true_eq]
  constructor
  · intro ⟨node, ⟨there, inside⟩, number⟩
    exact ⟨node, there, number, inside⟩
  · intro ⟨node, there, number, inside⟩
    exact ⟨node, ⟨there, inside⟩, number⟩

theorem parent_of_mem_children (h : Grown tags table) {host node : Node} (here : host ∈ table)
    (there : node ∈ table) (child : node.id ∈ host.children) : node.parent = some host.id := by
  obtain ⟨other, member, same, inside⟩ := (h.mem_children_iff here node.id).mp child
  rwa [h.eq_of_id_eq member there same] at inside

theorem nodup_children (h : Grown tags table) {host : Node} (here : host ∈ table) :
    host.children.Nodup := by
  rw [h.children_eq host here]
  exact h.nodup_ids.sublist (List.filter_sublist.map Node.id)

/-! ## One push -/

/-- A last child is a child that no sibling follows. -/
theorem lastChild_iff (h : Grown tags table) {node : Node} (there : node ∈ table) (parent : Nat) :
    LastChild table parent node.id ↔
      node.parent = some parent ∧ ∀ id, ¬ NextSibling table node.id id := by
  constructor
  · intro ⟨host, here, number, last⟩
    have inside := h.parent_of_mem_children here there (List.mem_of_getLast? last)
    refine ⟨by rw [inside, number], ?_⟩
    intro id ⟨other, member, pair⟩
    have elsewhere :=
      h.parent_of_mem_children member there (pair.subset List.mem_cons_self)
    have same : other.id = host.id := Option.some.inj (elsewhere.symm.trans inside)
    rw [h.eq_of_id_eq member here same] at pair
    exact not_pair_infix_of_getLast? (h.nodup_children here) last id pair
  · intro ⟨inside, final⟩
    have bound : parent < tags.length + 1 :=
      Nat.lt_trans (h.parent_lt there inside) (h.id_lt there)
    obtain ⟨host, here, rfl⟩ := h.exists_node bound
    have child := (h.mem_children_iff here node.id).mpr ⟨node, there, rfl, inside⟩
    obtain ⟨before, behind, split⟩ := List.append_of_mem child
    cases behind with
    | nil => exact ⟨host, here, rfl, by rw [split, List.getLast?_concat]⟩
    | cons id behind =>
      refine absurd ⟨host, here, before, behind, ?_⟩ (final id)
      rw [split, List.append_assoc]
      rfl

/-- A section is open as long as no sibling follows it. -/
theorem final_iff_open (h : Grown tags table) {node : Node} (here : node ∈ table)
    (opens : node.opens = true) :
    (∀ id, ¬ NextSibling table node.id id) ↔ node.id ∈ (openSections tags).map Prod.fst := by
  obtain ⟨front, tag, back, split, pushed, tagOpens⟩ := h.exists_split here opens
  have nodeNext : (∀ id, ¬ NextSibling table node.id id) ↔ ∀ id, ¬ ClosedBy tags node.id id :=
    forall_congr' fun id => not_congr (h.next_iff node here opens id)
  rw [nodeNext, pushed.number, split]
  exact (mem_openSections_iff front tagOpens back).symm

/-- The tag that comes next will stand right behind a section exactly if it closes this
section. -/
theorem lastChild_iff_closes (h : Grown tags table) {node : Node} (here : node ∈ table)
    (opens : node.opens = true) (tag : Tag) :
    LastChild table (innermost (around (openSections tags) tag)) node.id ↔
      tag.isClosing = true ∧ (openSections tags).head?.map Prod.fst = some node.id := by
  have falling := (List.pairwise_cons.mp (openSections_falling tags)).2
  rw [h.lastChild_iff here, h.final_iff_open here opens]
  -- What surrounds an open section came before it.
  have inside {entry : Nat × Tag} {outer : List (Nat × Tag)}
      (suffix : entry :: outer <:+ openSections tags) (number : node.id = entry.1) :
      node.parent = some (innermost outer) := by
    obtain ⟨other, there, same, -, -, parent, -⟩ :=
      h.exists_section (List.append_nil tags).symm suffix
    rwa [h.eq_of_id_eq here there (number.trans same.symm)]
  constructor
  · intro ⟨parent, stillOpen⟩
    obtain ⟨entry, member, number⟩ := List.mem_map.mp stillOpen
    obtain ⟨inner, outer, stack⟩ := List.append_of_mem member
    have host := Option.some.inj (parent.symm.trans (inside ⟨inner, stack.symm⟩ number.symm))
    -- The section would be inside itself if it stood in the stack around the tag.
    have apart : node.id ∉ (around (openSections tags) tag).map Prod.fst := by
      intro within
      have kept := (around_suffix (openSections tags) tag).sublist.map Prod.fst
      have below := le_innermost (falling.sublist kept) within
      have above := h.parent_lt here parent
      omega
    unfold around at apart
    by_cases closing : tag.isClosing = true
    · rw [if_pos closing] at apart
      refine ⟨closing, ?_⟩
      cases sections : openSections tags with
      | nil =>
        rw [sections] at stillOpen
        cases stillOpen
      | cons entry rest =>
        rw [sections] at stillOpen apart
        rcases List.mem_cons.mp stillOpen with first | later
        · rw [first]
          rfl
        · exact absurd later apart
    · rw [if_neg closing] at apart
      exact absurd stillOpen apart
  · intro ⟨closing, head⟩
    cases sections : openSections tags with
    | nil =>
      rw [sections] at head
      cases head
    | cons entry outer =>
      rw [sections] at head
      have number : node.id = entry.1 := (Option.some.inj head).symm
      have whole : entry :: outer <:+ openSections tags := ⟨[], sections.symm⟩
      rw [around, if_pos closing, List.tail_cons]
      refine ⟨inside whole number, ?_⟩
      rw [number]
      exact List.mem_cons_self

/-! The number that comes next is not in use: nothing is inside it, it is nobody's child, and
it is no open section. -/

theorem parent_ne_length (h : Grown tags table) {node : Node} (here : node ∈ table) :
    node.parent ≠ some table.length := by
  intro inside
  have before := h.parent_lt here inside
  have bound := h.id_lt here
  rw [h.length_eq] at before
  omega

theorem length_notMem_children (h : Grown tags table) {host : Node} (here : host ∈ table) :
    table.length ∉ host.children := by
  intro child
  obtain ⟨node, there, number, -⟩ := (h.mem_children_iff here _).mp child
  have bound := h.id_lt there
  rw [number, h.length_eq] at bound
  exact Nat.lt_irrefl _ bound

theorem length_ne_head (h : Grown tags table) :
    (openSections tags).head?.map Prod.fst ≠ some table.length := by
  intro head
  rw [← List.head?_map] at head
  have bound := lt_of_mem_openSections (List.mem_of_head? head)
  rw [h.length_eq] at bound
  exact Nat.lt_irrefl _ bound

variable (tag : Tag)

/-- The table that a push of `tag` makes. -/
def pushed (tags : List Tag) (table : List Node) (tag : Tag) : List Node :=
  grow table (innermost (around (openSections tags) tag))
    (openNames (around (openSections tags) tag)) tag

theorem origin_pushed (h : Grown tags table) :
    ∀ node ∈ pushed tags table tag, node.IsRoot ∨
      ∃ front last back, tags ++ [tag] = front ++ last :: back ∧ node.PushedBehind front last := by
  intro node member
  rcases (mem_grow_iff _ _ _ _).mp member with ⟨old, here, rfl⟩ | rfl
  · rcases h.origin old here with root | ⟨front, last, back, rfl, behind⟩
    · exact .inl (root.withChild _ _)
    · exact .inr ⟨front, last, back ++ [tag], by simp, behind.withChild _ _⟩
  · exact .inr ⟨tags, tag, [], rfl, h.length_eq, rfl, rfl, rfl⟩

theorem children_eq_pushed (h : Grown tags table) :
    ∀ host ∈ pushed tags table tag, host.children =
      ((pushed tags table tag).filter fun node => node.parent = some host.id).map Node.id := by
  intro host member
  have parents : (fun node => decide (Node.parent node = some host.id)) ∘
      Node.withChild (innermost (around (openSections tags) tag)) table.length =
        fun node => decide (node.parent = some host.id) := by
    funext node
    simp
  rw [pushed, grow, List.filter_append, List.map_append, List.filter_map, List.map_map, parents,
    Node.id_comp_withChild]
  rcases (mem_grow_iff _ _ _ _).mp member with ⟨old, here, rfl⟩ | rfl
  · rw [Node.children_withChild, Node.id_withChild, h.children_eq old here]
    by_cases inside : old.id = innermost (around (openSections tags) tag)
    · simp [inside]
    · simp [inside, Ne.symm inside]
  · have empty : table.filter (fun node => node.parent = some table.length) = [] := by
      rw [List.filter_eq_nil_iff]
      intro node here
      simpa using h.parent_ne_length here
    have other : innermost (around (openSections tags) tag) ≠ table.length := by
      have before := innermost_around_le tags tag
      rw [h.length_eq]
      omega
    simp [empty, other]

theorem next_iff_pushed (h : Grown tags table) :
    ∀ node ∈ pushed tags table tag, node.opens = true →
      ∀ id, NextSibling (pushed tags table tag) node.id id ↔
        ClosedBy (tags ++ [tag]) node.id id := by
  intro node member opens id
  rw [pushed, nextSibling_grow, closedBy_append_singleton]
  rcases (mem_grow_iff _ _ _ _).mp member with ⟨old, here, rfl⟩ | rfl
  · have oldOpens : old.opens = true := by
      rw [Node.opens, Node.tag_withChild] at opens
      exact opens
    rw [Node.id_withChild, h.next_iff old here oldOpens, h.lastChild_iff_closes here oldOpens,
      h.length_eq, and_assoc, and_comm (a := id = _)]
  · -- The new node is no child that anything could follow, and no section was open under
    -- its number.
    have noNext : ¬ NextSibling table table.length id := by
      intro ⟨host, here, pair⟩
      exact h.length_notMem_children here (pair.subset List.mem_cons_self)
    have notLast : ¬ LastChild table (innermost (around (openSections tags) tag))
        table.length := by
      intro ⟨host, here, _, last⟩
      exact h.length_notMem_children here (List.mem_of_getLast? last)
    have notClosed : ¬ ClosedBy tags table.length id := by
      intro closed
      have bounds := closed.lt
      rw [h.length_eq] at bounds
      omega
    simp [noNext, notLast, notClosed, h.length_ne_head]

/-- One push keeps the table in order. -/
theorem push (h : Grown tags table) : Grown (tags ++ [tag]) (pushed tags table tag) where
  ids := by
    rw [pushed, map_id_grow, h.ids, h.length_eq, ← List.range_succ, List.length_append,
      List.length_singleton]
  origin := h.origin_pushed tag
  children_eq := h.children_eq_pushed tag
  next_iff := h.next_iff_pushed tag

end Grown

/-- Nothing but the root is there in the beginning. -/
theorem grown_nodes_nil : Grown [] nil.nodes where
  ids := rfl
  origin := by
    intro node member
    obtain rfl := List.mem_singleton.mp member
    exact .inl ⟨rfl, rfl, rfl, rfl⟩
  children_eq := by
    intro host member
    obtain rfl := List.mem_singleton.mp member
    rfl
  next_iff := by
    intro node member opens
    obtain rfl := List.mem_singleton.mp member
    cases opens

/-- Every run of pushes leaves the table in order. -/
theorem grown_ofTags (tags : List RawTag) :
    Grown (tags.map RawTag.tag) (Draft.ofTags tags).outline.nodes := by
  induction tags using List.reverseRecOn with
  | nil => exact grown_nodes_nil
  | append_singleton tags raw ih =>
    rw [Draft.ofTags_append_singleton, Draft.nodes_push, Draft.sections_ofTags, List.map_append]
    exact ih.push raw.tag

end Stencil.Outline
