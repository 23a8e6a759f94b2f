import Mathlib.Data.List.Induction
import Stencil.Tag

/-!
The sections that are open behind a sequence of tags.

A closing tag ends the innermost open section whatever its name, so the stack of open
sections is a matter of the tags alone. `openSections` keeps it by number, `ClosedBy` says
which closing tag ended which section, and `mem_openSections_iff` that a section is open
until there is one.
-/

namespace Stencil

theorem Tag.isClosing_eq_false {tag : Tag} (h : tag.opens = true) : tag.isClosing = false := by
  unfold Tag.opens at h
  unfold Tag.isClosing
  cases sigil : tag.sigil with
  | none => rfl
  | some s =>
    rw [sigil] at h
    cases s with
    | opening => rfl
    | inverted => rfl
    | closing => cases h

/-! ## The stack of open sections -/

/-- The number of the innermost of the open sections, or of the root. -/
def innermost (opened : List (Nat × Tag)) : Nat := (opened.head?.map Prod.fst).getD 0

/-- The names of the open sections, outermost first. -/
def openNames (opened : List (Nat × Tag)) : List String :=
  (opened.map fun entry => entry.2.name).reverse

/-- The sections around a tag. A closing tag stands behind the section that it closes. -/
def around (opened : List (Nat × Tag)) (tag : Tag) : List (Nat × Tag) :=
  if tag.isClosing then opened.tail else opened

/-- The sections that are open behind the tag with the number `id`. -/
def openBehind (opened : List (Nat × Tag)) (id : Nat) (tag : Tag) : List (Nat × Tag) :=
  if tag.opens then (id, tag) :: opened else around opened tag

/-- The sections that are open behind a sequence of tags, innermost first, with their
numbers. Tags are numbered from 1. -/
def openSections (tags : List Tag) : List (Nat × Tag) :=
  (tags.zipIdx 1).foldl (fun opened (tag, id) => openBehind opened id tag) []

theorem openSections_append_singleton (tags : List Tag) (tag : Tag) :
    openSections (tags ++ [tag]) = openBehind (openSections tags) (tags.length + 1) tag := by
  simp [openSections, List.zipIdx_append, Nat.add_comm]

theorem around_of_opens {tag : Tag} (h : tag.opens = true) (opened : List (Nat × Tag)) :
    around opened tag = opened := by
  rw [around, Tag.isClosing_eq_false h]
  rfl

theorem around_suffix (opened : List (Nat × Tag)) (tag : Tag) : around opened tag <:+ opened := by
  unfold around
  split
  · exact List.tail_suffix opened
  · exact List.suffix_refl opened

/-- Numbers fall from the innermost section outwards, and none is as large as the next free
number. -/
theorem openSections_falling (tags : List Tag) :
    ((tags.length + 1) :: (openSections tags).map Prod.fst).Pairwise (· > ·) := by
  induction tags using List.reverseRecOn with
  | nil => exact List.pairwise_singleton _ _
  | append_singleton tags tag ih =>
    obtain ⟨below, falling⟩ := List.pairwise_cons.mp ih
    rw [openSections_append_singleton, openBehind, List.length_append, List.length_singleton]
    split
    · refine List.pairwise_cons.mpr ⟨?_, ih⟩
      intro id member
      rcases List.mem_cons.mp member with rfl | member
      · exact Nat.lt_succ_self _
      · exact Nat.lt_succ_of_lt (below id member)
    · have kept := (around_suffix (openSections tags) tag).sublist.map Prod.fst
      refine List.pairwise_cons.mpr ⟨?_, falling.sublist kept⟩
      intro id member
      exact Nat.lt_succ_of_lt (below id (kept.subset member))

theorem lt_of_mem_openSections {tags : List Tag} {id : Nat}
    (h : id ∈ (openSections tags).map Prod.fst) : id < tags.length + 1 :=
  (List.pairwise_cons.mp (openSections_falling tags)).1 id h

theorem nodup_openSections (tags : List Tag) : ((openSections tags).map Prod.fst).Nodup :=
  (List.pairwise_cons.mp (openSections_falling tags)).2.imp fun falls => Nat.ne_of_gt falls

/-- The innermost section has the largest number. -/
theorem le_innermost {opened : List (Nat × Tag)} {id : Nat}
    (falling : (opened.map Prod.fst).Pairwise (· > ·)) (h : id ∈ opened.map Prod.fst) :
    id ≤ innermost opened := by
  cases opened with
  | nil => cases h
  | cons entry outer =>
    rcases List.mem_cons.mp h with rfl | member
    · exact Nat.le_refl _
    · exact Nat.le_of_lt ((List.pairwise_cons.mp falling).1 id member)

/-- The section around a tag came before it. -/
theorem innermost_around_le (tags : List Tag) (tag : Tag) :
    innermost (around (openSections tags) tag) ≤ tags.length := by
  cases sections : around (openSections tags) tag with
  | nil => exact Nat.zero_le _
  | cons entry outer =>
    have member : entry ∈ openSections tags := by
      apply (around_suffix (openSections tags) tag).subset
      rw [sections]
      exact List.mem_cons_self
    exact Nat.le_of_lt_succ (lt_of_mem_openSections (List.mem_map_of_mem member))

/-- An open section is a tag that came, and below it stands the stack as it was then. -/
theorem openSections_origin {tags : List Tag} {entry : Nat × Tag} {outer : List (Nat × Tag)}
    (h : entry :: outer <:+ openSections tags) :
    ∃ front back, tags = front ++ entry.2 :: back ∧ entry.1 = front.length + 1 ∧
      entry.2.opens = true ∧ outer = openSections front := by
  induction tags using List.reverseRecOn with
  | nil => cases List.suffix_nil.mp h
  | append_singleton tags last ih =>
    have earlier : entry :: outer <:+ openSections tags →
        ∃ front back, tags ++ [last] = front ++ entry.2 :: back ∧ entry.1 = front.length + 1 ∧
          entry.2.opens = true ∧ outer = openSections front := by
      intro suffix
      obtain ⟨front, back, split, origin⟩ := ih suffix
      exact ⟨front, back ++ [last], by simp [split], origin⟩
    rw [openSections_append_singleton, openBehind] at h
    split at h
    · rcases List.suffix_cons_iff.mp h with whole | suffix
      · obtain ⟨rfl, rfl⟩ := List.cons.inj whole
        exact ⟨tags, [], rfl, rfl, ‹_›, rfl⟩
      · exact earlier suffix
    · exact earlier (h.trans (around_suffix (openSections tags) last))

/-! ## Which close ends which section -/

/-- The tag with the number `close` ends the section with the number `id`: it is a closing
tag, and in front of it this section is the innermost open one. -/
def ClosedBy (tags : List Tag) (id close : Nat) : Prop :=
  ∃ front tag back, tags = front ++ tag :: back ∧ tag.isClosing = true ∧
    close = front.length + 1 ∧ (openSections front).head?.map Prod.fst = some id

theorem closedBy_append_singleton (tags : List Tag) (last : Tag) (id close : Nat) :
    ClosedBy (tags ++ [last]) id close ↔
      ClosedBy tags id close ∨ (last.isClosing = true ∧ close = tags.length + 1 ∧
        (openSections tags).head?.map Prod.fst = some id) := by
  constructor
  · intro ⟨front, tag, back, whole, closing, number, head⟩
    rcases List.eq_nil_or_concat back with rfl | ⟨between, final, rfl⟩
    · obtain ⟨rfl, rfl⟩ := List.append_singleton_inj.mp whole
      exact .inr ⟨closing, number, head⟩
    · rw [List.concat_eq_append, ← List.cons_append, ← List.append_assoc] at whole
      obtain ⟨rfl, -⟩ := List.append_singleton_inj.mp whole
      exact .inl ⟨front, tag, between, rfl, closing, number, head⟩
  · intro closed
    rcases closed with ⟨front, tag, back, rfl, rest⟩ | ⟨closing, number, head⟩
    · exact ⟨front, tag, back ++ [last], by simp, rest⟩
    · exact ⟨tags, last, [], rfl, closing, number, head⟩

/-- A section is closed by a later tag. -/
theorem ClosedBy.lt {tags : List Tag} {id close : Nat} (h : ClosedBy tags id close) :
    id < close ∧ close ≤ tags.length := by
  obtain ⟨front, tag, back, rfl, -, rfl, head⟩ := h
  have member : id ∈ (openSections front).map Prod.fst := by
    rw [← List.head?_map] at head
    exact List.mem_of_head? head
  refine ⟨lt_of_mem_openSections member, ?_⟩
  simp

/-- What a tag leaves open: everything but the section that it closes, and itself if it is
a section. -/
theorem mem_openBehind_iff {opened : List (Nat × Tag)} (distinct : (opened.map Prod.fst).Nodup)
    (new id : Nat) (tag : Tag) :
    id ∈ (openBehind opened new tag).map Prod.fst ↔
      (tag.opens = true ∧ id = new) ∨ (id ∈ opened.map Prod.fst ∧
        ¬ (tag.isClosing = true ∧ opened.head?.map Prod.fst = some id)) := by
  unfold openBehind
  by_cases opens : tag.opens = true
  · rw [if_pos opens]
    simp [opens, Tag.isClosing_eq_false opens]
  · rw [if_neg opens, around]
    by_cases closing : tag.isClosing = true
    · rw [if_pos closing]
      cases opened with
      | nil => simp [opens]
      | cons entry outer =>
        have other : entry.1 ∉ outer.map Prod.fst := (List.nodup_cons.mp distinct).1
        have apart : id ∈ outer.map Prod.fst → ¬ entry.1 = id := by
          intro member same
          rw [same] at other
          exact other member
        rw [List.tail_cons, List.map_cons, List.mem_cons, List.head?_cons, Option.map_some,
          Option.some_inj]
        grind
    · rw [if_neg closing]
      simp [opens, closing]

/-- A section is open as long as no tag closes it. -/
theorem mem_openSections_iff (front : List Tag) {tag : Tag} (opens : tag.opens = true)
    (back : List Tag) :
    front.length + 1 ∈ (openSections (front ++ tag :: back)).map Prod.fst ↔
      ∀ close, ¬ ClosedBy (front ++ tag :: back) (front.length + 1) close := by
  induction back using List.reverseRecOn with
  | nil =>
    refine iff_of_true ?_ ?_
    · rw [openSections_append_singleton, mem_openBehind_iff (nodup_openSections front)]
      exact .inl ⟨opens, rfl⟩
    · intro close closed
      have later := closed.lt
      rw [List.length_append, List.length_singleton] at later
      omega
  | append_singleton back last ih =>
    have number : front.length + 1 ≠ (front ++ tag :: back).length + 1 := by simp
    rw [← List.cons_append, ← List.append_assoc, openSections_append_singleton,
      mem_openBehind_iff (nodup_openSections _), ih]
    simp only [number, and_false, false_or, closedBy_append_singleton, not_or, forall_and]
    refine and_congr_right fun _ => ?_
    constructor
    · intro other close ⟨closing, _, head⟩
      exact other ⟨closing, head⟩
    · intro other ⟨closing, head⟩
      exact other _ ⟨closing, rfl, head⟩

end Stencil
