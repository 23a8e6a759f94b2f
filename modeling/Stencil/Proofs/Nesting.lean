import Stencil.Outline.Draft

/-!
Nesting without a state. An outline is built tag by tag, with a record of the open
sections; here the same outline is found by looking ahead. `upToClose` cuts a
sequence at the closing tag that ends the section it stands in, and
`Outline.nest` uses it to nest a whole sequence from the outside in.

* `upToClose_append`: the two parts of a cut are the sequence.
* `ofTags_eq_nest`: building tag by tag and nesting by looking ahead agree.
* `tags_ofTags`: an outline holds the tags it was built from, in order.
-/

namespace Stencil

/-! ## Looking ahead for a closing tag -/

section UpToClose

variable {α : Type} (sigil : α → Option Sigil)

/-- How many sections are open behind an item, of those that were opened since the
search began. -/
def depthBehind (depth : Nat) (a : α) : Nat :=
  match sigil a with
  | some .closing => depth - 1
  | some _ => depth + 1
  | none => depth

/-- The items in front of the close that ends the surrounding section, when `depth`
sections have been opened inside it; then that close and what follows it, if it
is there at all. -/
def upToClose (depth : Nat) : List α → List α × Option (α × List α)
  | [] => ([], none)
  | a :: rest =>
    if sigil a = some .closing ∧ depth = 0 then ([], some (a, rest))
    else
      let found := upToClose (depthBehind sigil depth a) rest
      (a :: found.1, found.2)

variable {sigil}

theorem depthBehind_succ {depth : Nat} {a : α}
    (h : ¬ (sigil a = some .closing ∧ depth = 0)) :
    depthBehind sigil (depth + 1) a = depthBehind sigil depth a + 1 := by
  unfold depthBehind
  split
  · have positive : depth ≠ 0 := fun zero => h ⟨‹_›, zero⟩
    omega
  · rfl
  · rfl

theorem upToClose_nil (depth : Nat) : upToClose sigil depth [] = ([], none) := rfl

theorem upToClose_cons_close {a : α} (h : sigil a = some .closing) (rest : List α) :
    upToClose sigil 0 (a :: rest) = ([], some (a, rest)) := by
  simp [upToClose, h]

theorem upToClose_cons_of_ne {depth : Nat} {a : α}
    (h : ¬ (sigil a = some .closing ∧ depth = 0)) (rest : List α) :
    upToClose sigil depth (a :: rest) =
      (a :: (upToClose sigil (depthBehind sigil depth a) rest).1,
        (upToClose sigil (depthBehind sigil depth a) rest).2) := by
  rw [upToClose, if_neg h]

theorem upToClose_none {depth : Nat} {as body : List α}
    (h : upToClose sigil depth as = (body, none)) : body = as := by
  induction as generalizing depth body with
  | nil => cases h; rfl
  | cons a rest ih =>
    by_cases ends : sigil a = some .closing ∧ depth = 0
    · rw [upToClose, if_pos ends] at h
      cases h
    · rw [upToClose_cons_of_ne ends] at h
      obtain ⟨rfl, hnone⟩ := Prod.mk.inj h
      exact congrArg (a :: ·) (ih (Prod.ext rfl hnone))

theorem upToClose_some {depth : Nat} {as body after : List α} {close : α}
    (h : upToClose sigil depth as = (body, some (close, after))) :
    as = body ++ close :: after ∧ sigil close = some .closing := by
  induction as generalizing depth body with
  | nil => cases h
  | cons a rest ih =>
    by_cases ends : sigil a = some .closing ∧ depth = 0
    · rw [upToClose, if_pos ends] at h
      cases h
      exact ⟨rfl, ends.1⟩
    · rw [upToClose_cons_of_ne ends] at h
      obtain ⟨rfl, hsome⟩ := Prod.mk.inj h
      obtain ⟨whole, closes⟩ := ih (Prod.ext rfl hsome)
      exact ⟨congrArg (a :: ·) whole, closes⟩

/-- The close that is found does not depend on what stands behind it. -/
theorem upToClose_append {depth : Nat} {as body after : List α} {close : α}
    (h : upToClose sigil depth as = (body, some (close, after))) (more : List α) :
    upToClose sigil depth (body ++ close :: more) = (body, some (close, more)) := by
  induction as generalizing depth body with
  | nil => cases h
  | cons a rest ih =>
    by_cases ends : sigil a = some .closing ∧ depth = 0
    · rw [upToClose, if_pos ends] at h
      cases h
      rw [List.nil_append, upToClose, if_pos ends]
    · rw [upToClose_cons_of_ne ends] at h
      obtain ⟨rfl, hsome⟩ := Prod.mk.inj h
      rw [List.cons_append, upToClose_cons_of_ne ends, ih (Prod.ext rfl hsome)]

/-- With one more section open, a search that found nothing finds nothing. -/
theorem upToClose_succ_none {depth : Nat} {as body : List α}
    (h : upToClose sigil depth as = (body, none)) :
    upToClose sigil (depth + 1) as = (body, none) := by
  induction as generalizing depth body with
  | nil => cases h; rfl
  | cons a rest ih =>
    have deeper : ¬ (sigil a = some .closing ∧ depth + 1 = 0) := by omega
    by_cases ends : sigil a = some .closing ∧ depth = 0
    · rw [upToClose, if_pos ends] at h
      cases h
    · rw [upToClose_cons_of_ne ends] at h
      obtain ⟨rfl, hnone⟩ := Prod.mk.inj h
      rw [upToClose_cons_of_ne deeper, depthBehind_succ ends, ih (Prod.ext rfl hnone)]

/-- With one more section open, the search goes on behind the close that it would
have found. -/
theorem upToClose_succ_some {depth : Nat} {as body after : List α} {close : α}
    (h : upToClose sigil depth as = (body, some (close, after))) :
    upToClose sigil (depth + 1) as =
      (body ++ close :: (upToClose sigil 0 after).1, (upToClose sigil 0 after).2) := by
  induction as generalizing depth body with
  | nil => cases h
  | cons a rest ih =>
    have deeper : ¬ (sigil a = some .closing ∧ depth + 1 = 0) := by omega
    rw [upToClose_cons_of_ne deeper]
    by_cases ends : sigil a = some .closing ∧ depth = 0
    · rw [upToClose, if_pos ends] at h
      cases h
      have outside : depthBehind sigil (depth + 1) close = 0 := by simp [depthBehind, ends]
      rw [outside, List.nil_append]
    · rw [upToClose_cons_of_ne ends] at h
      obtain ⟨rfl, hsome⟩ := Prod.mk.inj h
      rw [depthBehind_succ ends, ih (Prod.ext rfl hsome), List.cons_append]

/-- Items without a sigil may be dropped before the search or after it. -/
theorem upToClose_filterMap {β : Type} {sigil' : β → Option Sigil} {f : α → Option β}
    (dropped : ∀ a, f a = none → sigil a = none)
    (kept : ∀ a b, f a = some b → sigil' b = sigil a) (depth : Nat) (as : List α) :
    upToClose sigil' depth (as.filterMap f) =
      ((upToClose sigil depth as).1.filterMap f,
        (upToClose sigil depth as).2.bind fun (close, after) =>
          (f close).map (·, after.filterMap f)) := by
  induction as generalizing depth with
  | nil => rfl
  | cons a rest ih =>
    cases image : f a with
    | none =>
      have plain := dropped a image
      have notEnd : ¬ (sigil a = some .closing ∧ depth = 0) := by simp [plain]
      have same : depthBehind sigil depth a = depth := by simp [depthBehind, plain]
      rw [List.filterMap_cons_none image, upToClose_cons_of_ne notEnd, same, ih,
        List.filterMap_cons_none image]
    | some b =>
      have sigils := kept a b image
      have same : depthBehind sigil' depth b = depthBehind sigil depth a := by
        simp [depthBehind, sigils]
      rw [List.filterMap_cons_some image]
      by_cases ends : sigil a = some .closing ∧ depth = 0
      · rw [upToClose, if_pos (sigils ▸ ends), upToClose, if_pos ends]
        simp [image]
      · rw [upToClose_cons_of_ne (sigils ▸ ends), upToClose_cons_of_ne ends, same, ih,
          List.filterMap_cons_some image]

end UpToClose

namespace Outline

/-! ## Nesting by looking ahead -/

theorem depthBehind_opens {tag : Tag} (h : tag.opens = true) (depth : Nat) :
    depthBehind Tag.sigil depth tag = depth + 1 := by
  cases sigil : tag.sigil with
  | none => simp [Tag.opens, sigil] at h
  | some sort => cases sort <;> simp_all [Tag.opens, Sigil.opens, depthBehind]

/-- The outline of a sequence of tags. The body of a section is what stands in front
of the close that ends it, or all the rest; the close is its next sibling. -/
def nest : List Tag → Outline
  | [] => nil
  | tag :: rest =>
    if tag.opens then
      match _h : upToClose Tag.sigil 0 rest with
      | (body, none) => cons tag (nest body) nil
      | (body, some (close, after)) => cons tag (nest body) (cons close nil (nest after))
    else cons tag nil (nest rest)
termination_by tags => tags.length
decreasing_by
  · rw [upToClose_none _h, List.length_cons]; omega
  · rw [(upToClose_some _h).1, List.length_cons, List.length_append]; omega
  · rw [(upToClose_some _h).1, List.length_cons, List.length_append, List.length_cons]; omega
  · simp

theorem nest_nil : nest [] = nil := by rw [nest]

theorem nest_cons_flat {tag : Tag} (h : tag.opens = false) (rest : List Tag) :
    nest (tag :: rest) = cons tag nil (nest rest) := by
  rw [nest]
  simp [h]

theorem nest_cons_unclosed {tag : Tag} (h : tag.opens = true) {rest body : List Tag}
    (found : upToClose Tag.sigil 0 rest = (body, none)) :
    nest (tag :: rest) = cons tag (nest body) nil := by
  rw [nest, if_pos h]
  split
  · rename_i other
    cases found.symm.trans other
    rfl
  · rename_i other
    cases found.symm.trans other

theorem nest_cons_closed {tag close : Tag} (h : tag.opens = true) {rest body after : List Tag}
    (found : upToClose Tag.sigil 0 rest = (body, some (close, after))) :
    nest (tag :: rest) = cons tag (nest body) (cons close nil (nest after)) := by
  rw [nest, if_pos h]
  split
  · rename_i other
    cases found.symm.trans other
  · rename_i other
    cases found.symm.trans other
    rfl

theorem tags_nest (tags : List Tag) : (nest tags).tags = tags := by
  fun_induction nest tags with
  | case1 => rfl
  | case2 tag rest opens body found ih =>
    simp [Outline.tags, ih, ← upToClose_none found]
  | case3 tag rest opens body close after found ihBody ihAfter =>
    simp [Outline.tags, ihBody, ihAfter, (upToClose_some found).1]
  | case4 tag rest flat ih => simp [Outline.tags, ih]

/-! ## Building tag by tag -/

namespace Draft

/-- The outline that a draft becomes when `tags` are still to come: each open
section ends at the first close that the sections inside it leave over. -/
def complete (level : Level) : List (Tag × Level) → List Tag → Outline
  | [], tags => ofLevel (nest tags) level
  | (tag, before) :: outer, tags =>
    let found := upToClose Tag.sigil 0 tags
    let done := (tag, ofLevel (nest found.1) level) :: before
    match found.2 with
    | none => complete done outer []
    | some (close, after) => complete ((close, nil) :: done) outer after

theorem complete_nil (level : Level) (enclosing : List (Tag × Level)) :
    complete level enclosing [] = outline ⟨level, enclosing⟩ := by
  induction enclosing generalizing level with
  | nil => rw [complete, nest_nil]; rfl
  | cons entry outer ih =>
    obtain ⟨tag, before⟩ := entry
    simp only [complete, upToClose_nil, nest_nil]
    exact ih _

theorem complete_attach {tag : Tag} (h : tag.sigil = none) (level : Level)
    (enclosing : List (Tag × Level)) (rest : List Tag) :
    complete level enclosing (tag :: rest) = complete ((tag, nil) :: level) enclosing rest := by
  have flat : tag.opens = false := by simp [Tag.opens, h]
  cases enclosing with
  | nil => rw [complete, nest_cons_flat flat]; rfl
  | cons entry outer =>
    obtain ⟨section', before⟩ := entry
    have notEnd : ¬ (tag.sigil = some .closing ∧ 0 = 0) := by simp [h]
    have depth : depthBehind Tag.sigil 0 tag = 0 := by simp [depthBehind, h]
    simp only [complete, upToClose_cons_of_ne notEnd, depth, nest_cons_flat flat]
    rfl

theorem complete_close {tag : Tag} (h : tag.sigil = some .closing) (level : Level)
    (enclosing : List (Tag × Level)) (rest : List Tag) :
    complete level enclosing (tag :: rest) =
      complete ((leave ⟨level, enclosing⟩).attach tag).level
        ((leave ⟨level, enclosing⟩).attach tag).enclosing rest := by
  cases enclosing with
  | nil =>
    have flat : tag.opens = false := by simp [Tag.opens, Sigil.opens, h]
    rw [complete, nest_cons_flat flat]
    rfl
  | cons entry outer =>
    obtain ⟨opened, before⟩ := entry
    simp only [complete, upToClose_cons_close h, nest_nil]
    rfl

theorem complete_enter {tag : Tag} (h : tag.opens = true) (level : Level)
    (enclosing : List (Tag × Level)) (rest : List Tag) :
    complete level enclosing (tag :: rest) = complete [] ((tag, level) :: enclosing) rest := by
  have notEnd : ¬ (tag.sigil = some .closing ∧ 0 = 0) := by
    rintro ⟨closes, -⟩
    simp [Tag.opens, Sigil.opens, closes] at h
  have depth : depthBehind Tag.sigil 0 tag = 1 := depthBehind_opens h 0
  -- Whether the new section is closed decides what is left for the sections around it.
  rcases found : upToClose Tag.sigil 0 rest with ⟨body, _ | ⟨close, after⟩⟩
  · cases enclosing with
    | nil =>
      simp only [complete, found, nest_cons_unclosed h found, nest_nil]
      rfl
    | cons entry outer =>
      obtain ⟨opened, before⟩ := entry
      have unclosed : upToClose Tag.sigil 0 body = (body, none) := by
        rw [upToClose_none found, found, upToClose_none found]
      simp only [complete, upToClose_cons_of_ne notEnd, depth, upToClose_succ_none found, found,
        nest_cons_unclosed h unclosed, upToClose_nil, nest_nil]
      rfl
  · cases enclosing with
    | nil =>
      simp only [complete, found, nest_cons_closed h found]
      rfl
    | cons entry outer =>
      obtain ⟨opened, before⟩ := entry
      have closed := upToClose_append found (upToClose Tag.sigil 0 after).1
      simp only [complete, upToClose_cons_of_ne notEnd, depth, upToClose_succ_some found, found,
        nest_cons_closed h closed]
      rfl

/-- What a tag adds to a draft can as well be left to come. -/
theorem complete_push (d : Draft) (raw : RawTag) (rest : List Tag) :
    complete d.level d.enclosing (raw.tag :: rest) =
      complete (d.push raw).level (d.push raw).enclosing rest := by
  unfold push
  generalize raw.tag = tag
  dsimp only
  cases sigil : tag.sigil with
  | none => exact complete_attach sigil d.level d.enclosing rest
  | some sort =>
    have opens : sort ≠ .closing → tag.opens = true := by
      intro other
      cases sort <;> simp_all [Tag.opens, Sigil.opens]
    cases sort with
    | closing => exact complete_close sigil d.level d.enclosing rest
    | opening => exact complete_enter (opens (by decide)) d.level d.enclosing rest
    | inverted => exact complete_enter (opens (by decide)) d.level d.enclosing rest

theorem outline_foldl_push (d : Draft) (tags : List RawTag) :
    (tags.foldl push d).outline = complete d.level d.enclosing (tags.map RawTag.tag) := by
  induction tags generalizing d with
  | nil => exact (complete_nil d.level d.enclosing).symm
  | cons raw tags ih =>
    rw [List.foldl_cons, ih, List.map_cons]
    exact (complete_push d raw _).symm

end Draft

/-- Building tag by tag comes to the same as nesting by looking ahead. -/
theorem ofTags_eq_nest (tags : List RawTag) : ofTags tags = nest (tags.map RawTag.tag) :=
  Draft.outline_foldl_push .empty tags

/-- An outline holds the tags that it was built from, in their order. -/
theorem tags_ofTags (tags : List RawTag) : (ofTags tags).tags = tags.map RawTag.tag := by
  rw [ofTags_eq_nest, tags_nest]

end Outline

end Stencil
