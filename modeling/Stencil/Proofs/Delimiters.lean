import Stencil.Proofs.Nesting
import Stencil.Proofs.Segment
import Stencil.Proofs.TagWord

/-!
What is left of a tag without its delimiters.

A tag is taken apart by its ends, one after another, and whatever text it has: that it is a word
of the grammar is nowhere asked for. `TagForm.parts_word` says that for such words nothing goes
wrong, also where only one of the third braces is there. Here that comes together with the
search for tags: what is found has the form of a word, and `parts_spec` says which node it
becomes.
-/

namespace Stencil

/-! ## Widths -/

theorem Text.byteLength_eq_length {cs : List Char} (h : ∀ c ∈ cs, c.utf8Size = 1) :
    byteLength cs = cs.length := by
  induction cs with
  | nil => rfl
  | cons c cs ih =>
    obtain ⟨here, later⟩ := List.forall_mem_cons.1 h
    rw [byteLength, here, ih later, List.length_cons, Nat.add_comm]

theorem toNat_lt_of_isNameChar {c : Char} (h : isNameChar c = true) : c.toNat < 128 := by
  have below {first last : UInt32} (run : first ≤ c.val ∧ c.val ≤ last)
      (small : last.toNat < 128) : c.toNat < 128 :=
    Nat.lt_of_le_of_lt (UInt32.le_iff_toNat_le.1 run.2) small
  simp only [isNameChar, Bool.or_eq_true, decide_eq_true_eq] at h
  rcases h with (alphanumeric | rfl) | rfl
  · rcases Bool.or_eq_true_iff.1 alphanumeric with letter | digit
    · rcases Bool.or_eq_true_iff.1 letter with upper | lower
      · exact below (of_decide_eq_true upper) (by decide)
      · have run := Bool.and_eq_true_iff.1 lower
        exact below (run.imp of_decide_eq_true of_decide_eq_true) (by decide)
    · have run := Bool.and_eq_true_iff.1 digit
      exact below (run.imp of_decide_eq_true of_decide_eq_true) (by decide)
  · decide
  · decide

/-- Tags are made of characters of one byte. -/
theorem utf8Size_of_isTagChar {c : Char} (h : isTagChar c = true) : c.utf8Size = 1 := by
  have small : c.toNat < 128 := by
    simp only [isTagChar, Bool.or_eq_true, decide_eq_true_eq, Option.isSome_iff_exists,
      Sigil.ofChar?_eq_some_iff] at h
    rcases h with ((rfl | rfl) | ⟨sigil, rfl⟩) | name
    · decide
    · decide
    · cases sigil <;> decide
    · exact toNat_lt_of_isNameChar name
  rw [Char.utf8Size_eq_one_iff, UInt32.le_iff_toNat_le]
  exact Nat.le_of_lt_succ small

namespace TagForm

theorem byteLength_word (form : TagForm) : Text.byteLength form.word = form.word.length := by
  apply Text.byteLength_eq_length
  intro c member
  have read : leadingTag? (form.word ++ []) = some (form.word, []) :=
    leadingTag?_word (.inr (by simp))
  exact utf8Size_of_isTagChar (mem_leadingTag? read member)

/-- The tag that a word stands for at a place. -/
def tag (form : TagForm) (p : Position) : Tag :=
  { name := String.ofList form.name
    position := p
    width := form.word.length
    raw := form.third
    sigil := form.sigil }

/-- A word becomes the tag with its own choices. -/
theorem tag_word (form : TagForm) (p : Position) :
    RawTag.tag ⟨p, String.ofList form.word⟩ = form.tag p := by
  rw [RawTag.tag, parts_word, RawTag.width, String.toList_ofList, byteLength_word]
  rfl

end TagForm

/-! ## Found tags -/

/-- A tag that is found on a line is a word there, as many bytes behind the start as its column
says. -/
theorem exists_form_of_mem_tagsFrom {line column : Nat} {cs : List Char} {found : RawTag}
    (member : found ∈ tagsFrom line column cs) :
    ∃ (form : TagForm) (front back : List Char), cs = front ++ (form.word ++ back) ∧
      found = ⟨⟨line, column + Text.byteLength front⟩, String.ofList form.word⟩ := by
  fun_induction tagsFrom line column cs with
  | case1 column cs word rest read ih =>
    have whole := leadingTag?_append read
    rcases List.mem_cons.1 member with rfl | later
    · obtain ⟨form, rfl⟩ := isTagWord_of_leadingTag? read
      exact ⟨form, [], rest, whole.symm, rfl⟩
    · obtain ⟨form, front, back, rfl, rfl⟩ := ih later
      refine ⟨form, word ++ front, back, ?_, ?_⟩
      · rw [← whole, List.append_assoc]
      · rw [Text.byteLength_append, Nat.add_assoc]
  | case2 => cases member
  | case3 column c rest absent ih =>
    obtain ⟨form, front, back, rfl, rfl⟩ := ih member
    exact ⟨form, c :: front, back, rfl, by rw [Text.byteLength, Nat.add_assoc]⟩

/-- A scanned tag is a word of its line, at its columns. -/
theorem exists_form_of_mem_scan {source : String} {found : RawTag} (member : found ∈ scan source) :
    ∃ form : TagForm, found.text = String.ofList form.word ∧
      Text.slice? ((Template.parse source).line found.position.line) found.position.column
        (found.position.column + form.word.length) = some form.word := by
  rw [scan_eq_flatMap] at member
  obtain ⟨⟨cs, line⟩, isLine, onLine⟩ := List.mem_flatMap.1 member
  obtain ⟨form, front, back, rfl, rfl⟩ := exists_form_of_mem_tagsFrom onLine
  have here : (Template.parse source).line line = front ++ (form.word ++ back) := by
    have isLine := List.mk_mem_zipIdx_iff_getElem?.1 isLine
    rw [Template.line, Template.line?_parse, isLine, Option.getD_some]
  refine ⟨form, rfl, ?_⟩
  rw [here, ← form.byteLength_word, Nat.zero_add]
  exact Text.slice?_append front form.word back

/-! ## Nodes -/

/-- The nodes of an outline are its tags, in their order. -/
theorem Outline.map_tag_nodesFrom (o : Outline) (parent : Nat) (ancestors : List String)
    (first : Nat) : (o.nodesFrom parent ancestors first).map Node.tag = o.tags.map some := by
  induction o generalizing parent ancestors first with
  | nil => rfl
  | cons tag body rest ihBody ihRest =>
    rw [nodesFrom, tags, List.map_cons, List.map_append, ihBody, ihRest, List.map_cons,
      List.map_append]

theorem Template.map_tag_nodes_parse (source : String) :
    (parse source).outline.nodes.map Outline.Node.tag =
      none :: (scan source).map fun found => some found.tag := by
  rw [Outline.nodes, List.map_cons, Outline.map_tag_nodesFrom, parse, Outline.tags_ofTags,
    List.map_map]
  rfl

/-- What a tag is taken apart into. A word of the grammar gives back the choices that it was
spelled with: it is raw exactly if its third brace is there, and its sigil and its name are what
stands between the braces. A scan finds such words only, each at its columns on its line, and
each becomes a node with that name and the width of the word. So there is nothing in a name but
letters, digits, `_` and dots. -/
theorem parts_spec (form : TagForm) (p : Position) (source : String) :
    RawTag.parts ⟨p, String.ofList form.word⟩ =
      ⟨form.third, form.sigil, String.ofList form.name⟩ ∧
    (Template.parse source).outline.nodes.map Outline.Node.tag =
      none :: (scan source).map (fun found => some found.tag) ∧
    ∀ found ∈ scan source,
      (∃ form : TagForm, found.text = String.ofList form.word ∧ found.tag = form.tag found.position ∧
        Text.slice? ((Template.parse source).line found.position.line) found.position.column
          (found.position.column + found.tag.width) = some form.word) ∧
      found.tag.name ≠ "" ∧ ∀ c ∈ found.tag.name.toList, isNameChar c = true := by
  refine ⟨form.parts_word p, Template.map_tag_nodes_parse source, ?_⟩
  intro found member
  obtain ⟨form, same, onLine⟩ := exists_form_of_mem_scan member
  have isTag : found.tag = form.tag found.position := by
    rw [← form.tag_word, ← same]
  refine ⟨⟨form, same, isTag, ?_⟩, ?_, ?_⟩
  · rw [isTag]
    exact onLine
  · rw [isTag]
    simpa [TagForm.tag] using form.name_ne_nil
  · rw [isTag, TagForm.tag, String.toList_ofList]
    exact form.isNameChar_of_mem

/-- The third braces need not match: `{{{a}}{{#b}}}`. -/
example :
    (scan "\x7b\x7b\x7ba\x7d\x7d\x7b\x7b#b\x7d\x7d\x7d").map RawTag.tag =
      [⟨"a", ⟨0, 0⟩, 6, true, none⟩, ⟨"b", ⟨0, 6⟩, 7, false, some .opening⟩] := by
  decide +kernel

end Stencil
