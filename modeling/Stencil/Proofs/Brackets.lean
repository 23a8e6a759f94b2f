import Mathlib.Data.List.Perm.Basic
import Mathlib.Data.List.Nodup
import Stencil.Proofs.Nesting
import Stencil.Proofs.Scanned

/-!
Section tags as brackets.

The diagnostics of a template are found after the fact: a section is judged by the sibling
behind it, a closing tag by the sibling in front of it, level by level, and the lot is
sorted. `matchReport` finds them in one pass over the tags, with a stack of the open
sections, and `WellNested` is the grammar of the sequences that have none.

* `matchReport_append`: a pass up to the close of a section.
* `perm_problems_nest`: an outline has the problems of its sequence of tags.
* `matchReport_eq_nil_iff`: nothing is reported exactly if the tags are nested well.
* `Template.diagnostics_spec`: the diagnostics of a source and strict parsing.
-/

namespace Stencil

/-! ## One pass over the tags -/

/-- A section that is open where the tags end. -/
def unclosedProblem (tag : Tag) : Diagnostic := ⟨.unclosed tag.name, tag.position⟩

/-- A closing tag where nothing is open. -/
def strayProblem (close : Tag) : Diagnostic := ⟨.strayClose close.name, close.position⟩

/-- What is wrong when a tag closes a section: their names may differ. -/
def mismatch? (tag close : Tag) : Option Diagnostic :=
  if tag.name = close.name then none
  else some ⟨.mismatchedClose tag.name close.name, close.position⟩

/-- What is reported in one pass over the tags, with the sections that are open so far,
innermost first. -/
def matchReport (opened : List Tag) : List Tag → List Diagnostic
  | [] => opened.map unclosedProblem
  | tag :: rest =>
    match tag.sigil, opened with
    | none, _ => matchReport opened rest
    | some .closing, [] => strayProblem tag :: matchReport [] rest
    | some .closing, innermost :: outer =>
      (mismatch? innermost tag).toList ++ matchReport outer rest
    | some _, _ => matchReport (tag :: opened) rest

/-- Sequences of tags whose sections are all closed, each by a tag of its own name. -/
inductive WellNested : List Tag → Prop
  | nil : WellNested []
  | value {tag : Tag} {rest : List Tag} :
    tag.sigil = none → WellNested rest → WellNested (tag :: rest)
  | closed {tag close : Tag} {body rest : List Tag} :
    tag.opens = true → close.isClosing = true → tag.name = close.name →
    WellNested body → WellNested rest → WellNested (tag :: (body ++ close :: rest))

section MatchReport

variable {tag : Tag} {opened rest : List Tag}

theorem matchReport_cons_variable (h : tag.sigil = none) :
    matchReport opened (tag :: rest) = matchReport opened rest := by
  simp only [matchReport, h]

theorem matchReport_cons_stray (h : tag.sigil = some .closing) :
    matchReport [] (tag :: rest) = strayProblem tag :: matchReport [] rest := by
  simp only [matchReport, h]

theorem matchReport_cons_close (h : tag.sigil = some .closing) (innermost : Tag)
    (outer : List Tag) :
    matchReport (innermost :: outer) (tag :: rest) =
      (mismatch? innermost tag).toList ++ matchReport outer rest := by
  simp only [matchReport, h]

theorem matchReport_cons_open (h : tag.opens = true) :
    matchReport opened (tag :: rest) = matchReport (tag :: opened) rest := by
  cases sigil : tag.sigil with
  | none => simp [Tag.opens, sigil] at h
  | some sort =>
    cases sort with
    | closing => simp [Tag.opens, Sigil.opens, sigil] at h
    | opening => simp only [matchReport, sigil]
    | inverted => simp only [matchReport, sigil]

end MatchReport

theorem Tag.sigil_cases (tag : Tag) :
    tag.sigil = none ∨ tag.sigil = some .closing ∨ tag.opens = true := by
  cases sigil : tag.sigil with
  | none => exact .inl rfl
  | some sort => cases sort <;> simp [Tag.opens, Sigil.opens, sigil]

/-! ## A pass up to the close of a section -/

/-- A pass does not look at the sections of `outer` before the sections of `opened` and
those inside them are closed; then it goes on as if nothing else had been open. -/
theorem matchReport_append (opened outer tags : List Tag) :
    matchReport (opened ++ outer) tags =
      matchReport opened (upToClose Tag.sigil opened.length tags).1 ++
        matchReport outer ((upToClose Tag.sigil opened.length tags).2.elim []
          fun (close, after) => close :: after) := by
  induction tags generalizing opened with
  | nil => simp [upToClose, matchReport]
  | cons tag rest ih =>
    by_cases ends : tag.sigil = some .closing ∧ opened.length = 0
    · have nothing : opened = [] := List.eq_nil_of_length_eq_zero ends.2
      subst nothing
      rw [upToClose, if_pos ends]
      rfl
    · rw [upToClose_cons_of_ne ends]
      rcases tag.sigil_cases with plain | closes | opens
      · have depth : depthBehind Tag.sigil opened.length tag = opened.length := by
          simp [depthBehind, plain]
        rw [depth, matchReport_cons_variable plain, matchReport_cons_variable plain]
        exact ih opened
      · cases opened with
        | nil => exact absurd ⟨closes, rfl⟩ ends
        | cons first opened =>
          have depth : depthBehind Tag.sigil (first :: opened).length tag = opened.length := by
            simp [depthBehind, closes]
          rw [depth, List.cons_append, matchReport_cons_close closes,
            matchReport_cons_close closes, ih opened, List.append_assoc]
      · have depth : depthBehind Tag.sigil opened.length tag = (tag :: opened).length :=
          Outline.depthBehind_opens opens opened.length
        rw [depth, matchReport_cons_open opens, matchReport_cons_open opens]
        exact ih (tag :: opened)

/-- A section that no tag closes is reported behind the problems inside it. -/
theorem matchReport_of_unclosed {tags body : List Tag}
    (found : upToClose Tag.sigil 0 tags = (body, none)) (tag : Tag) :
    matchReport [tag] tags = matchReport [] body ++ [unclosedProblem tag] := by
  have pass := matchReport_append [] [tag] tags
  rw [List.length_nil, found] at pass
  exact pass

/-- A section that is closed is reported, if at all, between the problems inside it and
those behind it. -/
theorem matchReport_of_closed {tags body after : List Tag} {close : Tag}
    (found : upToClose Tag.sigil 0 tags = (body, some (close, after))) (tag : Tag) :
    matchReport [tag] tags =
      matchReport [] body ++ ((mismatch? tag close).toList ++ matchReport [] after) := by
  have pass := matchReport_append [] [tag] tags
  have closes := (upToClose_some found).2
  rw [List.length_nil, found] at pass
  rw [← matchReport_cons_close closes]
  exact pass

/-! ## Problems of an outline -/

namespace Outline

/-- The problems of an outline in the order in which its levels are searched. -/
def problems (o : Outline) : List Diagnostic := o.levelProblems false ++ o.bodyProblems

theorem problems_nest_unclosed {tag : Tag} (opens : tag.opens = true) (body : List Tag) :
    (cons tag (nest body) nil).problems = unclosedProblem tag :: (nest body).problems := by
  simp [problems, levelProblems, bodyProblems, opens, leadingClose?, sectionProblem?,
    unclosedProblem]

theorem sectionProblem?_some (tag close : Tag) :
    sectionProblem? tag (some close) = mismatch? tag close := by
  simp [sectionProblem?, mismatch?, eq_comm]

theorem perm_problems_closed {tag close : Tag} (opens : tag.opens = true)
    (closes : close.sigil = some .closing) (body after : Outline) :
    (cons tag body (cons close nil after)).problems.Perm
      (body.problems ++ ((mismatch? tag close).toList ++ after.problems)) := by
  have isClosing : close.isClosing = true := by simp [Tag.isClosing, closes]
  have flat : close.opens = false := by simp [Tag.opens, Sigil.opens, closes]
  rw [List.perm_iff_count]
  intro d
  simp only [problems, levelProblems, bodyProblems, leadingClose?, opens, isClosing, flat,
    sectionProblem?_some, if_true, Bool.not_true, Bool.and_false, Bool.false_eq_true, if_false,
    List.count_append, List.nil_append]
  omega

theorem problems_cons_variable {tag : Tag} (plain : tag.sigil = none) (rest : Outline) :
    (cons tag nil rest).problems = rest.problems := by
  have flat : tag.opens = false := by simp [Tag.opens, plain]
  have notClosing : tag.isClosing = false := by simp [Tag.isClosing, plain]
  simp [problems, levelProblems, bodyProblems, flat, notClosing]

theorem problems_cons_stray {tag : Tag} (closes : tag.sigil = some .closing) (rest : Outline) :
    (cons tag nil rest).problems = strayProblem tag :: rest.problems := by
  have flat : tag.opens = false := by simp [Tag.opens, Sigil.opens, closes]
  have isClosing : tag.isClosing = true := by simp [Tag.isClosing, closes]
  simp [problems, levelProblems, bodyProblems, flat, isClosing, strayProblem]

/-- An outline has the problems that one pass over its tags reports. -/
theorem perm_problems_nest (tags : List Tag) : (nest tags).problems.Perm (matchReport [] tags) := by
  fun_induction nest tags with
  | case1 => exact List.Perm.nil
  | case2 tag rest opens body found ih =>
    have whole := upToClose_none found
    subst whole
    rw [problems_nest_unclosed opens, matchReport_cons_open opens, matchReport_of_unclosed found]
    exact (ih.cons _).trans (List.perm_append_singleton _ _).symm
  | case3 tag rest opens body close after found ihBody ihAfter =>
    have closes := (upToClose_some found).2
    rw [matchReport_cons_open opens, matchReport_of_closed found]
    exact (perm_problems_closed opens closes _ _).trans (ihBody.append (ihAfter.append_left _))
  | case4 tag rest flat ih =>
    rcases tag.sigil_cases with plain | closes | opens
    · rw [problems_cons_variable plain, matchReport_cons_variable plain]
      exact ih
    · rw [problems_cons_stray closes, matchReport_cons_stray closes]
      exact ih.cons _
    · exact absurd opens flat

end Outline

/-! ## Sequences without a problem -/

theorem matchReport_append_of_wellNested {body : List Tag} (h : WellNested body)
    (opened rest : List Tag) : matchReport opened (body ++ rest) = matchReport opened rest := by
  induction h generalizing opened rest with
  | nil => rfl
  | value plain nested ih =>
    rw [List.cons_append, matchReport_cons_variable plain]
    exact ih opened rest
  | @closed tag close body tail opens closes same nestedBody nestedTail ihBody ihTail =>
    have sigil : close.sigil = some .closing := of_decide_eq_true closes
    have matched : mismatch? tag close = none := if_pos same
    rw [List.cons_append, List.append_assoc, List.cons_append, matchReport_cons_open opens,
      ihBody, matchReport_cons_close sigil, matched]
    exact ihTail opened rest

/-- If nothing is reported, the innermost open section is closed by a tag of its name,
behind a sequence without a problem. -/
theorem exists_close_of_matchReport_eq_nil {innermost : Tag} {outer tags : List Tag}
    (h : matchReport (innermost :: outer) tags = []) :
    ∃ body close rest, tags = body ++ close :: rest ∧ WellNested body ∧
      close.isClosing = true ∧ innermost.name = close.name ∧ matchReport outer rest = [] := by
  induction length : tags.length using Nat.strongRecOn generalizing innermost outer tags with
  | ind count ih =>
  cases tags with
  | nil => cases h
  | cons tag tail =>
    have shorter : tail.length < count := by
      rw [← length, List.length_cons]
      omega
    rcases tag.sigil_cases with plain | closes | opens
    · rw [matchReport_cons_variable plain] at h
      obtain ⟨body, close, rest, rfl, nested, found⟩ := ih _ shorter h rfl
      exact ⟨tag :: body, close, rest, rfl, .value plain nested, found⟩
    · rw [matchReport_cons_close closes, List.append_eq_nil_iff] at h
      obtain ⟨matched, later⟩ := h
      have same : innermost.name = tag.name := by
        by_contra other
        simp [mismatch?, other] at matched
      exact ⟨[], tag, tail, rfl, .nil, by simp [Tag.isClosing, closes], same, later⟩
    · -- First the close of the section that starts here, then that of the one around it.
      rw [matchReport_cons_open opens] at h
      obtain ⟨inside, close, rest, rfl, nestedInside, closes, same, h⟩ := ih _ shorter h rfl
      have shorterRest : rest.length < count := by
        rw [List.length_append, List.length_cons] at shorter
        omega
      obtain ⟨body, last, rest, rfl, nested, found⟩ := ih _ shorterRest h rfl
      refine ⟨tag :: (inside ++ close :: body), last, rest, ?_, ?_, found⟩
      · simp
      · exact .closed opens closes same nestedInside nested

/-- Nothing is reported exactly if every section is closed by a tag of its name and no tag
closes anything else. -/
theorem matchReport_eq_nil_iff (tags : List Tag) : matchReport [] tags = [] ↔ WellNested tags := by
  constructor
  · intro h
    induction length : tags.length using Nat.strongRecOn generalizing tags with
    | ind count ih =>
    cases tags with
    | nil => exact .nil
    | cons tag tail =>
      have shorter : tail.length < count := by
        rw [← length, List.length_cons]
        omega
      rcases tag.sigil_cases with plain | closes | opens
      · rw [matchReport_cons_variable plain] at h
        exact .value plain (ih _ shorter tail h rfl)
      · rw [matchReport_cons_stray closes] at h
        cases h
      · rw [matchReport_cons_open opens] at h
        obtain ⟨body, close, rest, rfl, nested, closes, same, h⟩ :=
          exists_close_of_matchReport_eq_nil h
        have shorterRest : rest.length < count := by
          rw [List.length_append, List.length_cons] at shorter
          omega
        exact .closed opens closes same nested (ih _ shorterRest rest h rfl)
  · intro h
    have none := matchReport_append_of_wellNested h [] []
    rw [List.append_nil] at none
    exact none

/-! ## Places of problems -/

/-- Each problem is reported at the place of a tag, and no two at the place of one tag. -/
theorem count_position_matchReport_le (opened tags : List Tag) (p : Position) :
    ((matchReport opened tags).map Diagnostic.position).count p ≤
      ((opened ++ tags).map Tag.position).count p := by
  induction tags generalizing opened with
  | nil =>
    have places : (opened.map unclosedProblem).map Diagnostic.position =
        opened.map Tag.position := by
      rw [List.map_map]
      rfl
    exact Nat.le_of_eq (by rw [matchReport, places, List.append_nil])
  | cons tag rest ih =>
    rcases tag.sigil_cases with plain | closes | opens
    · have later := ih opened
      rw [matchReport_cons_variable plain]
      simp only [List.map_append, List.map_cons, List.count_append, List.count_cons] at later ⊢
      omega
    · cases opened with
      | nil =>
        have later := ih []
        rw [matchReport_cons_stray closes]
        simp only [List.nil_append, List.map_cons, List.count_cons, strayProblem] at later ⊢
        omega
      | cons innermost outer =>
        have later := ih outer
        have here : ((mismatch? innermost tag).toList.map Diagnostic.position).count p ≤
            if (tag.position == p) = true then 1 else 0 := by
          unfold mismatch?
          split
          · simp
          · simp [List.count_cons]
        rw [matchReport_cons_close closes]
        simp only [List.map_append, List.map_cons, List.count_append, List.count_cons,
          List.cons_append] at later here ⊢
        omega
    · have later := ih (tag :: opened)
      rw [matchReport_cons_open opens]
      simp only [List.map_append, List.map_cons, List.count_append, List.count_cons,
        List.cons_append] at later ⊢
      omega

theorem nodup_position_matchReport {tags : List Tag} (h : (tags.map Tag.position).Nodup) :
    ((matchReport [] tags).map Diagnostic.position).Nodup := by
  rw [List.nodup_iff_count_le_one] at h ⊢
  intro p
  exact Nat.le_trans (count_position_matchReport_le [] tags p) (h p)

/-! ## Diagnostics -/

theorem Position.le_total (p q : Position) : p ≤ q ∨ q ≤ p := by
  simp only [le_def]; omega

theorem Position.lt_of_le_of_ne {p q : Position} (h : p ≤ q) (other : p ≠ q) : p < q := by
  rcases Decidable.em (p < q) with less | notLess
  · exact less
  · have back := Position.not_lt.1 notLess
    refine absurd ?_ other
    obtain ⟨line, column⟩ := p
    obtain ⟨line', column'⟩ := q
    simp only [le_def, Position.mk.injEq] at *
    omega

namespace Outline

theorem perm_diagnostics_ofTags (tags : List RawTag) :
    (ofTags tags).diagnostics.Perm (matchReport [] (tags.map RawTag.tag)) := by
  rw [ofTags_eq_nest]
  exact (List.mergeSort_perm _ _).trans (perm_problems_nest _)

/-- Diagnostics are in order of position; tags at different places have problems at
different places. -/
theorem pairwise_diagnostics_ofTags {tags : List RawTag}
    (h : (tags.map RawTag.position).Nodup) :
    (ofTags tags).diagnostics.Pairwise fun d later => d.position < later.position := by
  have sorted : (ofTags tags).diagnostics.Pairwise
      fun d later => decide (d.position ≤ later.position) = true := by
    apply List.pairwise_mergeSort
    · intro a b c ab bc
      exact decide_eq_true (Position.le_trans (of_decide_eq_true ab) (of_decide_eq_true bc))
    · intro a b
      simpa using Position.le_total a.position b.position
  have places : ((tags.map RawTag.tag).map Tag.position).Nodup := by
    rw [List.map_map]
    exact h
  have apart : ((ofTags tags).diagnostics.map Diagnostic.position).Nodup :=
    ((perm_diagnostics_ofTags tags).map _).nodup_iff.2 (nodup_position_matchReport places)
  rw [List.Nodup, List.pairwise_map] at apart
  refine (sorted.and apart).imp ?_
  rintro d later ⟨le, ne⟩
  exact Position.lt_of_le_of_ne (of_decide_eq_true le) ne

end Outline

theorem nodup_position_scan (source : String) : ((scan source).map RawTag.position).Nodup := by
  rw [← Segment.rawTags_cut source, List.Nodup, List.pairwise_map]
  refine (Segment.pairwise_rawTags .start source.toList).imp ?_
  rintro tag later ⟨long, apart⟩ same
  have moved := Position.lt_of_lt_of_le long apart
  rw [same] at moved
  exact Position.lt_irrefl _ moved

namespace Template

theorem parseWith_strict_of_nil {source : String} (h : (parse source).diagnostics = []) :
    parseWith true source = .ok (parse source) := by
  simp only [parseWith, h]

theorem parseWith_strict_of_cons {source : String} {first : Diagnostic} {others : List Diagnostic}
    (h : (parse source).diagnostics = first :: others) :
    parseWith true source = .error ⟨first, others.length + 1⟩ := by
  simp only [parseWith, h, if_true]

theorem parseWith_strict_eq_ok_iff (source : String) (t : Template) :
    parseWith true source = .ok t ↔ (parse source).diagnostics = [] ∧ t = parse source := by
  cases found : (parse source).diagnostics with
  | nil =>
    rw [parseWith_strict_of_nil found, Except.ok.injEq, eq_comm]
    exact ⟨fun same => ⟨rfl, same⟩, fun same => same.2⟩
  | cons first others =>
    rw [parseWith_strict_of_cons found]
    simp

/-- Strict parsing names the problem at the first place, and the number of problems. -/
theorem parseWith_strict_eq_error_iff {source : String}
    (ordered : (parse source).diagnostics.Pairwise fun d later => d.position < later.position)
    (e : ParseError) :
    parseWith true source = .error e ↔
      e.first ∈ (parse source).diagnostics ∧
        (∀ d ∈ (parse source).diagnostics, e.position ≤ d.position) ∧
        e.count = (parse source).diagnostics.length := by
  cases found : (parse source).diagnostics with
  | nil =>
    rw [parseWith_strict_of_nil found]
    simp
  | cons first others =>
    rw [found] at ordered
    rw [parseWith_strict_of_cons found, Except.error.injEq]
    have least : ∀ d ∈ first :: others, d = first ∨ first.position < d.position := by
      intro d member
      rcases List.mem_cons.1 member with same | later
      · exact .inl same
      · exact .inr (List.rel_of_pairwise_cons ordered later)
    constructor
    · intro same
      subst same
      refine ⟨List.mem_cons_self, ?_, rfl⟩
      intro d member
      rcases least d member with rfl | less
      · exact Position.le_refl _
      · exact Position.le_of_lt less
    · intro ⟨member, le, count⟩
      have same : e.first = first := by
        rcases least e.first member with same | less
        · exact same
        · exact absurd (le first List.mem_cons_self) (Position.not_le.2 less)
      have number : e.count = others.length + 1 := count
      rw [← same, ← number]

/-- The diagnostics of a source are what one pass over its tags reports, in order of
position. Strict parsing accepts the source exactly if its sections are nested well; if
they are not, it names the first problem and says how many there are. -/
theorem diagnostics_spec (source : String) :
    let tags := (scan source).map RawTag.tag
    let report := matchReport [] tags
    ((parse source).diagnostics.Perm report ∧
      (parse source).diagnostics.Pairwise fun d later => d.position < later.position) ∧
    (∀ t, parseWith true source = .ok t ↔ WellNested tags ∧ t = parse source) ∧
    (∀ e, parseWith true source = .error e ↔
      e.first ∈ report ∧ (∀ d ∈ report, e.position ≤ d.position) ∧ e.count = report.length) := by
  intro tags report
  have perm : (parse source).diagnostics.Perm report :=
    Outline.perm_diagnostics_ofTags (scan source)
  have ordered : (parse source).diagnostics.Pairwise fun d later => d.position < later.position :=
    Outline.pairwise_diagnostics_ofTags (nodup_position_scan source)
  refine ⟨⟨perm, ordered⟩, ?accepted, ?refused⟩
  case accepted =>
    intro t
    have none : (parse source).diagnostics = [] ↔ WellNested tags := by
      rw [← matchReport_eq_nil_iff, ← List.length_eq_zero_iff, perm.length_eq,
        List.length_eq_zero_iff]
    rw [parseWith_strict_eq_ok_iff, none]
  case refused =>
    intro e
    rw [parseWith_strict_eq_error_iff ordered, perm.mem_iff, perm.length_eq]
    simp only [perm.mem_iff]

end Template

end Stencil
