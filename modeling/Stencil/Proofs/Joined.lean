import Stencil.Proofs.Asking
import Stencil.Proofs.Lowered
import Stencil.Proofs.Walk

/-!
Templates that stand below each other in one source.

If the upper text leaves no section open, the two do not meet: `Template.parse_below` says so
of the page, of the diagnostics and of the requests. What they have in common is the count of
open sections, `depthAfter`. It is zero between the texts, so each pass over the whole comes to
the lower text in the state in which it starts.

* `Passage.meaning_nest_append`: the page.
* `matchReport_append_of_closed`: the diagnostics.
* `Asking.names_foldl_append`: the requests.
-/

namespace Stencil

/-! ## Counting open sections -/

section DepthAfter

variable {α : Type} {sigil : α → Option Sigil} {depth : Nat} {as body after : List α} {close : α}

theorem depthBehind_of_none {a : α} (h : sigil a = none) (depth : Nat) :
    depthBehind sigil depth a = depth := by
  rw [depthBehind, h]

theorem depthBehind_of_closing {a : α} (h : sigil a = some .closing) (depth : Nat) :
    depthBehind sigil depth a = depth - 1 := by
  rw [depthBehind, h]

theorem depthBehind_of_opens {a : α} {sort : Sigil} (h : sigil a = some sort)
    (opens : sort ≠ .closing) (depth : Nat) : depthBehind sigil depth a = depth + 1 := by
  cases sort <;> simp_all [depthBehind]

/-- How many sections are open behind a sequence of items, if `depth` were before it. -/
def depthAfter (sigil : α → Option Sigil) (depth : Nat) (as : List α) : Nat :=
  as.foldl (depthBehind sigil) depth

theorem depthAfter_cons (depth : Nat) (a : α) (rest : List α) :
    depthAfter sigil depth (a :: rest) = depthAfter sigil (depthBehind sigil depth a) rest := rfl

/-- A section that is not closed stays open to the end. -/
theorem depthAfter_of_unclosed (h : upToClose sigil depth as = (body, none)) :
    depthAfter sigil (depth + 1) as = depthAfter sigil depth as + 1 := by
  induction as generalizing depth body with
  | nil => rfl
  | cons a rest ih =>
    by_cases ends : sigil a = some .closing ∧ depth = 0
    · rw [upToClose, if_pos ends] at h
      cases h
    · rw [upToClose_cons_of_ne ends] at h
      rw [depthAfter_cons, depthAfter_cons, depthBehind_succ ends]
      exact ih (Prod.ext rfl (Prod.mk.inj h).2)

/-- Behind the close of the outermost section nothing is open. -/
theorem depthAfter_of_closed (h : upToClose sigil depth as = (body, some (close, after))) :
    depthAfter sigil (depth + 1) as = depthAfter sigil 0 after := by
  induction as generalizing depth body with
  | nil => cases h
  | cons a rest ih =>
    rw [depthAfter_cons]
    by_cases ends : sigil a = some .closing ∧ depth = 0
    · rw [upToClose, if_pos ends] at h
      cases h
      obtain ⟨closes, outermost⟩ := ends
      rw [depthBehind_of_closing closes, outermost]
    · rw [upToClose_cons_of_ne ends] at h
      rw [depthBehind_succ ends]
      exact ih (Prod.ext rfl (Prod.mk.inj h).2)

end DepthAfter

/-- The tags among segments open the same sections. -/
theorem Segment.depthAfter_tags (p : Position) (depth : Nat) (segments : List (Segment Char)) :
    depthAfter Tag.sigil depth (tags p segments) = depthAfter sigil? depth segments := by
  induction segments generalizing p depth with
  | nil => rfl
  | cons segment rest ih =>
    cases segment with
    | literal c => exact ih (p.past [c]) depth
    | tag word =>
      have here : depthBehind Tag.sigil depth (tagAt p word) =
          depthBehind sigil? depth (.tag word : Segment Char) := by
        rw [depthBehind, sigil_tagAt]
        rfl
      rw [Rendering.tags_cons_tag, depthAfter_cons, depthAfter_cons, here, ih]

/-! ## The page -/

namespace Passage

variable {α : Type} (store : Store) (options : Options) (inserted : Char → α)

theorem meaning_enclose_append (sigil : Sigil) (name : String) (body : Passage α)
    {whole front back : Passage α} {scope : Path}
    (split : whole.meaning store options inserted scope =
      front.meaning store options inserted scope ++ back.meaning store options inserted scope) :
    (enclose sigil name body whole).meaning store options inserted scope =
      (enclose sigil name body front).meaning store options inserted scope ++
        back.meaning store options inserted scope := by
  unfold enclose
  split
  · rw [meaning, split, meaning, List.append_assoc]
  · rw [meaning, split, meaning, List.append_assoc]

/-- Segments mean the same wherever no section is open. -/
theorem meaning_nest_append {front : List (Segment α)}
    (closed : depthAfter Segment.sigil? 0 front = 0) (back : List (Segment α)) (scope : Path) :
    (nest (front ++ back)).meaning store options inserted scope =
      (nest front).meaning store options inserted scope ++
        (nest back).meaning store options inserted scope := by
  fun_induction nest front with
  | case1 => rfl
  | case2 a rest ih =>
    rw [List.cons_append, nest_literal, meaning, meaning, ih closed, List.cons_append]
  | case3 word rest plain ih =>
    have same : depthBehind Segment.sigil? 0 (.tag word : Segment α) = 0 :=
      depthBehind_of_none plain 0
    rw [depthAfter_cons, same] at closed
    rw [List.cons_append, nest_value plain, meaning, meaning, ih closed, List.append_assoc]
  | case4 word rest closes ih =>
    have same : depthBehind Segment.sigil? 0 (.tag word : Segment α) = 0 :=
      depthBehind_of_closing closes 0
    rw [depthAfter_cons, same] at closed
    rw [List.cons_append, nest_close closes, ih closed]
  | case5 word rest sigil opens here body found ih =>
    have deeper : depthBehind Segment.sigil? 0 (.tag word : Segment α) = 0 + 1 :=
      depthBehind_of_opens here opens 0
    rw [depthAfter_cons, deeper, depthAfter_of_unclosed found] at closed
    cases closed
  | case6 word rest sigil opens here body close after found ihBody ihAfter =>
    have deeper : depthBehind Segment.sigil? 0 (.tag word : Segment α) = 0 + 1 :=
      depthBehind_of_opens here opens 0
    rw [depthAfter_cons, deeper, depthAfter_of_closed found] at closed
    have whole := (upToClose_some found).1
    have longer := upToClose_append found (after ++ back)
    rw [whole, List.cons_append, List.append_assoc, List.cons_append,
      nest_closed here opens longer]
    exact meaning_enclose_append store options inserted sigil _ _ (ihAfter closed)

end Passage

/-! ## The diagnostics -/

section Report

variable {front : List Tag}

/-- A report goes on behind any part of the tags with the sections that are still open. -/
theorem exists_matchReport_append (opened front : List Tag) :
    ∃ (reports : List Diagnostic) (stack : List Tag),
      stack.length = depthAfter Tag.sigil opened.length front ∧
        ∀ back, matchReport opened (front ++ back) = reports ++ matchReport stack back := by
  induction front generalizing opened with
  | nil => exact ⟨[], opened, rfl, fun _ => rfl⟩
  | cons tag rest ih =>
    rw [depthAfter_cons]
    rcases tag.sigil_cases with plain | closes | opens
    · have depth := depthBehind_of_none plain opened.length
      obtain ⟨reports, stack, length, later⟩ := ih opened
      refine ⟨reports, stack, by rw [length, depth], ?_⟩
      intro back
      rw [List.cons_append, matchReport_cons_variable plain, later]
    · have depth := depthBehind_of_closing closes opened.length
      rw [← List.length_tail] at depth
      obtain ⟨reports, stack, length, later⟩ := ih opened.tail
      cases opened with
      | nil =>
        refine ⟨strayProblem tag :: reports, stack, by rw [length, depth], ?_⟩
        intro back
        rw [List.cons_append, matchReport_cons_stray closes, List.cons_append]
        exact congrArg _ (later back)
      | cons innermost outer =>
        refine ⟨(mismatch? innermost tag).toList ++ reports, stack, by rw [length, depth], ?_⟩
        intro back
        rw [List.cons_append, matchReport_cons_close closes, List.append_assoc]
        exact congrArg _ (later back)
    · have depth : depthBehind Tag.sigil opened.length tag = (tag :: opened).length :=
        Outline.depthBehind_opens opens opened.length
      obtain ⟨reports, stack, length, later⟩ := ih (tag :: opened)
      refine ⟨reports, stack, by rw [length, depth], ?_⟩
      intro back
      rw [List.cons_append, matchReport_cons_open opens, later]

/-- Where no section is reported as open, none is. -/
theorem depthAfter_of_not_unclosed
    (h : ∀ d ∈ matchReport [] front, ∀ name, d.problem ≠ .unclosed name) :
    depthAfter Tag.sigil 0 front = 0 := by
  obtain ⟨reports, stack, length, later⟩ := exists_matchReport_append [] front
  have whole := later []
  rw [List.append_nil] at whole
  refine length.symm.trans (List.length_eq_zero_iff.mpr (List.eq_nil_iff_forall_not_mem.mpr ?_))
  intro tag member
  have reported : unclosedProblem tag ∈ matchReport [] front := by
    rw [whole]
    exact List.mem_append_right _ (List.mem_map_of_mem member)
  exact h _ reported tag.name rfl

/-- Where no section is open, the report begins anew. -/
theorem matchReport_append_of_closed (closed : depthAfter Tag.sigil 0 front = 0)
    (back : List Tag) :
    matchReport [] (front ++ back) = matchReport [] front ++ matchReport [] back := by
  obtain ⟨reports, stack, length, later⟩ := exists_matchReport_append [] front
  have none : stack = [] := List.eq_nil_of_length_eq_zero (length.trans closed)
  subst none
  have whole := later []
  rw [List.append_nil, matchReport, List.map_nil, List.append_nil] at whole
  rw [later, whole]

end Report

/-! ## The requests -/

namespace Asking

variable {a b : Asking} {seen : List String}

theorem length_opened_step (a : Asking) (tag : Tag) :
    (a.step tag).opened.length = depthBehind Tag.sigil a.opened.length tag := by
  rcases tag.sigil_cases with plain | closes | opens
  · rw [step_of_variable plain, depthBehind_of_none plain]
    unfold ask
    split
    · rfl
    · split <;> rfl
  · rw [step_of_closing closes, depthBehind_of_closing closes]
    exact List.length_tail
  · rw [step_of_opens opens, Outline.depthBehind_opens opens]
    rfl

theorem length_opened_foldl (a : Asking) (tags : List Tag) :
    (tags.foldl step a).opened.length = depthAfter Tag.sigil a.opened.length tags := by
  induction tags generalizing a with
  | nil => rfl
  | cons tag rest ih => rw [List.foldl_cons, ih, length_opened_step, depthAfter_cons]

/-- A pass beside another one that was asked for some names before: it has the same sections
open, and it has asked for the same names but those. -/
structure Ahead (seen : List String) (a b : Asking) : Prop where
  opened : a.opened = b.opened
  names : a.names = seen ++ b.names.filter (· ∉ seen)

namespace Ahead

theorem mem_names_iff (h : Ahead seen a b) (name : String) :
    name ∈ a.names ↔ name ∈ seen ∨ name ∈ b.names := by
  rw [h.names, List.mem_append, List.mem_filter, decide_eq_true_eq]
  tauto

theorem ask (h : Ahead seen a b) (name : String) : Ahead seen (a.ask name) (b.ask name) := by
  have known := h.mem_names_iff name
  unfold Asking.ask
  by_cases there : name ∈ b.names
  · rw [if_pos there, if_pos (known.mpr (.inr there))]
    exact h
  · rw [if_neg there]
    by_cases before : name ∈ seen
    · rw [if_pos (known.mpr (.inl before))]
      exact ⟨h.opened, by simp [h.names, before]⟩
    · have new : name ∉ a.names := fun member => (known.mp member).elim before there
      rw [if_neg new]
      exact ⟨h.opened, by simp [h.names, before]⟩

theorem step (h : Ahead seen a b) (tag : Tag) : Ahead seen (a.step tag) (b.step tag) := by
  rcases tag.sigil_cases with plain | closes | opens
  · rw [step_of_variable plain, step_of_variable plain, h.opened]
    split
    · exact h
    · exact h.ask _
  · rw [step_of_closing closes, step_of_closing closes]
    exact ⟨congrArg List.tail h.opened, h.names⟩
  · rw [step_of_opens opens, step_of_opens opens]
    exact ⟨congrArg (tag.name :: ·) h.opened, h.names⟩

theorem foldl (h : Ahead seen a b) (tags : List Tag) :
    Ahead seen (tags.foldl Asking.step a) (tags.foldl Asking.step b) := by
  induction tags generalizing a b with
  | nil => exact h
  | cons tag rest ih => exact ih (h.step tag)

end Ahead

/-- Where no section is open, a pass asks for the further names as from the start, but for no
name again. -/
theorem names_foldl_append {front : List Tag} (closed : depthAfter Tag.sigil 0 front = 0)
    (back : List Tag) :
    ((front ++ back).foldl step start).names =
      (front.foldl step start).names ++
        (back.foldl step start).names.filter (· ∉ (front.foldl step start).names) := by
  have none : (front.foldl step start).opened = [] := by
    apply List.eq_nil_of_length_eq_zero
    rw [length_opened_foldl]
    exact closed
  have between : Ahead (front.foldl step start).names (front.foldl step start) start :=
    ⟨none, (List.append_nil _).symm⟩
  rw [List.foldl_append]
  exact (between.foldl back).names

/-- It does not matter on which lines tags are. -/
theorem foldl_step_down (n : Nat) (a : Asking) (tags : List Tag) :
    (tags.map (Tag.down n)).foldl step a = tags.foldl step a := by
  rw [List.foldl_map]
  rfl

end Asking

/-! ## Two texts -/

namespace Template

/-- No section of the template is reported to be unclosed. There may be other problems. -/
def ClosesAll (t : Template) : Prop := ∀ d ∈ t.diagnostics, ∀ name, d.problem ≠ .unclosed name

variable {upper : String}

theorem depthAfter_scan (closed : (parse upper).ClosesAll) :
    depthAfter Tag.sigil 0 ((scan upper).map RawTag.tag) = 0 := by
  apply depthAfter_of_not_unclosed
  intro d reported
  exact closed d ((Outline.perm_diagnostics_ofTags (scan upper)).mem_iff.mpr reported)

theorem toList_text_render (source : String) (store : Store) {options : Options}
    (unnumbered : options.lineNumbers = false) :
    ((parse source).render store options).text.toList =
      (Passage.nest (Segment.cut source.toList)).meaning store options id [] := by
  rw [Template.render, unnumbered, Rendered.toList_text_ofPieces, Rendering.glyphs_pieces,
    Passage.map_meaning, ← Passage.nest_map, Segment.map_shown_marked]
  rfl

theorem text_render_below (closed : (parse upper).ClosesAll) (lower : String) (store : Store)
    {options : Options} (unnumbered : options.lineNumbers = false) :
    ((parse (upper ++ "\n" ++ lower)).render store options).text =
      ((parse upper).render store options).text ++ "\n" ++
        ((parse lower).render store options).text := by
  have depth : depthAfter Segment.sigil? 0 (Segment.cut upper.toList) = 0 := by
    rw [← Segment.depthAfter_tags .start, ← Segment.map_tag_rawTags, Segment.rawTags_cut]
    exact depthAfter_scan closed
  apply String.toList_injective
  rw [toList_below, toList_text_render _ store unnumbered, toList_text_render _ store unnumbered,
    toList_text_render _ store unnumbered, toList_below, Segment.cut_append_lineEnd,
    Passage.meaning_nest_append store options id depth, Passage.nest_literal, Passage.meaning]

theorem diagnostics_below (closed : (parse upper).ClosesAll) (lower : String) :
    (parse (upper ++ "\n" ++ lower)).diagnostics =
      (parse upper).diagnostics ++
        (parse lower).diagnostics.map (Diagnostic.down (parse upper).lineCount) := by
  have report : (matchReport [] ((scan (upper ++ "\n" ++ lower)).map RawTag.tag)) =
      matchReport [] ((scan upper).map RawTag.tag) ++
        (matchReport [] ((scan lower).map RawTag.tag)).map
          (Diagnostic.down (parse upper).lineCount) := by
    rw [scan_below, List.map_append, map_tag_down,
      matchReport_append_of_closed (depthAfter_scan closed), ← matchReport_down]
    rfl
  have whole := Outline.perm_diagnostics_ofTags (scan (upper ++ "\n" ++ lower))
  have above := Outline.perm_diagnostics_ofTags (scan upper)
  have below := Outline.perm_diagnostics_ofTags (scan lower)
  rw [report] at whole
  have same := whole.trans (above.append (below.map _)).symm
  -- Both sides are in order of position, and so the same list.
  have ordered (source : String) :=
    Outline.pairwise_diagnostics_ofTags (nodup_position_scan source)
  refine same.eq_of_pairwise ?_ (ordered _) ?_
  · intro d later _ _ less more
    exact absurd (Position.lt_of_lt_of_le less (Position.le_of_lt more)) (Position.lt_irrefl _)
  · refine List.pairwise_append.mpr ⟨ordered upper, ?_, ?_⟩
    · exact List.pairwise_map.mpr ((ordered lower).imp Position.down_lt_down)
    · intro d member later moved
      obtain ⟨e, -, rfl⟩ := List.mem_map.mp moved
      exact Position.lt_down (line_lt_of_mem_diagnostics member) e.position

/-- Problems that are found in their order need not be sorted. -/
theorem diagnostics_eq_of_problems {t : Template} {report : List Diagnostic}
    (problems : t.outline.problems = report)
    (ordered : report.Pairwise fun d later => d.position ≤ later.position) :
    t.diagnostics = report := by
  rw [← problems] at ordered ⊢
  exact List.mergeSort_of_pairwise (ordered.imp decide_eq_true)

/-- Requests to one subject differ by their names. -/
theorem map_request_filter (subject : String) (asked known : List String) :
    (asked.filter (· ∉ known)).map (LearnRequest.mk · subject) =
      (asked.map (LearnRequest.mk · subject)).filter
        (· ∉ known.map (LearnRequest.mk · subject)) := by
  rw [List.filter_map]
  refine congrArg (List.map _) (List.filter_congr ?_)
  intro name _
  have same : (⟨name, subject⟩ : LearnRequest) ∈ known.map (LearnRequest.mk · subject) ↔
      name ∈ known :=
    List.mem_map_of_injective fun _ _ same => congrArg LearnRequest.name same
  exact decide_eq_decide.mpr (not_congr same.symm)

theorem learnRequests_below (closed : (parse upper).ClosesAll) (lower subject : String) :
    (parse (upper ++ "\n" ++ lower)).learnRequests subject =
      (parse upper).learnRequests subject ++
        ((parse lower).learnRequests subject).filter
          (· ∉ (parse upper).learnRequests subject) := by
  rw [learnRequests_parse, learnRequests_parse, learnRequests_parse, scan_below, List.map_append,
    map_tag_down, Asking.names_foldl_append (depthAfter_scan closed), Asking.foldl_step_down,
    List.map_append, map_request_filter]

/-- Two texts below each other, of which the upper one leaves no section open. The page is the
pages of both, the diagnostics are those of both, and the requests are those of the upper text
and what the lower one asks for besides. The lower text may be balanced or not. -/
theorem parse_below (upper lower : String) (closed : (parse upper).ClosesAll) :
    let above := parse upper
    let below := parse lower
    let whole := parse (upper ++ "\n" ++ lower)
    (∀ store options, options.lineNumbers = false →
      (whole.render store options).text =
        (above.render store options).text ++ "\n" ++ (below.render store options).text) ∧
    whole.diagnostics =
      above.diagnostics ++ below.diagnostics.map (Diagnostic.down above.lineCount) ∧
    ∀ subject, whole.learnRequests subject =
      above.learnRequests subject ++
        (below.learnRequests subject).filter (· ∉ above.learnRequests subject) := by
  intro above below whole
  exact ⟨fun store _ unnumbered => text_render_below closed lower store unnumbered,
    diagnostics_below closed lower, fun subject => learnRequests_below closed lower subject⟩

/-- `{{/x}}{{#a}}{{b}};{{/c}}` above `{{d}}{{#a}}{{b}}`: the upper text has other problems, and
the lower one leaves a section open and asks for a name again. -/
theorem parse_below_rooms :
    let upper := "\x7b\x7b/x\x7d\x7d\x7b\x7b#a\x7d\x7d\x7b\x7bb\x7d\x7d;\x7b\x7b/c\x7d\x7d"
    let lower := "\x7b\x7bd\x7d\x7d\x7b\x7b#a\x7d\x7d\x7b\x7bb\x7d\x7d"
    let whole := parse (upper ++ "\n" ++ lower)
    let store : Store := ⟨.mapping [("a", .list
      [.mapping [("b", .scalar "1")], .mapping [("b", .scalar "2")]]), ("d", .scalar "!")]⟩
    (parse upper).ClosesAll ∧ ({} : Options).lineNumbers = false ∧
      (whole.render store {}).text = "1;2;\n!12" ∧
      whole.diagnostics = [⟨.strayClose "x", ⟨0, 0⟩⟩, ⟨.mismatchedClose "a" "c", ⟨0, 18⟩⟩,
        ⟨.unclosed "a", ⟨1, 5⟩⟩] ∧
      whole.learnRequests "s" = [⟨"a.b", "s"⟩, ⟨"d", "s"⟩] := by
  intro upper lower whole store
  have problems : (parse upper).diagnostics =
      [⟨.strayClose "x", ⟨0, 0⟩⟩, ⟨.mismatchedClose "a" "c", ⟨0, 18⟩⟩] :=
    diagnostics_eq_of_problems (by decide +kernel) (by decide)
  have problemsBelow : (parse lower).diagnostics = [⟨.unclosed "a", ⟨0, 5⟩⟩] :=
    diagnostics_eq_of_problems (by decide +kernel) (by decide)
  have closed : (parse upper).ClosesAll := by
    intro d member
    rw [problems] at member
    rcases List.mem_cons.mp member with rfl | later
    · exact nofun
    · rw [List.mem_singleton.mp later]
      exact nofun
  obtain ⟨text, diagnostics, requests⟩ := parse_below upper lower closed
  refine ⟨closed, rfl, ?text, ?diagnostics, ?requests⟩
  case text => exact (text store {} rfl).trans (by decide +kernel)
  case diagnostics =>
    have lines : (parse upper).lineCount = 1 := by decide +kernel
    rw [diagnostics, problems, problemsBelow, lines]
    rfl
  case requests => exact (requests "s").trans (by decide +kernel)

end Template

end Stencil
