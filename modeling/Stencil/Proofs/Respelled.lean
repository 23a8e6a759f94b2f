import Mathlib.Data.List.Pairwise
import Stencil.Proofs.Asking
import Stencil.Proofs.PlainNames

/-!
Requests for one path under several names.

Requests are told apart by their names, and one path has many names. A template that spells a
path in two ways asks for it twice: `{{hosts.name}}` and the name `.name` in a section `hosts`
are an example.

* `Asking.Plain.step`: a pass that meets plain names only asks for plain names only.
* `exists_scan_pair`: any two names stand in a source, one behind the other.
* `Template.asksOnce_iff`: which templates ask for each path once, and which names may be used
  freely in them.
-/

namespace Stencil

/-! ## What a pass keeps -/

namespace Asking

variable {a : Asking} {tag : Tag}

/-- No name is asked for again. -/
theorem nodup_names_ask (h : a.names.Nodup) (name : String) : (a.ask name).names.Nodup := by
  unfold ask
  split
  · exact h
  · rename_i new
    refine List.nodup_append.2 ⟨h, List.nodup_singleton name, ?_⟩
    intro other known last isLast same
    rw [same, List.mem_singleton.1 isLast] at known
    exact new known

theorem nodup_names_step (h : a.names.Nodup) (tag : Tag) : (a.step tag).names.Nodup := by
  rcases tag.sigil_cases with plain | closes | opens
  · rw [step_of_variable plain]
    split
    · exact h
    · exact nodup_names_ask h _
  · rw [step_of_closing closes]
    exact h
  · rw [step_of_opens opens]
    exact h

theorem nodup_names_foldl (h : a.names.Nodup) (tags : List Tag) :
    (tags.foldl step a).names.Nodup := by
  induction tags generalizing a with
  | nil => exact h
  | cons tag tags ih => exact ih (nodup_names_step h tag)

/-- A pass that has met plain names only. -/
structure Plain (a : Asking) : Prop where
  opened : ∀ name ∈ a.opened, IsPlainName name
  names : ∀ name ∈ a.names, IsPlainName name

namespace Plain

theorem start : Asking.start.Plain := ⟨List.forall_mem_nil _, List.forall_mem_nil _⟩

theorem ask (h : a.Plain) {name : String} (plain : IsPlainName name) : (a.ask name).Plain := by
  unfold Asking.ask
  split
  · exact h
  · exact ⟨h.opened, List.forall_mem_append.2 ⟨h.names, List.forall_mem_singleton.2 plain⟩⟩

theorem step (h : a.Plain) (plain : IsPlainName tag.name) : (a.step tag).Plain := by
  rcases tag.sigil_cases with variable' | closes | opens
  · rw [step_of_variable variable']
    split
    · exact h
    · refine h.ask (IsPlainName.intercalate (List.concat_ne_nil _ _) ?_)
      refine List.forall_mem_append.2 ⟨?_, List.forall_mem_singleton.2 plain⟩
      exact fun name member => h.opened name (List.mem_reverse.1 member)
  · rw [step_of_closing closes]
    exact ⟨fun name member => h.opened name (List.mem_of_mem_tail member), h.names⟩
  · rw [step_of_opens opens]
    exact ⟨List.forall_mem_cons.2 ⟨plain, h.opened⟩, h.names⟩

theorem foldl (h : a.Plain) {tags : List Tag} (plain : ∀ tag ∈ tags, IsPlainName tag.name) :
    (tags.foldl Asking.step a).Plain := by
  induction tags generalizing a with
  | nil => exact h
  | cons tag tags ih =>
    obtain ⟨here, later⟩ := List.forall_mem_cons.1 plain
    exact ih (h.step here) later

end Plain

end Asking

/-! ## Two names in a source -/

/-- A name with a segment stands in a tag without a sigil and without third braces. -/
theorem exists_form {name : String} (steps : segments name ≠ [])
    (characters : ∀ c ∈ name.toList, isNameChar c = true) :
    ∃ form : TagForm, form.third = false ∧ form.sigil = none ∧ String.ofList form.name = name := by
  have nonempty : name.toList ≠ [] := by
    intro empty
    rw [String.toList_eq_nil_iff.1 empty] at steps
    exact steps rfl
  exact ⟨⟨false, none, name.toList, false, nonempty, characters⟩, rfl, rfl, String.ofList_toList⟩

/-- Two names in a row, each as a variable. -/
theorem exists_scan_pair {name other : String} (steps : segments name ≠ [])
    (characters : ∀ c ∈ name.toList, isNameChar c = true) (steps' : segments other ≠ [])
    (characters' : ∀ c ∈ other.toList, isNameChar c = true) :
    ∃ source, (scan source).map RawTag.parts = [⟨false, none, name⟩, ⟨false, none, other⟩] := by
  obtain ⟨form, third, sigil, rfl⟩ := exists_form steps characters
  obtain ⟨form', third', sigil', rfl⟩ := exists_form steps' characters'
  have first : leadingTag? (form.word ++ (form'.word ++ [])) = some (form.word, form'.word ++ []) :=
    leadingTag?_word (.inr (by simp [TagForm.word]))
  have second : leadingTag? (form'.word ++ []) = some (form'.word, []) :=
    leadingTag?_word (.inr (by simp))
  refine ⟨String.ofList (form.word ++ (form'.word ++ [])), ?_⟩
  rw [← Segment.rawTags_cut, String.toList_ofList, Segment.cut_of_some first,
    Segment.cut_of_some second, Segment.cut_nil, Segment.rawTags_tag, Segment.rawTags_tag,
    List.map_cons, List.map_cons, form.parts_word, form'.parts_word, third, third', sigil, sigil']
  rfl

namespace Template

/-! ## Requests -/

/-- No two requests of a template are for the same path. -/
def AsksOnce (t : Template) (subject : String) : Prop :=
  (t.learnRequests subject).Pairwise fun a b => Path.parse a.name ≠ Path.parse b.name

variable {source subject : String}

theorem nodup_learnRequests (source subject : String) :
    ((parse source).learnRequests subject).Nodup := by
  rw [learnRequests_parse]
  refine (Asking.nodup_names_foldl List.nodup_nil _).map ?_
  intro name other same
  exact congrArg LearnRequest.name same

theorem asksOnce_iff_respelled (source subject : String) :
    (parse source).AsksOnce subject ↔
      ∀ a ∈ (parse source).learnRequests subject, ∀ b ∈ (parse source).learnRequests subject,
        List.Forall₂ SameSegment (segments a.name) (segments b.name) → a = b := by
  simp only [← Path.parse_eq_iff]
  constructor
  · intro once a isRequest b isRequest' same
    have symmetric : Std.Symm fun a b : LearnRequest => Path.parse a.name ≠ Path.parse b.name :=
      ⟨fun _ _ apart => apart.symm⟩
    by_contra differ
    exact once.forall isRequest isRequest' differ same
  · intro single
    refine (nodup_learnRequests source subject).pairwise_of_forall_ne ?_
    exact fun a isRequest b isRequest' differ same => differ (single a isRequest b isRequest' same)

/-- With plain names only, a template asks for each path once. -/
theorem asksOnce_of_plain (plain : ∀ t ∈ scan source, IsPlainName t.parts.name) (subject : String) :
    (parse source).AsksOnce subject := by
  have kept : (((scan source).map RawTag.tag).foldl Asking.step .start).Plain := by
    refine Asking.Plain.start.foldl ?_
    intro tag isTag
    obtain ⟨t, scanned, rfl⟩ := List.mem_map.1 isTag
    exact plain t scanned
  rw [asksOnce_iff_respelled, learnRequests_parse]
  intro a isRequest b isRequest' same
  obtain ⟨name, asked, rfl⟩ := List.mem_map.1 isRequest
  obtain ⟨other, asked', rfl⟩ := List.mem_map.1 isRequest'
  have path := (Path.parse_eq_iff name other).2 same
  rw [(kept.names name asked).eq_of_parse_eq (kept.names other asked') path]

/-- Two names of one path in a row are asked for both. -/
theorem not_asksOnce_of_pair {name other : String} (differ : name ≠ other)
    (steps : segments name ≠ []) (same : Path.parse name = Path.parse other)
    (pair : (scan source).map RawTag.parts = [⟨false, none, name⟩, ⟨false, none, other⟩]) :
    ¬ (parse source).AsksOnce subject := by
  have steps' : segments other ≠ [] := by
    intro none
    rw [Path.parse, Path.parse, none, List.map_nil, List.map_eq_nil_iff] at same
    exact steps same
  obtain ⟨t, rest, scanned, first, more⟩ := List.map_eq_cons_iff.1 pair
  obtain ⟨u, nothing, rfl, second, last⟩ := List.map_eq_cons_iff.1 more
  rw [List.map_eq_nil_iff] at last
  subst last
  have plain : t.tag.sigil = none := congrArg TagParts.sigil first
  have plain' : u.tag.sigil = none := congrArg TagParts.sigil second
  have isName : t.tag.name = name := congrArg TagParts.name first
  have isName' : u.tag.name = other := congrArg TagParts.name second
  have asked : (parse source).learnRequests subject = [⟨name, subject⟩, ⟨other, subject⟩] := by
    rw [learnRequests_parse, scanned]
    simp [Asking.step_of_variable plain, Asking.step_of_variable plain', isName, isName', steps,
      steps', Asking.start, Asking.ask, differ.symm]
  rw [AsksOnce, asked]
  intro once
  exact List.rel_of_pairwise_cons once List.mem_cons_self same

/-- Which templates ask for each path once: those in which different requests differ by more
than dots and by more than zeros in front of numbers. A name with a segment is safe beside
plain names, in every template, exactly if it is plain itself. -/
theorem asksOnce_iff (source subject : String) :
    ((parse source).AsksOnce subject ↔
      ∀ a ∈ (parse source).learnRequests subject, ∀ b ∈ (parse source).learnRequests subject,
        List.Forall₂ SameSegment (segments a.name) (segments b.name) → a = b) ∧
    ∀ name : String, (∀ c ∈ name.toList, isNameChar c = true) → segments name ≠ [] →
      (IsPlainName name ↔ ∀ other : String,
        (∀ t ∈ scan other, t.parts.name = name ∨ IsPlainName t.parts.name) →
          (parse other).AsksOnce subject) := by
  refine ⟨asksOnce_iff_respelled source subject, ?_⟩
  intro name characters steps
  constructor
  · intro plain other names
    refine asksOnce_of_plain (fun t scanned => ?_) subject
    rcases names t scanned with same | isPlain
    · exact same ▸ plain
    · exact isPlain
  · intro always
    by_contra ornate
    -- The plain name of the same path is asked for beside the name.
    have plain := isPlainName_text_parse steps
    have differ : name ≠ (Path.parse name).text := fun same => ornate (same ▸ plain)
    have steps' : segments (Path.parse name).text ≠ [] := by
      rw [Path.segments_text_parse, Path.parse, List.map_map]
      exact fun none => steps (List.map_eq_nil_iff.1 none)
    obtain ⟨source, pair⟩ := exists_scan_pair steps characters steps'
      (Path.isNameChar_of_mem_text_parse characters)
    refine not_asksOnce_of_pair differ steps (Path.parse_text_parse name).symm pair
      (always _ ?_)
    intro t scanned
    have isPart := List.mem_map_of_mem (f := RawTag.parts) scanned
    rw [pair] at isPart
    rcases List.mem_cons.1 isPart with first | later
    · exact .inl (congrArg TagParts.name first)
    · rw [List.mem_singleton] at later
      right
      rw [congrArg TagParts.name later]
      exact plain

/-- A number in a section of its own, and one path that is asked for twice by the same name. -/
theorem asksOnce_iff_pins :
    let source := "\x7b\x7b#hosts\x7d\x7d\x7b\x7bname\x7d\x7d\x7b\x7b^pins\x7d\x7d\x7b\x7b10\x7d\x7d\x7b\x7b/pins\x7d\x7d\x7b\x7b/hosts\x7d\x7d\x7b\x7bhosts.name\x7d\x7d"
    (∀ c ∈ "hosts.name".toList, isNameChar c = true) ∧ segments "hosts.name" ≠ [] ∧
      IsPlainName "hosts.name" ∧
      (∀ t ∈ scan source, t.parts.name = "hosts.name" ∨ IsPlainName t.parts.name) ∧
      (parse source).learnRequests "lab" = [⟨"hosts.name", "lab"⟩, ⟨"hosts.pins.10", "lab"⟩] ∧
      (parse source).AsksOnce "lab" := by
  intro source
  have characters : ∀ c ∈ "hosts.name".toList, isNameChar c = true :=
    List.all_eq_true.1 (by decide : "hosts.name".toList.all isNameChar = true)
  have steps : segments "hosts.name" ≠ [] := by decide
  have plain : IsPlainName "hosts.name" := by decide
  have names : ∀ t ∈ scan source, t.parts.name = "hosts.name" ∨ IsPlainName t.parts.name := by
    decide +kernel
  exact ⟨characters, steps, plain, names, by decide +kernel,
    ((asksOnce_iff source "lab").2 "hosts.name" characters steps).1 plain source names⟩

/-- A dot in front of a name in a section is enough for a second request. The source is
`{{hosts.name}}{{#hosts}}{{.name}}{{/hosts}}`. -/
theorem not_asksOnce_dotted : ¬ ∀ source subject, (parse source).AsksOnce subject := by
  intro always
  have once := always "\x7b\x7bhosts.name\x7d\x7d\x7b\x7b#hosts\x7d\x7d\x7b\x7b.name\x7d\x7d\x7b\x7b/hosts\x7d\x7d" "hosts/_all"
  have asked : (parse "\x7b\x7bhosts.name\x7d\x7d\x7b\x7b#hosts\x7d\x7d\x7b\x7b.name\x7d\x7d\x7b\x7b/hosts\x7d\x7d").learnRequests
      "hosts/_all" = [⟨"hosts.name", "hosts/_all"⟩, ⟨"hosts..name", "hosts/_all"⟩] := by
    decide +kernel
  have same : Path.parse "hosts.name" = Path.parse "hosts..name" := by decide +kernel
  rw [AsksOnce, asked] at once
  exact List.rel_of_pairwise_cons once List.mem_cons_self same

end Template

end Stencil
