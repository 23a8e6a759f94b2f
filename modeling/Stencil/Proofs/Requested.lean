import Stencil.Proofs.Asking
import Stencil.Proofs.Current

/-!
What a page reads and what it asks for.

The name of a request is put together from the outline, section by section. What a variable
shows is read where a lookup ends, and on the way there scopes were entered that lookups ended
in too, some of them below a shorter prefix. `Rendering.Entered.keys_sublist` relates the two:
each pass adds at most the keys of the name of its section, and a lookup only drops keys. So
the keys of what is read come in the name that was asked for, in this order. Where every lookup
ends below its whole scope nothing is dropped, and the keys are the same.
-/

namespace Stencil

namespace Path

theorem keys_append (p q : Path) : (p ++ q).keys = p.keys ++ q.keys :=
  List.filterMap_append

/-- The items of a list are below the keys of the list. -/
@[simp] theorem keys_withIndex (p : Path) (position : Nat) : (p.withIndex position).keys = p.keys := by
  rw [withIndex, keys_append]
  exact List.append_nil _

/-- Names that are joined with dots have their steps one after the other. -/
theorem parse_intercalate_dot (names : List String) :
    Path.parse (String.intercalate "." names) = names.flatMap Path.parse := by
  induction names with
  | nil => rfl
  | cons name names ih =>
    rcases Decidable.em (names = []) with rfl | more
    · rw [String.intercalate_singleton, List.flatMap_singleton]
    · rw [String.intercalate_cons_of_ne_nil more, parse_append_dot, ih, List.flatMap_cons]

end Path

/-! ## The keys of a lookup -/

namespace Store

variable {s : Store} {scope path : Path} {name : String} {value : Value}

/-- Whether a name is found below the whole of a scope. -/
def FindsWhole (s : Store) (scope : Path) (name : String) : Prop :=
  ∃ value, s.resolve scope name = .ok (.found (scope ++ .parse name) value)

/-- A lookup adds the keys of the name to some of the keys of the scope. -/
theorem keys_sublist_of_found (found : s.resolve scope name = .ok (.found path value)) :
    path.keys.Sublist (scope.keys ++ (Path.parse name).keys) := by
  obtain ⟨p, v, -, -, -, same⟩ :=
    (firstHit?_eq_some_iff s scope _ _).1 (resolve_eq_found_iff.1 found)
  cases same
  rw [Path.keys_append]
  exact ((List.take_sublist p scope).filterMap Step.key?).append_right _

theorem FindsWhole.ne_pathText (whole : s.FindsWhole scope name) (text : Path) :
    s.resolve scope name ≠ .ok (.pathText text) := by
  obtain ⟨v, found⟩ := whole
  rw [found]
  exact nofun

theorem FindsWhole.keys_eq (whole : s.FindsWhole scope name)
    (found : s.resolve scope name = .ok (.found path value)) :
    path.keys = scope.keys ++ (Path.parse name).keys := by
  obtain ⟨v, found'⟩ := whole
  cases found.symm.trans found'
  exact Path.keys_append scope _

end Store

/-! ## The keys of a scope -/

/-- The names of the sections that are passed over, the outermost first. -/
def sectionNames (passes : List Pass) : List String := (passes.map (·.tag.name)).reverse

theorem sectionNames_cons (pass : Pass) (passes : List Pass) :
    sectionNames (pass :: passes) = sectionNames passes ++ [pass.tag.name] := by
  rw [sectionNames, List.map_cons, List.reverse_cons]
  rfl

/-- The keys that the sections around a body are named with. -/
def sectionKeys (passes : List Pass) : List String :=
  Path.keys ((sectionNames passes).flatMap Path.parse)

theorem sectionKeys_cons (pass : Pass) (passes : List Pass) :
    sectionKeys (pass :: passes) = sectionKeys passes ++ (Path.parse pass.tag.name).keys := by
  rw [sectionKeys, sectionNames_cons, List.flatMap_append, List.flatMap_singleton, Path.keys_append]
  rfl

namespace Rendering

variable {r : Rendering}

/-- One pass adds at most the keys of the name of its section. -/
theorem Enters.keys_sublist {s : Store} {tag : Tag} {outer inner : Path} {number : Nat}
    (enters : Enters s tag outer number inner)
    (noText : ∀ path, s.resolve outer tag.name ≠ .ok (.pathText path)) :
    inner.keys.Sublist (outer.keys ++ (Path.parse tag.name).keys) := by
  cases enters with
  | item found =>
    rw [Path.keys_withIndex]
    exact Store.keys_sublist_of_found found
  | value found => exact Store.keys_sublist_of_found found
  | pathText asked => exact absurd asked (noText _)
  | missing => exact List.sublist_append_left _ _

/-- A pass over a section that is found in its whole scope adds all keys of the name. -/
theorem Enters.keys_eq {s : Store} {tag : Tag} {outer inner : Path} {number : Nat}
    (enters : Enters s tag outer number inner) (whole : s.FindsWhole outer tag.name) :
    inner.keys = outer.keys ++ (Path.parse tag.name).keys := by
  cases enters with
  | item found =>
    rw [Path.keys_withIndex]
    exact whole.keys_eq found
  | value found => exact whole.keys_eq found
  | pathText asked => exact absurd asked (whole.ne_pathText _)
  | missing missed =>
    obtain ⟨v, found⟩ := whole
    cases missed.symm.trans found

/-- The keys of a scope come in the names of the sections around it, in this order. -/
theorem Entered.keys_sublist {scope : Path} {passes : List Pass} (h : r.Entered scope passes)
    (noText : ∀ pass ∈ passes, ∀ path, pass.resolution r.store ≠ .ok (.pathText path)) :
    scope.keys.Sublist (sectionKeys passes) := by
  induction h with
  | root => exact List.Sublist.refl _
  | pass around isPass ih =>
    obtain ⟨here, outside⟩ := List.forall_mem_cons.1 noText
    rw [sectionKeys_cons]
    exact ((enters_of_mem_sectionScopes isPass).keys_sublist here).trans
      ((ih outside).append_right _)

/-- Where no section is found below a shorter prefix or not at all, they are the same keys. -/
theorem Entered.keys_eq {scope : Path} {passes : List Pass} (h : r.Entered scope passes)
    (whole : ∀ pass ∈ passes, r.store.FindsWhole pass.outer pass.tag.name) :
    scope.keys = sectionKeys passes := by
  induction h with
  | root => rfl
  | pass around isPass ih =>
    obtain ⟨here, outside⟩ := List.forall_mem_cons.1 whole
    rw [sectionKeys_cons, (enters_of_mem_sectionScopes isPass).keys_eq here, ih outside]

/-! ## The nodes of variables -/

/-- The nodes of a body are in the table of the template, below the names of the sections that
are passed over. -/
def InTable (table : List Outline.Node) (outline : Outline) (passes : List Pass) : Prop :=
  ∃ parent first, outline.nodesFrom parent (sectionNames passes) first ⊆ table

theorem kept_inTable (r : Rendering) (table : List Outline.Node) :
    r.Kept fun outline _ => InTable table outline where
  pass := by
    intro tag body rest outer inner number passes ⟨parent, first, held⟩ _
    refine ⟨first, first + 1, fun node there => held ?_⟩
    rw [sectionNames_cons] at there
    exact .tail _ (List.mem_append_left _ there)
  rest := by
    intro tag body rest scope passes ⟨parent, first, held⟩
    exact ⟨parent, first + 1 + body.size, fun node there =>
      held (.tail _ (List.mem_append_right _ there))⟩

/-- A text is put in for a variable that has its node, below the names of the sections that are
passed over. -/
theorem exists_node_of_insert {tag : Tag} {scope : Path} {passes : List Pass}
    (inserted : .insert tag scope passes ∈ r.events) :
    tag.isVariable = true ∧ ∃ node ∈ r.template.outline.nodes,
      node.tag = some tag ∧ node.ancestors = sectionNames passes := by
  have whole : InTable r.template.outline.nodes r.template.outline [] :=
    ⟨0, 1, List.subset_cons_self _ _⟩
  obtain ⟨plain, body, rest, parent, first, held⟩ :=
    (kept_inTable r r.template.outline.nodes).events whole _ inserted
  exact ⟨plain, _, held List.mem_cons_self, rfl, rfl⟩

end Rendering

/-! ## What is read and what is asked for -/

/-- If all tags differ, each has one node. -/
theorem Outline.Grown.eq_of_tag_eq {tags : List Tag} {table : List Node} (h : Grown tags table)
    (apart : tags.Nodup) {node other : Node} (here : node ∈ table) (there : other ∈ table) {tag : Tag}
    (holds : node.tag = some tag) (holds' : other.tag = some tag) : node = other := by
  rcases h.origin node here with root | ⟨front, same, back, split, pushed⟩
  · cases root.bare.symm.trans holds
  · rcases h.origin other there with root | ⟨front', same', back', split', pushed'⟩
    · cases root.bare.symm.trans holds'
    · cases pushed.holds.symm.trans holds
      cases pushed'.holds.symm.trans holds'
      have place : tags[front.length]? = some tag := by rw [split, List.getElem?_append_right] <;> simp
      have place' : tags[front'.length]? = some tag := by
        rw [split', List.getElem?_append_right] <;> simp
      have inside := (List.getElem?_eq_some_iff.1 place).1
      have sameLength := (List.getElem?_inj inside apart).1 (place.trans place'.symm)
      exact h.eq_of_id_eq here there (by rw [pushed.number, pushed'.number, sameLength])

theorem nodup_tag_scan (source : String) : ((scan source).map RawTag.tag).Nodup := by
  have places := nodup_position_scan source
  refine List.Nodup.of_map Tag.position ?_
  rw [List.map_map]
  exact places

/-- A variable asks for its name below those of the sections above it, unless it has no step. -/
theorem Outline.Node.requestedName?_of_variable {node : Node} {tag : Tag} (holds : node.tag = some tag)
    (plain : tag.isVariable = true) :
    node.requestedName? = if segments tag.name = [] then none
      else some (String.intercalate "." (node.ancestors ++ [tag.name])) := by
  rw [requestedName?, holds]
  by_cases empty : segments tag.name = []
  · simp [empty]
  · simp [empty, plain]

theorem Template.mem_learnRequests {t : Template} {node : Outline.Node} {name : String}
    (here : node ∈ t.outline.nodes) (asks : node.requestedName? = some name) (subject : String) :
    ⟨name, subject⟩ ∈ t.learnRequests subject :=
  List.mem_map_of_mem (List.mem_eraseDups.2 (List.mem_filterMap.2 ⟨node, here, asks⟩))

/-- What a page reads is what it asked for. Each variable that is shown has one node, below the
names of the sections around it, and the node asks for a name unless the variable is all dots.
The keys of what the variable reads come in this name, in this order, if no section around it
stands for the text of a path. They are the same keys if the variable and the sections are found
in their whole scopes. -/
theorem Rendering.keys_sublist_requested (source : String) (store : Store) (options : Options)
    (subject : String) :
    let t := Template.parse source
    let r : Rendering := ⟨t, store, options⟩
    r.events.flatMap r.output = r.pieces ∧
    ∀ tag scope passes, .insert tag scope passes ∈ r.events →
      (∃! node, node ∈ t.outline.nodes ∧ node.tag = some tag) ∧
      ∀ node ∈ t.outline.nodes, node.tag = some tag →
        node.ancestors = sectionNames passes ∧
        (node.requestedName? = none ↔ segments tag.name = []) ∧
        ∀ name, node.requestedName? = some name →
          ⟨name, subject⟩ ∈ t.learnRequests subject ∧
          ((∀ pass ∈ passes, ∀ path, pass.resolution store ≠ .ok (.pathText path)) →
            ∀ path value, store.resolve scope tag.name = .ok (.found path value) →
              path.keys.Sublist (Path.parse name).keys ∧
              (store.FindsWhole scope tag.name →
                (∀ pass ∈ passes, store.FindsWhole pass.outer pass.tag.name) →
                  path.keys = (Path.parse name).keys)) := by
  intro t r
  refine ⟨flatMap_output_events r, ?_⟩
  intro tag scope passes inserted
  have grown : Outline.Grown ((scan source).map RawTag.tag) t.outline.nodes :=
    Outline.grown_ofTags (scan source)
  obtain ⟨plain, node, here, holds, above⟩ := exists_node_of_insert inserted
  have only (other : Outline.Node) (member : other ∈ t.outline.nodes)
      (holds' : other.tag = some tag) : other = node :=
    grown.eq_of_tag_eq (nodup_tag_scan source) member here holds' holds
  refine ⟨⟨node, ⟨here, holds⟩, fun other found => only other found.1 found.2⟩, ?_⟩
  intro other member holds'
  cases only other member holds'
  have asks := Outline.Node.requestedName?_of_variable holds plain
  refine ⟨above, ?none, fun name named => ⟨Template.mem_learnRequests here named subject, ?_⟩⟩
  case none =>
    rw [asks]
    split <;> simp [*]
  intro noText path value found
  have entered : r.Entered scope passes := entered_events r _ inserted
  have keys : (Path.parse name).keys = sectionKeys passes ++ (Path.parse tag.name).keys := by
    rw [asks] at named
    split at named
    · cases named
    · cases named
      rw [above, Path.parse_intercalate_dot, List.flatMap_append, List.flatMap_singleton,
        Path.keys_append]
      rfl
  rw [keys]
  refine ⟨?_, fun whole around => ?_⟩
  · exact (Store.keys_sublist_of_found found).trans ((entered.keys_sublist noText).append_right _)
  · rw [whole.keys_eq found, entered.keys_eq around]

/-- A number that is found where it stands, and a name that is found outside all sections. The
source is `{{#hosts}}{{#pins}}{{3}}{{name}}`. -/
theorem Rendering.keys_sublist_requested_pins :
    let source := "\x7b\x7b#hosts\x7d\x7d\x7b\x7b#pins\x7d\x7d\x7b\x7b3\x7d\x7d\x7b\x7bname\x7d\x7d"
    let store : Store := ⟨.mapping [("name", .scalar "lab"),
      ("hosts", .list [.mapping [("pins", .mapping [("3", .scalar "up")])]])]⟩
    let r : Rendering := ⟨.parse source, store, {}⟩
    let three : Tag := ⟨"3", ⟨0, 19⟩, 5, false, none⟩
    let name : Tag := ⟨"name", ⟨0, 24⟩, 8, false, none⟩
    let scope : Path := [.key "hosts", .index 0, .key "pins"]
    let passes : List Pass := [⟨⟨"pins", ⟨0, 10⟩, 9, false, some .opening⟩, scope.take 2, 0⟩,
      ⟨⟨"hosts", ⟨0, 0⟩, 10, false, some .opening⟩, [], 0⟩]
    (.insert three scope passes ∈ r.events ∧ .insert name scope passes ∈ r.events ∧
      (∀ pass ∈ passes, store.FindsWhole pass.outer pass.tag.name) ∧
      r.template.learnRequests "" = [⟨"hosts.pins.3", ""⟩, ⟨"hosts.pins.name", ""⟩]) ∧
    (store.resolve scope "3" = .ok (.found (scope ++ [.index 3]) (.scalar "up")) ∧
      Path.keys (scope ++ [.index 3]) = (Path.parse "hosts.pins.3").keys) ∧
    (store.resolve scope "name" = .ok (.found [.key "name"] (.scalar "lab")) ∧
      (Path.keys [.key "name"]).Sublist (Path.parse "hosts.pins.name").keys) := by
  intro source store r three name scope passes
  have inserted : .insert three scope passes ∈ r.events := by decide +kernel
  have inserted' : .insert name scope passes ∈ r.events := by decide +kernel
  have around : ∀ pass ∈ passes, store.FindsWhole pass.outer pass.tag.name := by
    have hosts : store.get? ([] ++ Path.parse "hosts") =
        some (.list [.mapping [("pins", .mapping [("3", .scalar "up")])]]) := by rfl
    have pins : store.get? (scope.take 2 ++ Path.parse "pins") =
        some (.mapping [("3", .scalar "up")]) := by rfl
    exact List.forall_mem_cons.2 ⟨⟨_, Store.resolve_of_get? pins⟩,
      List.forall_mem_singleton.2 ⟨_, Store.resolve_of_get? hosts⟩⟩
  have noText : ∀ pass ∈ passes, ∀ path, pass.resolution store ≠ .ok (.pathText path) :=
    fun pass member => (around pass member).ne_pathText
  have whole : store.FindsWhole scope "3" := by
    have up : store.get? (scope ++ Path.parse "3") = some (.scalar "up") := by rfl
    exact ⟨_, Store.resolve_of_get? up⟩
  have found : store.resolve scope "3" = .ok (.found (scope ++ [.index 3]) (.scalar "up")) :=
    Store.resolve_of_get? rfl
  have found' : store.resolve scope "name" = .ok (.found [.key "name"] (.scalar "lab")) := by
    refine Store.resolve_eq_found_iff.2 ((Store.firstHit?_eq_some_iff ..).2
      ⟨0, .scalar "lab", .inr (.inl rfl), rfl, ?_, rfl⟩)
    intro q cut above
    have inside : q = 1 ∨ q = 2 ∨ q = 3 := by
      have shorter : q ≤ 3 := cut.le_length
      omega
    rcases inside with rfl | rfl | rfl <;> rfl
  obtain ⟨-, reads⟩ := keys_sublist_requested source store {} ""
  have node : ∃ node ∈ r.template.outline.nodes, node.tag = some three ∧
      node.requestedName? = some "hosts.pins.3" := by decide +kernel
  have node' : ∃ node ∈ r.template.outline.nodes, node.tag = some name ∧
      node.requestedName? = some "hosts.pins.name" := by decide +kernel
  obtain ⟨node, here, holds, asks⟩ := node
  obtain ⟨node', here', holds', asks'⟩ := node'
  obtain ⟨-, read⟩ := ((reads _ _ _ inserted).2 node here holds).2.2 _ asks
  obtain ⟨-, read'⟩ := ((reads _ _ _ inserted').2 node' here' holds').2.2 _ asks'
  exact ⟨⟨inserted, inserted', around, by decide +kernel⟩,
    ⟨found, (read noText _ _ found).2 whole around⟩, found', (read' noText _ _ found').1⟩

end Stencil
