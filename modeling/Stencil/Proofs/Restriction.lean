import Mathlib.Data.List.Basic
import Stencil.Proofs.Dotted
import Stencil.Proofs.Reordering

/-!
Data that a template does not name.

The names of a template ask for certain keys, `Template.keys`. A store restricted to these
keys is as good as the whole store: `Template.render_restrict`. So two stores with the same
restriction give the same page, whatever else is in them.

The difficulty is in the scopes. A scope is a path that earlier lookups have found, so its
keys are named; but it also holds the numbers of passes, which nobody has written. They are
harmless because each was added at a list, where a number is no key. `Value.Within` says
this of a path, and every scope of a render is within the keys of its template.
-/

namespace Stencil

/-! ## Restricted values -/

namespace Value

mutual

/-- A value without the entries, at any depth, whose key is not among the given ones. -/
def restrict (keys : List String) : Value → Value
  | scalar text => scalar text
  | list items => list (restrictItems keys items)
  | mapping entries => mapping (restrictEntries keys entries)
termination_by structural v => v

def restrictItems (keys : List String) : List Value → List Value
  | [] => []
  | item :: items => item.restrict keys :: restrictItems keys items
termination_by structural items => items

def restrictEntries (keys : List String) : List (String × Value) → List (String × Value)
  | [] => []
  | (key, value) :: entries =>
    if key ∈ keys then (key, value.restrict keys) :: restrictEntries keys entries
    else restrictEntries keys entries
termination_by structural entries => entries

end

variable {keys : List String}

theorem restrictItems_eq_map (items : List Value) :
    restrictItems keys items = items.map (restrict keys) := by
  induction items with
  | nil => rfl
  | cons item items ih => rw [restrictItems, ih, List.map_cons]

theorem get?_restrictEntries {key : String} (named : key ∈ keys)
    (entries : List (String × Value)) :
    Fields.get? key (restrictEntries keys entries) =
      (Fields.get? key entries).map (restrict keys) := by
  induction entries with
  | nil => rfl
  | cons entry entries ih =>
    obtain ⟨k, v⟩ := entry
    rw [restrictEntries]
    by_cases same : k = key
    · rw [if_pos (same ▸ named), Fields.get?, Fields.get?, if_pos same, if_pos same]
      rfl
    · rw [Fields.get?, if_neg same, ← ih]
      split
      · rw [Fields.get?, if_neg same]
      · rfl

theorem face_restrict (v : Value) : (v.restrict keys).face = v.face := by
  cases v with
  | list items =>
    rw [restrict, restrictItems_eq_map]
    exact congrArg Face.list (List.length_map _)
  | _ => rfl

theorem getKey?_restrict {key : String} (named : key ∈ keys) (v : Value) :
    (v.restrict keys).getKey? key = (v.getKey? key).map (restrict keys) := by
  fun_induction getKey? key v with
  | case1 text => rfl
  | case2 => rfl
  | case3 first items ih =>
    rw [restrict, restrictItems, getKey?]
    exact ih
  | case4 entries => exact get?_restrictEntries named entries

/-! ## Paths within the keys -/

/-- Whether a step reads a key that is kept, or the item of a list. -/
def StepWithin (keys : List String) (v : Value) (step : Step) : Prop :=
  step.text ∈ keys ∨ step.isIndex = true ∧ v.isList = true

theorem child?_restrict {v : Value} {step : Step} (h : v.StepWithin keys step) :
    (v.restrict keys).child? step = (v.child? step).map (restrict keys) := by
  cases step with
  | key name =>
    rcases h with named | ⟨⟨⟩, -⟩
    exact getKey?_restrict named v
  | index i =>
    cases v with
    | scalar text => rfl
    | list items =>
      rw [restrict, restrictItems_eq_map]
      exact List.getElem?_map
    | mapping entries =>
      rcases h with named | ⟨-, ⟨⟩⟩
      exact get?_restrictEntries named entries

/-- Whether a path reads nothing below a value but keys that are kept and items of lists. -/
def Within (keys : List String) (v : Value) : Path → Prop
  | [] => True
  | step :: path =>
    v.StepWithin keys step ∧ ∀ below, v.child? step = some below → below.Within keys path

/-- What a path within the keys reads is kept. -/
theorem get?_restrict {v : Value} {path : Path} (h : v.Within keys path) :
    (v.restrict keys).get? path = (v.get? path).map (restrict keys) := by
  induction path generalizing v with
  | nil => rfl
  | cons step path ih =>
    obtain ⟨here, later⟩ := h
    rw [get?, get?, child?_restrict here]
    cases found : v.child? step with
    | none => rfl
    | some below => exact ih (later below found)

namespace Within

theorem of_named {path : Path} (named : ∀ step ∈ path, step.text ∈ keys) (v : Value) :
    v.Within keys path := by
  induction path generalizing v with
  | nil => trivial
  | cons step path ih =>
    obtain ⟨here, later⟩ := List.forall_mem_cons.1 named
    exact ⟨.inl here, fun below _ => ih later below⟩

theorem take {v : Value} {path : Path} (h : v.Within keys path) (length : Nat) :
    v.Within keys (path.take length) := by
  induction path generalizing v length with
  | nil =>
    rw [List.take_nil]
    trivial
  | cons step path ih =>
    cases length with
    | zero => trivial
    | succ length => exact ⟨h.1, fun below found => ih (h.2 below found) length⟩

theorem append {v : Value} {path rest : Path} (h : v.Within keys path)
    (k : ∀ below, v.get? path = some below → below.Within keys rest) :
    v.Within keys (path ++ rest) := by
  induction path generalizing v with
  | nil => exact k v rfl
  | cons step path ih =>
    refine ⟨h.1, ?_⟩
    intro below found
    apply ih (h.2 below found)
    intro last reached
    apply k
    rw [get?, found]
    exact reached

theorem append_named {v : Value} {path rest : Path} (h : v.Within keys path)
    (named : ∀ step ∈ rest, step.text ∈ keys) : v.Within keys (path ++ rest) :=
  h.append fun below _ => of_named named below

/-- The number of a pass is added where there is a list. -/
theorem withIndex {v value : Value} {path : Path} (h : v.Within keys path)
    (found : v.get? path = some value) (isList : value.isList = true) (i : Nat) :
    v.Within keys (path.withIndex i) := by
  apply h.append
  intro below reached
  cases found.symm.trans reached
  exact ⟨.inr ⟨rfl, isList⟩, fun _ _ => trivial⟩

end Within

end Value

/-! ## Names -/

/-- The keys that a name can ask for: its segments, those that are indices in their
canonical form, and what is left of a segment without the end `_path`. -/
def keysOfName (name : String) : List String :=
  (segments name).map (fun segment => (Step.ofSegment segment).text) ++
    (segments name).filterMap fun segment =>
      (Text.dropSuffix? Store.pathSuffix segment.toList).map String.ofList

/-- The keys that the names of a template can ask for. -/
def Template.keys (t : Template) : List String := t.outline.tags.flatMap fun tag => keysOfName tag.name

theorem text_mem_keysOfName {name : String} {step : Step} (h : step ∈ Path.parse name) :
    step.text ∈ keysOfName name := by
  obtain ⟨segment, member, rfl⟩ := List.mem_map.1 h
  exact List.mem_append_left _ (List.mem_map.2 ⟨segment, member, rfl⟩)

/-- The path that a name with the end `_path` asks for has its keys too. -/
theorem text_mem_keysOfName_of_asks {name : String} {rest : Path}
    (asks : Store.AsksForPath (Path.parse name) rest) {step : Step} (h : step ∈ rest) :
    step.text ∈ keysOfName name := by
  obtain ⟨front, last, stem, steps, ends, rfl⟩ := asks
  rcases List.mem_append.1 h with early | late
  · apply text_mem_keysOfName
    rw [steps]
    exact List.mem_append_left _ early
  · have segment : last ∈ segments name := by
      apply Path.mem_segments_of_mem_parse
      rw [steps]
      exact List.mem_append_right _ (List.mem_singleton_self _)
    split at late
    · cases late
    · cases List.mem_singleton.1 late
      apply List.mem_append_right
      refine List.mem_filterMap.2 ⟨last, segment, ?_⟩
      rw [Text.dropSuffix?, ends]
      simp [Step.text]

/-! ## Rendering -/

/-- A store without the entries, at any depth, whose key is not among the given ones. -/
def Store.restrict (keys : List String) (s : Store) : Store := ⟨s.root.restrict keys⟩

namespace Template

variable (t : Template) {s other : Store} (options : Options)

/-- The names of a template lead nowhere but to paths within its keys. -/
theorem territory_within : Territory (t.outline.tags.map (·.name)) s (s.root.Within t.keys) := by
  have named {name : String} (member : name ∈ t.outline.tags.map (·.name)) :
      keysOfName name ⊆ t.keys := by
    obtain ⟨tag, isTag, rfl⟩ := List.mem_map.1 member
    exact fun key isKey => List.mem_flatMap.2 ⟨tag, isTag, isKey⟩
  refine ⟨trivial, fun within => within.take, ?name, ?asked, fun within => within.withIndex⟩
  case name =>
    intro path within name member
    exact within.append_named fun step isStep => named member (text_mem_keysOfName isStep)
  case asked =>
    intro path rest within name member asks
    exact within.append_named fun step isStep =>
      named member (text_mem_keysOfName_of_asks asks isStep)

/-- A template gives the same page from a store with nothing but the keys it names. -/
theorem render_restrict (s : Store) : t.render (s.restrict t.keys) options = t.render s options := by
  symm
  apply t.render_eq_of_face_eq t.territory_within
  intro path within
  rw [Store.get?, Store.get?, Store.restrict, Value.get?_restrict within, Option.map_map]
  congr 1
  exact funext fun v => (v.face_restrict).symm

/-- Data that a template does not name cannot change its page: stores that become equal when
all entries with other keys are left out give the same page. The order of keys is not
compared. -/
theorem render_eq_of_restrict_reordered
    (same : (s.root.restrict t.keys).Reordered (other.root.restrict t.keys)) :
    t.render s options = t.render other options :=
  calc
    t.render s options = t.render (s.restrict t.keys) options := (t.render_restrict options s).symm
    _ = t.render (other.restrict t.keys) options := t.render_eq_of_reordered same options
    _ = t.render other options := t.render_restrict options other

/-- Two stores with nothing in common but what `{{#hosts}}{{ip_path}}={{name}}.{{/hosts}}{{end}}`
names, and that in another order. -/
theorem render_eq_of_restrict_reordered_hosts :
    let t := Template.parse
      "\x7b\x7b#hosts\x7d\x7d\x7b\x7bip_path\x7d\x7d=\x7b\x7bname\x7d\x7d.\x7b\x7b/hosts\x7d\x7d\x7b\x7bend\x7d\x7d"
    let s : Store := ⟨.mapping [("hosts", .list
      [.mapping [("secret", .scalar "1"), ("name", .scalar "a")], .mapping [("mac", .scalar "2")]]),
      ("end", .scalar "!")]⟩
    let other : Store := ⟨.mapping [("end", .scalar "!"), ("user", .mapping [("name", .scalar "b")]),
      ("hosts", .list [.mapping [("name", .scalar "a")], .mapping []])]⟩
    (s.root.restrict t.keys).Reordered (other.root.restrict t.keys) ∧
      t.render s {} = t.render other {} ∧
      (t.render other {}).text = "hosts.0.ip=a.hosts.1.ip=(XXXX).!" := by
  intro t s other
  have keys : t.keys = ["hosts", "ip_path", "ip", "name", "hosts", "end"] := by decide +kernel
  have same : (s.root.restrict t.keys).Reordered (other.root.restrict t.keys) := by
    rw [keys]
    exact .of_perm (.swap _ _ []) (by decide)
  exact ⟨same, t.render_eq_of_restrict_reordered {} same, by decide +kernel⟩

end Template

end Stencil
