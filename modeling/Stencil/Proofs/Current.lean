import Stencil.Proofs.Chronology
import Stencil.Proofs.Dotted
import Stencil.Proofs.Lookup

/-!
The current value of a body.

A section whose name is found binds a value: an item for each pass over a list, and anything
else as it is. `Store.Current` reads off the passes that are going on which value was bound
last. The scope of a body is put together in another way. It is the path at which some lookup
ended, perhaps below a shorter prefix or through the first item of a list, with the number of
the pass behind it. `Rendering.Entered.current` says that nevertheless the value at the scope
is the current one, whichever sections were entered, unless one of them stands for the text of
a path: such a section leads to a place where there need not be anything.

`Rendering.current_spec` draws the conclusions for a whole render, among them what a name of
nothing but dots stands for.
-/

namespace Stencil

/-- What the name of a section stands for where its tag stands. -/
def Pass.resolution (s : Store) (p : Pass) : Except NotFound Resolution :=
  s.resolve p.outer p.tag.name

/-- The value that was bound last on the way to a body, given the passes that are going on, the
innermost first. -/
inductive Store.Current (s : Store) : List Pass → Value → Prop
  /-- Outside all sections it is the root. -/
  | root : Current s [] s.root
  /-- In the pass over a list it is the item with the number of the pass. -/
  | item {pass : Pass} {passes : List Pass} {path : Path} {items : List Value} {v : Value}
    (found : pass.resolution s = .ok (.found path (.list items)))
    (repeats : pass.tag.sigil ≠ some .inverted) (isItem : items[pass.number]? = some v) :
    Current s (pass :: passes) v
  /-- Anything else is bound as it is, and so is a list that has no pass. -/
  | value {pass : Pass} {passes : List Pass} {path : Path} {v : Value}
    (found : pass.resolution s = .ok (.found path v))
    (whole : v.isList = false ∨ pass.tag.sigil = some .inverted) : Current s (pass :: passes) v
  /-- A section whose name is not found binds nothing. -/
  | missing {pass : Pass} {passes : List Pass} {e : NotFound} {v : Value}
    (missed : pass.resolution s = .error e) (around : Current s passes v) :
    Current s (pass :: passes) v

namespace Store

variable {s : Store}

/-- There is one current value at most. -/
theorem Current.unique {passes : List Pass} {v w : Value} (h : s.Current passes v)
    (k : s.Current passes w) : v = w := by
  induction h with
  | root =>
    cases k with
    | root => rfl
  | item found repeats isItem =>
    cases k with
    | item found' _ isItem' =>
      cases found.symm.trans found'
      exact Option.some.inj (isItem.symm.trans isItem')
    | value found' whole =>
      cases found.symm.trans found'
      exact (whole.elim nofun repeats).elim
    | missing missed => cases found.symm.trans missed
  | value found whole =>
    cases k with
    | item found' repeats =>
      cases found.symm.trans found'
      exact (whole.elim nofun repeats).elim
    | value found' =>
      cases found.symm.trans found'
      rfl
    | missing missed => cases found.symm.trans missed
  | missing missed _ ih =>
    cases k with
    | item found => cases found.symm.trans missed
    | value found => cases found.symm.trans missed
    | missing _ around => exact ih around

/-- A name of nothing but dots stands for the value at its scope. -/
theorem resolve_dots {scope : Path} {v : Value} (there : s.get? scope = some v) {name : String}
    (dots : ∀ c ∈ name.toList, c = '.') : s.resolve scope name = .ok (.found scope v) := by
  have noStep := (Path.parse_eq_nil_iff name).2 dots
  rw [← List.append_nil scope, ← noStep] at there
  have found := resolve_of_get? there
  rwa [noStep, List.append_nil] at found

end Store

namespace Rendering

variable {r : Rendering}

/-- The value at the scope of a body is the current one. -/
theorem Entered.current {scope : Path} {passes : List Pass} (h : r.Entered scope passes)
    (noText : ∀ pass ∈ passes, ∀ path, pass.resolution r.store ≠ .ok (.pathText path)) :
    ∃ v, r.store.Current passes v ∧ r.store.get? scope = some v := by
  -- Each pass starts where the lookup in the scope around it ended, so what is found is there.
  -- Only a section that is not found needs the value around it.
  induction h with
  | root => exact ⟨r.store.root, .root, rfl⟩
  | pass around isPass ih =>
    obtain ⟨here, outside⟩ := List.forall_mem_cons.1 noText
    cases enters_of_mem_sectionScopes isPass with
    | @item path items found repeats inside =>
      have isItem := List.getElem?_eq_getElem inside
      refine ⟨_, .item found repeats isItem, ?_⟩
      have there := Store.get?_of_found found
      rw [Store.get?] at there ⊢
      rw [Path.withIndex, Value.get?_append, there, Option.bind_some, Value.get?, Value.child?,
        isItem]
      rfl
    | value found whole => exact ⟨_, .value found whole, Store.get?_of_found found⟩
    | pathText asked => exact absurd asked (here _)
    | missing missed =>
      obtain ⟨v, current, there⟩ := ih outside
      exact ⟨v, .missing missed current, there⟩

/-- One scope belongs to one pass over a section. -/
theorem Entered.number_eq {scope outer : Path} {tag : Tag} {n m : Nat} {passes passes' : List Pass}
    (h : r.Entered scope (⟨tag, outer, n⟩ :: passes))
    (k : r.Entered scope (⟨tag, outer, m⟩ :: passes')) : n = m := by
  cases h with
  | pass _ isPass =>
    cases k with
    | pass _ isPass' =>
      rw [List.mk_mem_zipIdx_iff_getElem?] at isPass isPass'
      have inside := (List.getElem?_eq_some_iff.1 isPass).1
      exact (List.getElem?_inj inside (nodup_sectionScopes r tag outer)).1 (isPass.trans isPass'.symm)

end Rendering

/-- What is shown for a variable that stands for a value. -/
def Value.shown (options : Options) (raw : Bool) : Value → String
  | scalar text => if options.escapeHtml && !raw then Html.escape text else text
  | _ => options.placeholder

namespace Rendering

theorem variableText_of_found {r : Rendering} {tag : Tag} {scope path : Path} {v : Value}
    (found : r.store.resolve scope tag.name = .ok (.found path v)) :
    r.variableText tag scope = v.shown r.options tag.raw := by
  rw [variableText, found]
  cases v <;> rfl

/-- Which value belongs to which body. A body that is entered, at any depth, through sections of
which none stands for the text of a path, has the value that was bound last at its scope, and
this is what a name of nothing but dots stands for in it and shows as a variable. The scopes of
different passes over a section differ. -/
theorem current_spec (r : Rendering) :
    r.events.flatMap r.output = r.pieces ∧
    (∀ chunk, .enter chunk ∈ r.events →
      (∀ pass ∈ chunk.passes, ∀ path, pass.resolution r.store ≠ .ok (.pathText path)) →
      ∃ v, (∀ w, r.store.Current chunk.passes w ↔ w = v) ∧ r.store.get? chunk.scope = some v ∧
        ∀ name : String, (∀ c ∈ name.toList, c = '.') →
          r.store.resolve chunk.scope name = .ok (.found chunk.scope v)) ∧
    (∀ chunk other tag outer n m passes, .enter chunk ∈ r.events → .enter other ∈ r.events →
      chunk.passes = ⟨tag, outer, n⟩ :: passes → other.passes = ⟨tag, outer, m⟩ :: passes →
      n ≠ m → chunk.scope ≠ other.scope) ∧
    ∀ tag scope passes, .insert tag scope passes ∈ r.events →
      (∀ pass ∈ passes, ∀ path, pass.resolution r.store ≠ .ok (.pathText path)) →
      (∀ c ∈ tag.name.toList, c = '.') →
      ∃ v, r.store.Current passes v ∧ r.variableText tag scope = v.shown r.options tag.raw := by
  refine ⟨flatMap_output_events r, ?bodies, ?apart, ?shown⟩
  case bodies =>
    intro chunk member noText
    obtain ⟨v, current, there⟩ := Entered.current (entered_events r _ member) noText
    refine ⟨v, fun w => ?_, there, fun name dots => Store.resolve_dots there dots⟩
    exact ⟨fun other => other.unique current, fun same => same ▸ current⟩
  case apart =>
    intro chunk other tag outer n m passes member member' pass pass' differ same
    have entered : r.Entered _ _ := entered_events r _ member
    have entered' : r.Entered _ _ := entered_events r _ member'
    rw [pass] at entered
    rw [pass', ← same] at entered'
    exact differ (entered.number_eq entered')
  case shown =>
    intro tag scope passes member noText dots
    obtain ⟨v, current, there⟩ := Entered.current (entered_events r _ member) noText
    exact ⟨v, current, variableText_of_found (Store.resolve_dots there dots)⟩

/-- The second pass over the second item of a list of lists. The source is
`{{#rooms}}{{#.}}{{.}}; `. -/
theorem current_spec_rooms :
    let source := "\x7b\x7b#rooms\x7d\x7d\x7b\x7b#.\x7d\x7d\x7b\x7b.\x7d\x7d; "
    let r : Rendering := ⟨.parse source, ⟨.mapping [("rooms",
      .list [.list [.scalar "a"], .list [.scalar "b", .scalar "c"]])]⟩, {}⟩
    let rooms : Tag := ⟨"rooms", ⟨0, 0⟩, 10, false, some .opening⟩
    let beds : Tag := ⟨".", ⟨0, 10⟩, 6, false, some .opening⟩
    let bed : Tag := ⟨".", ⟨0, 16⟩, 5, false, none⟩
    let passes (n : Nat) : List Pass := [⟨beds, [.key "rooms", .index 1], n⟩, ⟨rooms, [], 1⟩]
    let chunk (n : Nat) : Chunk := ⟨.cons bed .nil .nil, ⟨0, 16⟩, ⟨0, 23⟩,
      [.key "rooms", .index 1, .index n], passes n⟩
    .enter (chunk 0) ∈ r.events ∧ .enter (chunk 1) ∈ r.events ∧
      .insert bed (chunk 1).scope (passes 1) ∈ r.events ∧
      (∀ pass ∈ passes 1, ∀ path, pass.resolution r.store ≠ .ok (.pathText path)) ∧
      r.store.Current (passes 1) (.scalar "c") ∧
      r.store.resolve (chunk 1).scope "." = .ok (.found (chunk 1).scope (.scalar "c")) ∧
      (chunk 1).scope ≠ (chunk 0).scope ∧ r.variableText bed (chunk 1).scope = "c" := by
  intro source r rooms beds bed passes chunk
  have first : .enter (chunk 0) ∈ r.events := by decide +kernel
  have second : .enter (chunk 1) ∈ r.events := by decide +kernel
  have inserted : .insert bed (chunk 1).scope (passes 1) ∈ r.events := by decide +kernel
  have dot : ∀ c ∈ ".".toList, c = '.' := by simp
  have noText : ∀ pass ∈ passes 1, ∀ path, pass.resolution r.store ≠ .ok (.pathText path) := by
    intro pass member path asked
    rcases List.mem_cons.1 member with rfl | member
    · have there : r.store.get? [.key "rooms", .index 1] =
          some (.list [.scalar "b", .scalar "c"]) := by rfl
      cases (Store.resolve_dots there dot).symm.trans asked
    · cases List.mem_singleton.1 member
      have there : r.store.get? ([] ++ Path.parse "rooms") =
          some (.list [.list [.scalar "a"], .list [.scalar "b", .scalar "c"]]) := by rfl
      cases (Store.resolve_of_get? there).symm.trans asked
  obtain ⟨-, bodies, apart, shown⟩ := current_spec r
  obtain ⟨v, current, there, dots⟩ := bodies (chunk 1) second noText
  cases (Option.some.inj there : .scalar "c" = v)
  obtain ⟨w, current', text⟩ := shown bed _ _ inserted noText dot
  cases (current w).1 current'
  exact ⟨first, second, inserted, noText, current', dots "." dot,
    apart (chunk 1) (chunk 0) _ _ 1 0 _ second first rfl rfl (by decide), text⟩

end Rendering

end Stencil
