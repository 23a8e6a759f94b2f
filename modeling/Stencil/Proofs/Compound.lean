import Stencil.Proofs.Current

/-!
Names put together with a dot.

A value inside a section can be named in two ways. One goes into the section and uses the name
that the value has there; the other stays outside and puts the two names together. The first is
looked up twice, with the number of the pass in between. The second is looked up once, below the
same prefixes as the name of the section alone, and reads a list by its first item. Both lead to
the same value, since nothing can be found below a prefix where the name of the section is not
found (`Store.resolve_append_dot`), and a key of a list is a key of its first item
(`Path.get?_intoFirst`). `Store.resolve_compound` says this for names, sections and variables.
-/

namespace Stencil

/-- The scope of the first pass over a value: its first item, if it is a list with items. -/
def Path.intoFirst (path : Path) : Value → Path
  | .list (_ :: _) => path.withIndex 0
  | _ => path

variable {s : Store} {scope path : Path} {outer inner : String} {v below : Value}

/-- A key reads in a list what it reads in the first item. -/
theorem Path.get?_intoFirst (there : s.get? path = some v) (key : String) (rest : Path) :
    s.get? (path.intoFirst v ++ .key key :: rest) = s.get? (path ++ .key key :: rest) := by
  cases v with
  | scalar text => rfl
  | mapping entries => rfl
  | list items =>
    cases items with
    | nil => rfl
    | cons first items =>
      rw [Store.get?] at there
      rw [intoFirst, withIndex, List.append_assoc, Store.get?, Store.get?, Value.get?_append,
        Value.get?_append, there]
      rfl

namespace Store

/-- A name that leads on from where another name is found is found behind it. -/
theorem resolve_append_dot (found : s.resolve scope outer = .ok (.found path v))
    (there : s.get? (path ++ .parse inner) = some below) :
    s.resolve scope (outer ++ "." ++ inner) = .ok (.found (path ++ .parse inner) below) := by
  obtain ⟨p, _, cut, _, missed, ⟨⟩⟩ :=
    (firstHit?_eq_some_iff s scope _ _).1 (resolve_eq_found_iff.1 found)
  rw [resolve_eq_found_iff, firstHit?_eq_some_iff, Path.parse_append_dot]
  refine ⟨p, below, cut, ?here, ?above, ?path⟩
  case here => rw [← List.append_assoc, there]
  case path => rw [List.append_assoc]
  case above =>
    intro q isCut above
    have nothing := missed q isCut above
    rw [get?] at nothing ⊢
    rw [← List.append_assoc, Value.get?_append, nothing]
    rfl

/-- The first pass over a value below which a key is found. -/
theorem head?_repeatedScopes_of_key {key : String} {rest : Path} (there : s.get? path = some v)
    (leads : s.get? (path.intoFirst v ++ .key key :: rest) = some below) :
    (Rendering.repeatedScopes (.ok (.found path v))).head? = some (path.intoFirst v) := by
  rw [Path.get?_intoFirst there, get?, Value.get?_append, ← get?, there, Option.bind_some] at leads
  -- A scalar and a list without items have no entries, so that only the passes over a mapping
  -- and over a list with items are left.
  cases v with
  | scalar text => cases leads
  | mapping entries => rfl
  | list items =>
    cases items with
    | nil => cases leads
    | cons first items =>
      rw [Rendering.repeatedScopes, Resolution.passCount, Value.passCount, List.length_cons,
        List.range_succ_eq_map]
      rfl

/-- A name put together with a dot means what its end means in the first pass over its front. If
`outer` is found, and below the first pass over its value, the first item of a list with items,
there is what `inner` writes, beginning with a key, then `outer.inner` is found outside, behind
the path of `outer`, with the value that `inner` has in that pass. The body of each section named
`outer` is shown, first in that pass, and a variable shows the same in both ways. -/
theorem resolve_compound {key : String} {rest : Path}
    (found : s.resolve scope outer = .ok (.found path v)) (keyed : Path.parse inner = .key key :: rest)
    (leads : s.get? (path.intoFirst v ++ .parse inner) = some below) :
    s.resolve scope (outer ++ "." ++ inner) = .ok (.found (path ++ .parse inner) below) ∧
    s.resolve (path.intoFirst v) inner = .ok (.found (path.intoFirst v ++ .parse inner) below) ∧
    ∀ (t : Template) (options : Options),
      let r : Rendering := ⟨t, s, options⟩
      (∀ opening : Tag, opening.sigil = some .opening → opening.name = outer →
        (r.sectionScopes opening scope).head? = some (path.intoFirst v)) ∧
      ∀ within compound : Tag, within.name = inner → compound.name = outer ++ "." ++ inner →
        compound.raw = within.raw →
        r.variableText compound scope = r.variableText within (path.intoFirst v) := by
  have there := get?_of_found found
  have joined : s.resolve scope (outer ++ "." ++ inner) = .ok (.found (path ++ .parse inner) below) := by
    apply resolve_append_dot found
    rw [keyed] at leads ⊢
    rwa [Path.get?_intoFirst there] at leads
  have inside := resolve_of_get? leads
  refine ⟨joined, inside, fun t options => ⟨?first, ?shown⟩⟩
  case first =>
    rintro opening opens rfl
    have repeats : opening.sigil ≠ some .inverted := by
      rw [opens]
      decide
    rw [Rendering.sectionScopes, if_neg repeats, found]
    rw [keyed] at leads
    exact head?_repeatedScopes_of_key there leads
  case shown =>
    rintro within compound rfl named raw
    rw [← named] at joined
    rw [Rendering.variableText_of_found joined, Rendering.variableText_of_found inside, raw]

/-- A list of lists, used in a section that is beside it. -/
theorem resolve_compound_hosts :
    let items : Value := .list [.list [.mapping [("ip", .scalar "<1>")]], .mapping []]
    let s : Store := ⟨.mapping [("zone", .mapping []), ("hosts", items)]⟩
    let hosts : Path := [.key "hosts"]
    let r : Rendering := ⟨.parse "", s, {}⟩
    let ip : Tag := ⟨"ip", ⟨0, 0⟩, 6, false, none⟩
    let hostsIp : Tag := ⟨"hosts.ip", ⟨0, 0⟩, 12, false, none⟩
    s.resolve [.key "zone"] "hosts" = .ok (.found hosts items) ∧
      s.resolve [.key "zone"] "hosts.ip" = .ok (.found (hosts ++ [.key "ip"]) (.scalar "<1>")) ∧
      s.resolve (hosts.withIndex 0) "ip" =
        .ok (.found (hosts.withIndex 0 ++ [.key "ip"]) (.scalar "<1>")) ∧
      r.variableText hostsIp [.key "zone"] = r.variableText ip (hosts.withIndex 0) := by
  intro items s hosts r ip hostsIp
  have keyed : Path.parse "ip" = [.key "ip"] := by decide +kernel
  have named : Path.parse "hosts" = hosts := by decide +kernel
  have cuts : Path.cutLengths [.key "zone"] 1 = [1, 0] := by decide +kernel
  have found : s.resolve [.key "zone"] "hosts" = .ok (.found hosts items) := by
    rw [resolve_eq_found_iff, named, firstHit?, List.length_singleton, cuts]
    rfl
  have leads : s.get? (Path.intoFirst hosts items ++ .parse "ip") = some (.scalar "<1>") := by
    rw [keyed]
    rfl
  obtain ⟨joined, inside, shown⟩ := resolve_compound found keyed leads
  rw [keyed] at joined inside
  exact ⟨found, joined, inside, (shown _ _).2 ip hostsIp rfl rfl rfl⟩

end Store

end Stencil
