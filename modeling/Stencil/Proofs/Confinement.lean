import Mathlib.Control.Monad.Basic
import Stencil.Directory
import Stencil.Proofs.Spelling
import Stencil.Proofs.Trails

/-!
What a directory of templates gives out.

A name is checked twice: by its characters, and by the place that its path leads to. The
first check alone would not do, since a link may lead anywhere from a harmless name; the
second compares canonical names one by one, so a root `/t/a` does not let `/t/ab` in.
`Directory.load_confined` says what the two come to: the text of a template is always the
content of a file that stands below the root, whatever links led to it.
-/

namespace Stencil.Directory

/-! ## The characters of a name -/

theorem hasDoubleDot_iff (cs : List Char) : hasDoubleDot cs = true ↔ ['.', '.'] <:+: cs := by
  fun_induction hasDoubleDot cs with
  | case1 => simp
  | case2 cs => exact iff_of_true rfl ⟨[], cs, rfl⟩
  | case3 c cs other ih =>
    rw [ih, List.infix_cons_iff]
    refine ⟨.inr, ?_⟩
    rintro (⟨rest, same⟩ | inside)
    · cases same
      exact absurd rfl (other rest rfl)
    · exact inside

/-- The names that could lead out of the directory by their characters. -/
def Traversing (name : String) : Prop :=
  ['.', '.'] <:+: name.toList ∨ '\\' ∈ name.toList ∨ ':' ∈ name.toList

instance (name : String) : Decidable (Traversing name) :=
  decidable_of_iff (hasDoubleDot name.toList = true ∨ '\\' ∈ name.toList ∨ ':' ∈ name.toList)
    (or_congr_left (hasDoubleDot_iff name.toList))

/-- The names that are refused for their characters. -/
def Suspect (name : String) : Prop :=
  name = "" ∨ name.toList.head? = some '/' ∨ Traversing name

theorem checkName_eq_ok_iff {name : String} : checkName name = .ok () ↔ ¬ Suspect name := by
  have empty : name.toList.isEmpty = true ↔ name = "" := by
    rw [List.isEmpty_iff, String.toList_eq_nil_iff]
  simp only [checkName, Suspect, Traversing, Bool.or_eq_true, decide_eq_true_eq, empty,
    hasDoubleDot_iff, List.contains_iff_mem, or_assoc]
  split
  · next relative =>
    refine iff_of_false nofun (not_not_intro ?_)
    exact relative.elim .inl fun slash => .inr (.inl slash)
  · next relative =>
    split
    · next traversing => exact iff_of_false nofun (not_not_intro (.inr (.inr traversing)))
    · next harmless =>
      refine iff_of_true rfl ?_
      rintro (blank | slash | traversing)
      · exact relative (.inl blank)
      · exact relative (.inr slash)
      · exact harmless traversing

/-! ## Loading -/

variable {files : FileTree} {d : Directory} {name : String}

/-- A suspect name is refused before anything is looked for. -/
theorem load_of_suspect (suspect : Suspect name) :
    ∃ e, d.load files name = .error (.template e) := by
  cases checked : checkName name with
  | ok => exact absurd suspect (checkName_eq_ok_iff.1 checked)
  | error e =>
    refine ⟨e, ?_⟩
    rw [load, checked]
    rfl

/-- What it takes to give out a text. -/
theorem load_eq_ok_iff {text : String} :
    d.load files name = .ok text ↔
      ¬ Suspect name ∧ (∃ place, files.canonicalNames (d.pathOf name) = .ok place ∧
        d.root <+: place) ∧ files.read (d.pathOf name) = .ok (Text.Utf8.encode text) := by
  simp only [load, bind_eq_ok_iff, ite_throw_eq_ok_iff, mapError_eq_ok_iff,
    Text.Utf8.decode_eq_ok_iff, Bool.not_eq_true', Bool.not_eq_false, List.isPrefixOf_iff_prefix,
    ← checkName_eq_ok_iff, FileTree.isFile_iff]
  constructor
  · rintro ⟨_, checked, -, place, canonical, inside, _, read, rfl⟩
    exact ⟨checked, ⟨place, canonical, inside⟩, read⟩
  · rintro ⟨checked, ⟨place, canonical, inside⟩, read⟩
    exact ⟨(), checked, ⟨_, read⟩, place, canonical, inside, _, read, rfl⟩

theorem openAt_eq_ok_iff {path : String} :
    openAt files path = .ok d ↔ files.canonicalNames path = .ok d.root := by
  rw [openAt]
  cases files.canonicalNames path with
  | error e => exact iff_of_false nofun nofun
  | ok names =>
    cases d
    simp

/-- Whatever links there are, the text that a directory gives out for a name is the content
of a file below its root: the file stands where the path of the name leads to, a place with
no link in it whose names begin with those of the root. Every such file is given out, unless
the path of its name is too long. Names that could lead elsewhere by their characters are
always refused. -/
theorem load_confined {path : String} (opened : openAt files path = .ok d) (name : String) :
    (∀ text, d.load files name = .ok text ↔
      ¬ Suspect name ∧ FileTree.fits (d.pathOf name) = true ∧
        ∃ root place, files.canonicalNames path = .ok root ∧
          files.canonicalNames (d.pathOf name) = .ok place ∧ root <+: place ∧
          files.LinkFree place ∧ files.entryAt? place = some (.file (Text.Utf8.encode text))) ∧
    (Suspect name → ∃ e, d.load files name = .error (.template e)) := by
  refine ⟨fun text => ⟨fun loaded => ?_, ?_⟩, load_of_suspect⟩
  · obtain ⟨harmless, ⟨place, canonical, inside⟩, read⟩ := load_eq_ok_iff.1 loaded
    obtain ⟨trail, located, -⟩ := FileTree.read_eq_ok_iff.1 read
    have found := FileTree.entryAt?_canonicalNames canonical read
    exact ⟨harmless, (FileTree.locate_eq_ok_iff.1 located).2.1, d.root, place,
      openAt_eq_ok_iff.1 opened, canonical, inside, FileTree.linkFree_of_entryAt? found rfl, found⟩
  · rintro ⟨harmless, short, root, place, isRoot, canonical, inside, -, found⟩
    cases isRoot.symm.trans (openAt_eq_ok_iff.1 opened)
    exact load_eq_ok_iff.2 ⟨harmless, ⟨place, canonical, inside⟩,
      FileTree.read_canonicalNames short canonical found⟩

/-- A root that is reached by a link, with a link to a directory in it, and another that
leads to a neighbour whose name begins with the name of the root. -/
def cellar : FileTree :=
  .directory
    [("t", .directory
      [("a", .directory
        [("rooms", .directory [("hall", .file [120])]),
         ("house", .link "../a/./rooms"),
         ("next", .link "/t/ab/secret")]),
       ("ab", .directory [("secret", .file [121])])]),
     ("home", .link "t/a")]

theorem load_confined_cellar :
    openAt cellar "/home" = .ok ⟨["t", "a"]⟩ ∧
      (load cellar ⟨["t", "a"]⟩ "house/hall" = .ok "x" ∧
        ∃ root place, cellar.canonicalNames "/home" = .ok root ∧
          cellar.canonicalNames "/t/a/house/hall" = .ok place ∧ root <+: place ∧
          cellar.LinkFree place ∧
          cellar.entryAt? place = some (.file (Text.Utf8.encode "x"))) ∧
      load cellar ⟨["t", "a"]⟩ "next" = .error (.template (.outsideRoot "/t/a/next")) ∧
      ∃ e, load cellar ⟨["t", "a"]⟩ "rooms/../hall" = .error (.template e) := by
  have opened : openAt cellar "/home" = .ok ⟨["t", "a"]⟩ := by decide +kernel
  have loaded : load cellar ⟨["t", "a"]⟩ "house/hall" = .ok "x" := by decide +kernel
  have path : pathOf ⟨["t", "a"]⟩ "house/hall" = "/t/a/house/hall" := by decide +kernel
  obtain ⟨-, -, confined⟩ := ((load_confined opened "house/hall").1 "x").1 loaded
  refine ⟨opened, ⟨loaded, path ▸ confined⟩, by decide +kernel,
    (load_confined opened "rooms/../hall").2 ?_⟩
  exact .inr (.inr (.inl ⟨"rooms/".toList, "/hall".toList, by decide +kernel⟩))

end Stencil.Directory
