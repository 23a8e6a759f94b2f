import Mathlib.Data.List.Basic
import Stencil.Proofs.Caching
import Stencil.Proofs.Confinement

/-!
What a directory of templates lists, and whether it gives that out.

Where there are no links below the root, the names that are listed are known exactly: the
template files with a path that is not too long, and besides those only entries with a
path that is (`Directory.mem_templatesIn` and `Directory.shows_of_mem_templatesIn`). A listed
name need not be one that can be loaded. A listing does not check the characters of names,
so it shows a file `a:b.mustache`, whose name is always refused. `Directory.load_of_listed`
says that refused characters and the length of paths make the only difference.
-/

namespace Stencil

namespace FileTree

/-! ## Conditions on trees -/

/-- What is true of a directory if it is true of its entries is true of every tree. -/
@[elab_as_elim]
theorem induction_entries {motive : FileTree → Prop} (file : ∀ content, motive (.file content))
    (link : ∀ target, motive (.link target))
    (directory : ∀ entries, (∀ name entry, (name, entry) ∈ entries → motive entry) →
      motive (.directory entries)) : ∀ tree, motive tree
  | .file content => file content
  | .link target => link target
  | .directory entries =>
    directory entries fun _ entry _ => induction_entries file link directory entry
termination_by tree => sizeOf tree
decreasing_by
  next member =>
  have smaller := List.sizeOf_lt_of_mem member
  simp only [Prod.mk.sizeOf_spec, FileTree.directory.sizeOf_spec] at smaller ⊢
  omega

mutual

/-- Whether a condition holds of every entry in a tree, under the name it has there. -/
def every (p : String → FileTree → Bool) : FileTree → Bool
  | .directory entries => everyOf p entries
  | _ => true
termination_by structural tree => tree

def everyOf (p : String → FileTree → Bool) : List (String × FileTree) → Bool
  | [] => true
  | (name, entry) :: entries => p name entry && entry.every p && everyOf p entries
termination_by structural entries => entries

end

section

variable {p : String → FileTree → Bool} {tree entry : FileTree} {name : String}
  {names : List String} {entries : List (String × FileTree)}

theorem everyOf_iff :
    everyOf p entries = true ↔
      ∀ field ∈ entries, p field.1 field.2 = true ∧ field.2.every p = true := by
  induction entries with
  | nil => exact iff_of_true rfl nofun
  | cons field entries ih =>
    rw [everyOf, Bool.and_eq_true, Bool.and_eq_true, ih, List.forall_mem_cons]

theorem every_directory :
    (directory entries).every p = true ↔
      ∀ field ∈ entries, p field.1 field.2 = true ∧ field.2.every p = true := by
  rw [every, everyOf_iff]

/-- What holds of every entry of a directory holds of the one under a name. -/
theorem every_get? (all : tree.every p = true) (found : Fields.get? name tree.entries = some entry) :
    p name entry = true ∧ entry.every p = true := by
  cases tree with
  | file content => cases found
  | link target => cases found
  | directory entries => exact every_directory.1 all _ (Fields.mem_of_get? found)

/-- What holds of every entry holds of the one at a place, under the last name. -/
theorem every_entryAt? (all : tree.every p = true)
    (found : tree.entryAt? (name :: names) = some entry) :
    p (names.getLastD name) entry = true ∧ entry.every p = true := by
  induction names generalizing tree name with
  | nil =>
    obtain ⟨below, here, same⟩ := Option.bind_eq_some_iff.1 found
    cases same
    exact every_get? all here
  | cons next names ih =>
    obtain ⟨below, here, rest⟩ := Option.bind_eq_some_iff.1 found
    rw [List.getLastD_cons]
    exact ih (every_get? all here).2 rest

end

/-- A tree that a disk can hold: the names in a directory are distinct, and each is a name
that an entry can have. -/
structure Legal (tree : FileTree) : Prop where
  distinct : (Fields.keys tree.entries).Nodup
  below : tree.every fun name entry =>
    decide (IsEntryName name ∧ (Fields.keys entry.entries).Nodup)

namespace Legal

variable {tree entry : FileTree} {name : String} {names : List String}

theorem get? (h : tree.Legal) (found : Fields.get? name tree.entries = some entry) :
    IsEntryName name ∧ entry.Legal := by
  obtain ⟨here, below⟩ := every_get? h.below found
  obtain ⟨isName, distinct⟩ := of_decide_eq_true here
  exact ⟨isName, distinct, below⟩

theorem entryAt? (h : tree.Legal) (found : tree.entryAt? names = some entry) :
    (∀ name ∈ names, IsEntryName name) ∧ entry.Legal := by
  induction names generalizing tree with
  | nil =>
    cases found
    exact ⟨nofun, h⟩
  | cons name names ih =>
    obtain ⟨below, here, rest⟩ := Option.bind_eq_some_iff.1 found
    obtain ⟨isName, legal⟩ := h.get? here
    obtain ⟨others, last⟩ := ih legal rest
    exact ⟨List.forall_mem_cons.2 ⟨isName, others⟩, last⟩

end Legal

/-- No entry in a tree is a link. -/
def Linkless (tree : FileTree) : Prop := tree.every fun _ entry => !entry.isLink

instance (tree : FileTree) : Decidable tree.Linkless := inferInstanceAs (Decidable (_ = true))

/-- Whether an entry holds a text, if it is a template file. -/
def holdsText (name : String) : FileTree → Bool
  | .file content => !Directory.isTemplateName name || (Text.Utf8.decode content).isOk
  | _ => true

end FileTree

namespace Directory

open FileTree (pathNames absolutePath IsEntryName Trail)

variable {files top : FileTree} {d : Directory} {follow : FollowLink} {trail : Trail}

/-! ## Walking a directory -/

theorem mem_templatesIn_iff {path place : List String} {entries : List (String × FileTree)} :
    place ∈ d.templatesIn follow trail path entries ↔
      ∃ field ∈ entries, place ∈ d.templatesAt follow trail (path ++ [field.1]) field.1 field.2 := by
  induction entries with
  | nil => exact iff_of_false List.not_mem_nil nofun
  | cons field entries ih => rw [templatesIn, List.mem_append, ih, List.exists_mem_cons_iff]

/-- What stands in front of a short path is short. -/
theorem fits_of_append {path more : List String} (short : d.fits (path ++ more) = true) :
    d.fits path = true := by
  obtain ⟨rest, longer⟩ := FileTree.absolutePath_append (d.root ++ path) more
  rw [fits, FileTree.fits, decide_eq_true_eq] at short ⊢
  rw [← List.append_assoc, longer, String.toList_append, Text.byteLength_append] at short
  omega

/-- Every template file with a short path is found. -/
theorem mem_templatesIn {tree : FileTree} {path names : List String} {name : String}
    {content : List UInt8} (there : tree.entryAt? (name :: names) = some (.file content))
    (template : isTemplateName (names.getLastD name) = true)
    (short : d.fits (path ++ name :: names) = true) :
    path ++ name :: names ∈ d.templatesIn follow trail path tree.entries := by
  induction names generalizing tree path name trail with
  | nil =>
    obtain ⟨below, here, same⟩ := Option.bind_eq_some_iff.1 there
    cases same
    refine mem_templatesIn_iff.2 ⟨(name, _), Fields.mem_of_get? here, ?_⟩
    rw [templatesAt, if_pos (show isTemplateName name = true from template)]
    exact List.mem_singleton_self _
  | cons next names ih =>
    obtain ⟨below, here, rest⟩ := Option.bind_eq_some_iff.1 there
    rw [List.getLastD_cons] at template
    rw [List.append_cons] at short ⊢
    refine mem_templatesIn_iff.2 ⟨(name, below), Fields.mem_of_get? here, ?_⟩
    cases below with
    | file content => cases rest
    | link target => cases rest
    | directory entries =>
      rw [templatesAt, if_pos (fits_of_append short)]
      exact ih rest template short

/-- At a place stands an entry that a listing can show: it has the name of a template, and it
is a file unless the place is too long. -/
def Shows (d : Directory) (tree : FileTree) (path place : List String) : Prop :=
  ∃ name names found, place = path ++ name :: names ∧
    tree.entryAt? (name :: names) = some found ∧ isTemplateName (names.getLastD name) = true ∧
    (d.fits place = true → ∃ content, found = .file content)

/-- Without links, nothing else is found. -/
theorem shows_of_mem_templatesIn {tree : FileTree} {path place : List String}
    (legal : tree.Legal) (linkless : tree.Linkless)
    (listed : place ∈ d.templatesIn follow trail path tree.entries) : d.Shows tree path place := by
  induction tree using FileTree.induction_entries generalizing trail path with
  | file content => cases listed
  | link target => cases listed
  | directory entries ih =>
    obtain ⟨⟨name, entry⟩, member, here⟩ := mem_templatesIn_iff.1 listed
    have found := Fields.get?_of_mem legal.distinct member
    obtain ⟨proper, others⟩ := FileTree.every_directory.1 linkless _ member
    -- The entry itself is listed, or something below it.
    have itself {place} (only : place ∈ if isTemplateName name then [path ++ [name]] else [])
        (isFile : d.fits place = true → ∃ content, entry = .file content) :
        d.Shows (.directory entries) path place := by
      split at only
      · next template =>
        refine ⟨name, [], entry, List.mem_singleton.1 only, ?_, template, isFile⟩
        exact Option.bind_eq_some_iff.2 ⟨entry, found, rfl⟩
      · cases only
    cases entry with
    | link target => cases proper
    | file content =>
      rw [templatesAt] at here
      exact itself here fun _ => ⟨content, rfl⟩
    | directory below =>
      rw [templatesAt] at here
      split at here
      · obtain ⟨next, names, deeper, rfl, rest, template, isFile⟩ :=
          ih name _ member (legal.get? found).2 others here
        refine ⟨name, next :: names, deeper, (List.append_cons path name _).symm, ?_, ?_, isFile⟩
        · exact Option.bind_eq_some_iff.2 ⟨_, found, rest⟩
        · rw [List.getLastD_cons]
          exact template
      · next long =>
        refine itself here fun short => ?_
        split at here
        · cases List.mem_singleton.1 here
          exact absurd short long
        · cases here

/-! ## Listed names -/

/-- The last name in the path of a template decides whether it is one. -/
def lastName (name : String) : String := (pathNames name).getLastD ""

theorem exists_pathNames (name : String) :
    ∃ first others, pathNames name = first :: others ∧ lastName name = others.getLastD first := by
  obtain ⟨first, others, cut⟩ := List.exists_cons_of_ne_nil (FileTree.pathNames_ne_nil name)
  refine ⟨first, others, cut, ?_⟩
  rw [lastName, cut, List.getLastD_cons]

theorem pathNames_intercalate {names : List String} (some : names ≠ [])
    (plain : ∀ name ∈ names, IsEntryName name) :
    pathNames (String.intercalate "/" names) = names :=
  Text.splitString_intercalate rfl some fun name member => (plain name member).2.1

theorem intercalate_pathNames (name : String) : String.intercalate "/" (pathNames name) = name :=
  Text.intercalate_splitString rfl name

/-- A template file holds a text, if each does. -/
theorem exists_text {name : String} (texts : top.every FileTree.holdsText = true)
    (template : isTemplateName (lastName name) = true) {content : List UInt8}
    (there : top.entryAt? (pathNames name) = some (.file content)) :
    ∃ text, content = Text.Utf8.encode text := by
  obtain ⟨first, others, cut, last⟩ := exists_pathNames name
  rw [cut] at there
  rw [last] at template
  have holds := (FileTree.every_entryAt? texts there).1
  rw [FileTree.holdsText, template, Bool.not_true, Bool.false_or] at holds
  cases decoded : Text.Utf8.decode content with
  | ok text => exact ⟨text, Text.Utf8.decode_eq_ok_iff.1 decoded⟩
  | error e =>
    rw [decoded] at holds
    cases holds

/-- A directory that has been opened, and what stands at its root. -/
structure Opened (files : FileTree) (d : Directory) (top : FileTree) : Prop where
  legal : files.Legal
  isDirectory : ∃ entries, files = .directory entries
  short : FileTree.fits (absolutePath d.root) = true
  root : files.entryAt? d.root = some top
  proper : top.isLink = false

theorem opened_of_openAt {path : String} (legal : files.Legal)
    (opened : openAt files path = .ok d) (root : files.entryAt? d.root = some top) :
    Opened files d top := by
  obtain ⟨isDirectory, short, entry, found, proper⟩ :=
    FileTree.exists_entryAt?_of_canonicalNames (openAt_eq_ok_iff.1 opened)
  cases root.symm.trans found
  exact ⟨legal, isDirectory, short, root, proper⟩

namespace Opened

variable {name : String} {found : FileTree} {names : List String}

/-- Names that go down from the root go down from the top behind it. -/
theorem entryAt?_append (h : Opened files d top) (names : List String) :
    files.entryAt? (d.root ++ names) = top.entryAt? names := by
  rw [FileTree.entryAt?_append, h.root, Option.bind_some]

theorem plain (h : Opened files d top) (there : top.entryAt? names = some found) :
    (∀ name ∈ d.root, IsEntryName name) ∧ ∀ name ∈ names, IsEntryName name := by
  have all := (h.legal.entryAt? ((h.entryAt?_append names).trans there)).1
  exact List.forall_mem_append.1 all

theorem locate_root (h : Opened files d top) :
    ∃ trail, files.locate (absolutePath d.root) = .ok trail ∧ trail.entry files = top := by
  obtain ⟨entries, directory⟩ := h.isDirectory
  exact (FileTree.locate_absolutePath directory (h.legal.entryAt? h.root).1 h.root h.proper
    h.short).1

/-- The names of an entry below the root are the names in its path. -/
theorem pathOf_eq (h : Opened files d top) (there : top.entryAt? (pathNames name) = some found) :
    d.pathOf name = absolutePath (d.root ++ pathNames name) := by
  obtain ⟨front, back⟩ := h.plain there
  have whole : (pathNames name).filter (· ≠ "") = pathNames name :=
    List.filter_eq_self.2 fun part member => decide_eq_true (back part member).1.1
  rw [pathOf, whole, FileTree.foldl_joinPath_absolutePath front back]

/-- What stands below the root is relative to it. -/
theorem traversing_of_suspect (h : Opened files d top)
    (there : top.entryAt? (pathNames name) = some found) (suspect : Suspect name) :
    Traversing name := by
  have notEmpty : "" ∉ pathNames name := fun empty => ((h.plain there).2 "" empty).1.1 rfl
  rcases suspect with rfl | slash | traversing
  · exact absurd (by decide +kernel) notEmpty
  · obtain ⟨rest, text⟩ : ∃ rest, name.toList = '/' :: rest :=
      List.head?_eq_some_iff.1 slash
    rw [FileTree.pathNames, Text.splitString, text, Text.split_cons_self] at notEmpty
    exact absurd List.mem_cons_self notEmpty
  · exact traversing

end Opened

/-- Whether a name is not refused and its path is short enough to be used. -/
def Loadable (d : Directory) (name : String) : Prop :=
  ¬ Traversing name ∧ d.fits (pathNames name) = true

instance (d : Directory) (name : String) : Decidable (d.Loadable name) :=
  inferInstanceAs (Decidable (_ ∧ _))

/-- A name without a file is refused. -/
theorem load_of_not_isFile {name : String} (harmless : ¬ Suspect name)
    (absent : files.isFile (d.pathOf name) = false) :
    d.load files name = .error (.template (.noFile name (d.pathOf name))) := by
  rw [load, checkName_eq_ok_iff.2 harmless]
  simp only [absent]
  rfl

namespace Opened

variable {name text : String} {found : FileTree}

theorem load_of_loadable (h : Opened files d top) (loadable : d.Loadable name)
    (there : top.entryAt? (pathNames name) = some (.file (Text.Utf8.encode text))) :
    d.load files name = .ok text := by
  obtain ⟨entries, directory⟩ := h.isDirectory
  obtain ⟨⟨trail, located, here⟩, canonical⟩ := FileTree.locate_absolutePath directory
    (List.forall_mem_append.2 (h.plain there)) ((h.entryAt?_append _).trans there) rfl loadable.2
  rw [← h.pathOf_eq there] at located canonical
  exact load_eq_ok_iff.2 ⟨fun suspect => loadable.1 (h.traversing_of_suspect there suspect),
    ⟨_, canonical, List.prefix_append d.root _⟩, FileTree.read_eq_ok_iff.2 ⟨trail, located, here⟩⟩

theorem load_of_not_loadable (h : Opened files d top) (unloadable : ¬ d.Loadable name)
    (there : top.entryAt? (pathNames name) = some found) :
    ∃ e, d.load files name = .error (.template e) := by
  by_cases suspect : Suspect name
  · exact load_of_suspect suspect
  · have long : ¬ d.fits (pathNames name) = true := fun short =>
      unloadable ⟨fun traversing => suspect (.inr (.inr traversing)), short⟩
    refine ⟨_, load_of_not_isFile suspect (Bool.eq_false_iff.2 fun isFile => long ?_)⟩
    obtain ⟨content, read⟩ := FileTree.isFile_iff.1 isFile
    obtain ⟨trail, located, -⟩ := FileTree.read_eq_ok_iff.1 read
    rw [h.pathOf_eq there] at located
    exact (FileTree.locate_eq_ok_iff.1 located).2.1

/-! ### Which names are listed -/

/-- A directory lists what is found in it, and anything else that has been opened is not
listed. -/
theorem list_eq (h : Opened files d top) :
    (∃ entries trail, top = .directory entries ∧
      d.list files = .ok (Source.sortNames ((d.templatesIn
        (followLink files d FileTree.maxLinks FileTree.maxLinks) trail [] entries).map
          (String.intercalate "/")))) ∨
    (∀ entries, top ≠ .directory entries) ∧ ∃ e, d.list files = .error (.input e) := by
  obtain ⟨trail, located, here⟩ := h.locate_root
  rw [list, located]
  cases top with
  | directory entries =>
    refine .inl ⟨entries, trail, rfl, ?_⟩
    simp only [mapError_ok, bind, Except.bind, here]
    rfl
  | file content =>
    refine .inr ⟨nofun, ?_⟩
    simp only [mapError_ok, bind, Except.bind, here]
    exact ⟨_, rfl⟩
  | link target => cases h.proper

theorem isOk_list_iff (h : Opened files d top) :
    (∃ names, d.list files = .ok names) ↔ ∃ entries, top = .directory entries := by
  rcases h.list_eq with ⟨entries, trail, isDirectory, listed⟩ | ⟨notDirectory, e, failed⟩
  · exact iff_of_true ⟨_, listed⟩ ⟨entries, isDirectory⟩
  · refine iff_of_false ?_ fun ⟨entries, isDirectory⟩ => notDirectory entries isDirectory
    rw [failed]
    exact nofun

/-- A name is listed for a path that is found. -/
theorem mem_list_iff (h : Opened files d top) {names : List String}
    (listed : d.list files = .ok names) :
    ∃ follow trail, ∀ name, name ∈ names ↔
      ∃ place ∈ d.templatesIn follow trail [] top.entries, String.intercalate "/" place = name := by
  rcases h.list_eq with ⟨entries, trail, rfl, found⟩ | ⟨-, e, failed⟩
  · cases listed.symm.trans found
    refine ⟨followLink files d FileTree.maxLinks FileTree.maxLinks, trail, fun name => ?_⟩
    rw [Source.sortNames, List.mem_mergeSort, List.mem_map]
    rfl
  · cases listed.symm.trans failed

/-- The template files with a short path are listed. -/
theorem mem_list (h : Opened files d top) {names : List String} {content : List UInt8}
    (listed : d.list files = .ok names) (short : d.fits (pathNames name) = true)
    (template : isTemplateName (lastName name) = true)
    (there : top.entryAt? (pathNames name) = some (.file content)) : name ∈ names := by
  obtain ⟨follow, trail, found⟩ := h.mem_list_iff listed
  refine (found name).2 ⟨pathNames name, ?_, intercalate_pathNames name⟩
  obtain ⟨first, others, cut, last⟩ := exists_pathNames name
  rw [cut] at there short ⊢
  rw [last] at template
  exact mem_templatesIn there template short

/-- Without links, nothing else with a short path is listed. -/
theorem of_mem_list (h : Opened files d top) (linkless : top.Linkless) {names : List String}
    (listed : d.list files = .ok names) (member : name ∈ names) :
    ∃ found, top.entryAt? (pathNames name) = some found ∧
      isTemplateName (lastName name) = true ∧
      (d.fits (pathNames name) = true → ∃ content, found = .file content) := by
  obtain ⟨follow, trail, places⟩ := h.mem_list_iff listed
  obtain ⟨place, walked, rfl⟩ := (places name).1 member
  obtain ⟨first, others, found, rfl, there, template, isFile⟩ :=
    shows_of_mem_templatesIn (h.legal.entryAt? h.root).2 linkless walked
  rw [lastName, List.nil_append, pathNames_intercalate (List.cons_ne_nil _ _) (h.plain there).2,
    List.getLastD_cons]
  exact ⟨found, there, template, isFile⟩

end Opened

end Directory

/-! ## Loading everything -/

namespace Cache

variable {c : Cache}

/-- A lenient cache refuses no text. -/
theorem insertRaw_of_lenient (lenient : c.strict = false) (name raw : String) :
    ∃ shared cache, c.insertRaw name raw = (.ok shared, cache) ∧ cache.strict = false := by
  have accepted : Template.Accepted c.strict raw := fun strict => nomatch lenient.symm.trans strict
  rcases insertRaw_cases c name raw with
    ⟨entry, -, -, held⟩ | ⟨-, -, added⟩ | ⟨-, refused, -⟩
  · exact ⟨_, _, held, lenient⟩
  · exact ⟨_, _, added, lenient⟩
  · exact absurd accepted refused

/-- It gets the templates of some names if the source has a text under each. -/
theorem isOk_getAll_iff (lenient : c.strict = false) (source : Source) (names : List String) :
    (∃ loaded, (c.getAll source names).1 = .ok loaded) ↔
      ∀ name ∈ names, ∃ text, source.load name = .ok text := by
  induction names generalizing c with
  | nil => exact iff_of_true ⟨[], rfl⟩ nofun
  | cons name names ih =>
    rw [getAll, get, List.forall_mem_cons]
    cases source.load name with
    | error e => exact iff_of_false nofun fun all => nomatch all.1
    | ok raw =>
      obtain ⟨shared, cache, stored, still⟩ := insertRaw_of_lenient lenient name raw
      simp only [stored, map_eq_ok_iff]
      rw [← ih still]
      constructor
      · rintro ⟨loaded, others, got, -⟩
        exact ⟨⟨raw, rfl⟩, others, got⟩
      · rintro ⟨-, others, got⟩
        exact ⟨_, others, got, rfl⟩

end Cache

namespace Directory

open FileTree (pathNames)

/-- A directory without links lists the template files below its root. A listed name is
loaded if nothing in it is refused and its path is short enough, and the text is the content
of the file of that name; any other listed name is refused. So a lenient cache gets all
templates just if there is no such name, which the listing itself does not prevent. -/
theorem load_of_listed {files top : FileTree} {d : Directory} {path : String}
    (legal : files.Legal) (opened : openAt files path = .ok d)
    (root : files.entryAt? d.root = some top) (linkless : top.Linkless)
    (texts : top.every FileTree.holdsText = true) :
    ((∃ names, d.list files = .ok names) ↔ ∃ entries, top = .directory entries) ∧
    ∀ names, d.list files = .ok names →
      (∀ name, d.Loadable name →
        (name ∈ names ↔ isTemplateName (lastName name) = true ∧
          ∃ content, top.entryAt? (pathNames name) = some (.file content))) ∧
      (∀ name ∈ names,
        (d.Loadable name → ∃ text, d.load files name = .ok text ∧
          top.entryAt? (pathNames name) = some (.file (Text.Utf8.encode text))) ∧
        (¬ d.Loadable name → ∃ e, d.load files name = .error (.template e))) ∧
      ∀ cache : Cache, cache.strict = false →
        ((∃ loaded, (cache.loadAll (d.source files)).1 = .ok loaded) ↔
          ∀ name ∈ names, d.Loadable name) := by
  have h := opened_of_openAt legal opened root
  refine ⟨h.isOk_list_iff, fun names listed => ?_⟩
  have loads : ∀ name ∈ names, d.Loadable name → ∃ text, d.load files name = .ok text ∧
      top.entryAt? (pathNames name) = some (.file (Text.Utf8.encode text)) := by
    intro name member loadable
    obtain ⟨found, there, template, isFile⟩ := h.of_mem_list linkless listed member
    obtain ⟨content, rfl⟩ := isFile loadable.2
    obtain ⟨text, rfl⟩ := exists_text texts template there
    exact ⟨text, h.load_of_loadable loadable there, there⟩
  have refuses : ∀ name ∈ names, ¬ d.Loadable name →
      ∃ e, d.load files name = .error (.template e) := by
    intro name member unloadable
    obtain ⟨found, there, -⟩ := h.of_mem_list linkless listed member
    exact h.load_of_not_loadable unloadable there
  refine ⟨fun name loadable => ⟨fun member => ?_, ?_⟩,
    fun name member => ⟨loads name member, refuses name member⟩, fun cache lenient => ?_⟩
  · obtain ⟨found, there, template, isFile⟩ := h.of_mem_list linkless listed member
    obtain ⟨content, rfl⟩ := isFile loadable.2
    exact ⟨template, content, there⟩
  · rintro ⟨template, content, there⟩
    exact h.mem_list listed loadable.2 template there
  · have given : (d.source files).list.get = .ok names := listed
    rw [Cache.loadAll, given]
    refine (Cache.isOk_getAll_iff lenient _ names).trans (forall₂_congr fun name member => ?_)
    constructor
    · rintro ⟨text, loaded⟩
      refine Decidable.byContradiction fun unloadable => ?_
      obtain ⟨e, failed⟩ := refuses name member unloadable
      cases loaded.symm.trans failed
    · intro loadable
      obtain ⟨text, loaded, -⟩ := loads name member loadable
      exact ⟨text, loaded⟩

/-- A directory that is reached by a link, with a template in a directory of its own and a
file that is none. -/
def attic : FileTree :=
  .directory
    [("home", .link "t"),
     ("t", .directory
      [("rooms", .directory [("hall.mustache", .file [120])]),
       (".mustache", .file [255])])]

theorem load_of_listed_attic :
    list attic ⟨["t"]⟩ = .ok ["rooms/hall.mustache"] ∧
      (∃ text, load attic ⟨["t"]⟩ "rooms/hall.mustache" = .ok text) ∧
      ∃ loaded, ((Cache.empty false).loadAll (source attic ⟨["t"]⟩)).1 = .ok loaded := by
  have legal : attic.Legal := ⟨by decide, by decide +kernel⟩
  have opened : openAt attic "/home" = .ok ⟨["t"]⟩ := by decide +kernel
  have listed : list attic ⟨["t"]⟩ = .ok ["rooms/hall.mustache"] := by decide +kernel
  have loadable : ∀ name ∈ ["rooms/hall.mustache"], Loadable ⟨["t"]⟩ name := by decide +kernel
  obtain ⟨-, loads, everything⟩ :=
    (load_of_listed legal opened rfl (by decide +kernel) (by decide +kernel)).2 _ listed
  obtain ⟨text, loaded, -⟩ := (loads _ List.mem_cons_self).1 (loadable _ List.mem_cons_self)
  exact ⟨listed, ⟨text, loaded⟩, (everything _ rfl).2 loadable⟩

/-- It is not so that all listed names are loaded: a colon in the name of a file is enough. -/
theorem not_load_of_listed :
    ¬ ∀ (files top : FileTree) (path : String) (d : Directory), files.Legal →
      openAt files path = .ok d → files.entryAt? d.root = some top → top.Linkless →
      top.every FileTree.holdsText = true → ∀ names, d.list files = .ok names →
        (∀ name ∈ names, ∃ text, d.load files name = .ok text) ∧
        ∃ loaded, ((Cache.empty false).loadAll (d.source files)).1 = .ok loaded := by
  intro allLoad
  have legal : FileTree.Legal (.directory [("a:b.mustache", .file [120])]) :=
    ⟨by decide, by decide +kernel⟩
  obtain ⟨text, loaded⟩ := (allLoad _ _ "/" ⟨[]⟩ legal (by decide +kernel) rfl (by decide +kernel)
    (by decide +kernel) ["a:b.mustache"] (by decide +kernel)).1 _ List.mem_cons_self
  have refused : load (.directory [("a:b.mustache", .file [120])]) ⟨[]⟩ "a:b.mustache" =
      .error (.template (.traversingName "a:b.mustache")) := by decide +kernel
  cases loaded.symm.trans refused

end Directory

end Stencil
