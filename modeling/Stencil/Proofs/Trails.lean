import Stencil.FileTree
import Stencil.Proofs.Dotted
import Stencil.Proofs.Outcome

/-!
Where paths lead.

A path is followed through links, `..` and `.`; `entryAt?` only goes down from entry to
entry and never through a link. Wherever a path leads, the names of the trail it leaves
say the same place in the second manner (`entryAt?_canonicalNames`). The reason is
`Trail.Stands`, which each step of a walk keeps: every name on a trail stands in the
directory before it and is no link. In the other direction, names that go down from entry
to entry are walked without a detour (`walkNames_of_entryAt?`).
-/

namespace Stencil.FileTree

variable {top : FileTree}

/-! ## Going down from entry to entry -/

def isLink : FileTree → Bool
  | link _ => true
  | _ => false

theorem entryAt?_append (tree : FileTree) (front back : List String) :
    tree.entryAt? (front ++ back) = (tree.entryAt? front).bind (·.entryAt? back) := by
  induction front generalizing tree with
  | nil => rfl
  | cons name front ih =>
    rw [List.cons_append, entryAt?, entryAt?]
    cases Fields.get? name tree.entries with
    | none => rfl
    | some below => exact ih below

/-- A place that is reached without passing or meeting a link. -/
def LinkFree (top : FileTree) (place : List String) : Prop :=
  ∀ front, front <+: place → ∀ target, top.entryAt? front ≠ some (.link target)

/-- Nothing lies below a link. -/
theorem linkFree_of_entryAt? {place : List String} {entry : FileTree}
    (found : top.entryAt? place = some entry) (proper : entry.isLink = false) :
    top.LinkFree place := by
  rintro front ⟨back, rfl⟩ target here
  rw [entryAt?_append, here, Option.bind_some] at found
  cases back with
  | nil =>
    cases found
    cases proper
  | cons name back => cases found

/-! ## Names -/

/-- The names that a directory can have for its entries. -/
def IsEntryName (name : String) : Prop :=
  (name ≠ "" ∧ name ≠ "." ∧ name ≠ "..") ∧ '/' ∉ name.toList ∧ '\x00' ∉ name.toList ∧
    Text.byteLength name.toList ≤ maxNameLength

instance (name : String) : Decidable (IsEntryName name) :=
  inferInstanceAs (Decidable (_ ∧ _))

/-! ## Trails -/

namespace Trail

/-- Every name on a trail stands in the directory before it, and none is a link. -/
inductive Stands (top : FileTree) : Trail → Prop
  | top : Stands top []
  | enter {trail : Trail} {name : String} {entry : FileTree} {entries : List (String × FileTree)}
    (before : Stands top trail) (here : trail.entry top = .directory entries)
    (found : Fields.get? name entries = some entry) (proper : entry.isLink = false) :
    Stands top ((name, entry) :: trail)

theorem Stands.tail {trail : Trail} (h : trail.Stands top) : Trail.Stands top trail.tail := by
  cases h with
  | top => exact .top
  | enter before => exact before

theorem names_cons (name : String) (entry : FileTree) (trail : Trail) :
    Trail.names ((name, entry) :: trail) = trail.names ++ [name] := by
  simp [names]

/-- The names of a trail go down to where it has come. -/
theorem Stands.entryAt? {trail : Trail} (h : trail.Stands top) :
    top.entryAt? trail.names = some (trail.entry top) := by
  induction h with
  | top => rfl
  | @enter trail name entry entries before here found proper ih =>
    rw [names_cons, entryAt?_append, ih, here, Option.bind_some, FileTree.entryAt?,
      FileTree.entries, found]
    rfl

theorem Stands.isLink_entry {trail : Trail} (h : trail.Stands top) (proper : top.isLink = false) :
    (trail.entry top).isLink = false := by
  cases h with
  | top => exact proper
  | enter _ _ _ here => exact here

end Trail

/-! ## Walks -/

/-- What answers for the links of a walk. -/
abbrev Follow := Trail → String → List String → Except FileError Arrival

section

variable {linksLeft : Nat} {follow : Follow} {names : List String} {trail : Trail}
  {arrival : Arrival}

/-- One stretch of a walk, up to the next link, keeps to what stands there. -/
theorem stands_walkNames
    (follows : ∀ {trail target names arrival}, Trail.Stands top trail →
      follow trail target names = .ok arrival → arrival.trail.Stands top)
    (stands : trail.Stands top)
    (walked : top.walkNames linksLeft follow names trail = .ok arrival) :
    arrival.trail.Stands top := by
  fun_induction walkNames top linksLeft follow names trail with
  | case1 trail =>
    cases walked
    exact stands
  | case2 name names trail entries here stays ih => exact ih stands walked
  | case3 names trail entries here _ ih => exact ih stands.tail walked
  | case6 name names trail entries here _ _ _ target link => exact follows stands walked
  | case7 name names trail entries here _ _ _ entry proper found ih =>
    refine ih (.enter stands here found ?_) walked
    cases entry with
    | link target => exact absurd rfl (proper target)
    | file content => rfl
    | directory below => rfl
  | _ => cases walked

theorem stands_walk {links : Nat} (stands : trail.Stands top)
    (walked : top.walk links names trail = .ok arrival) : arrival.trail.Stands top := by
  induction links generalizing names trail arrival with
  | zero => exact stands_walkNames (fun _ followed => by cases followed) stands walked
  | succ links ih =>
    refine stands_walkNames (fun {trail target _ _} before followed => ?_) stands walked
    -- The target is followed from the top or from the directory of the link.
    cases absolute : isAbsolute target with
    | true =>
      rw [absolute] at followed
      exact ih .top followed
    | false =>
      rw [absolute] at followed
      exact ih before followed

end

/-- Names that go down from entry to entry are walked without a detour. -/
theorem walkNames_of_entryAt? {linksLeft : Nat} {follow : Follow} {names : List String}
    {trail : Trail} {entry : FileTree} (plain : ∀ name ∈ names, IsEntryName name)
    (found : (Trail.entry top trail).entryAt? names = some entry) (proper : entry.isLink = false) :
    ∃ target, top.walkNames linksLeft follow names trail = .ok ⟨target, linksLeft⟩ ∧
      target.names = trail.names ++ names ∧ target.entry top = entry := by
  induction names generalizing trail with
  | nil =>
    cases found
    exact ⟨trail, rfl, (List.append_nil _).symm, rfl⟩
  | cons name names ih =>
    obtain ⟨⟨⟨notEmpty, notHere, notAbove⟩, -, -, short⟩, later⟩ := List.forall_mem_cons.1 plain
    obtain ⟨below, got, rest⟩ := Option.bind_eq_some_iff.1 found
    cases here : trail.entry top with
    | file content =>
      rw [here] at got
      cases got
    | link target =>
      rw [here] at got
      cases got
    | directory entries =>
      rw [here] at got
      have onward : (Trail.entry top ((name, below) :: trail)).entryAt? names = some entry := rest
      obtain ⟨target, walked, names, reached⟩ := ih later onward
      refine ⟨target, ?_, ?_, reached⟩
      · rw [walkNames, here]
        simp only [notEmpty, notHere, notAbove, or_self, if_false, Nat.not_lt.2 short]
        have direct := linkFree_of_entryAt? rest proper [] (List.nil_prefix)
        rw [show Fields.get? name entries = some below from got]
        cases below with
        | link target => exact absurd rfl (direct target)
        | file content => exact walked
        | directory entries => exact walked
      · rw [names, Trail.names_cons, List.append_assoc, List.singleton_append]

/-! ## Whole paths -/

theorem pathNames_ne_nil (path : String) : pathNames path ≠ [] := by
  rw [pathNames, Text.splitString, Ne, List.map_eq_nil_iff]
  exact Text.split_ne_nil '/' path.toList

theorem checkPath_eq_ok_iff {path : String} :
    checkPath path = .ok () ↔ '\x00' ∉ path.toList ∧ path ≠ "" := by
  rw [checkPath, ← List.contains_iff_mem]
  cases path.toList.contains '\x00' <;> by_cases empty : path = "" <;> simp [empty]

theorem locate_eq_ok_iff {path : String} {trail : Trail} :
    top.locate path = .ok trail ↔
      checkPath path = .ok () ∧ fits path = true ∧
        ∃ arrival, top.walk maxLinks (pathNames path) [] = .ok arrival ∧ arrival.trail = trail := by
  rw [locate, bind_eq_ok_iff]
  constructor
  · intro ⟨_, checked, located⟩
    split at located
    case isTrue short =>
      obtain ⟨arrival, walked, reached⟩ := bind_eq_ok_iff.1 located
      cases reached
      exact ⟨checked, short, arrival, walked, rfl⟩
    case isFalse => cases located
  · intro ⟨checked, short, arrival, walked, reached⟩
    refine ⟨(), checked, ?_⟩
    rw [if_pos short, walked, ← reached]
    rfl

theorem canonicalNames_eq_ok_iff {path : String} {place : List String} :
    top.canonicalNames path = .ok place ↔
      checkPath path = .ok () ∧ (∃ arrival, top.walk maxLinks (pathNames path) [] = .ok arrival ∧
        arrival.trail.names = place) ∧ fits (absolutePath place) = true := by
  rw [canonicalNames, bind_eq_ok_iff]
  constructor
  · intro ⟨_, checked, canonical⟩
    obtain ⟨arrival, walked, rest⟩ := bind_eq_ok_iff.1 canonical
    dsimp only at rest
    split at rest
    case isTrue short =>
      cases rest
      exact ⟨checked, ⟨arrival, walked, rfl⟩, short⟩
    case isFalse => cases rest
  · intro ⟨checked, ⟨arrival, walked, reached⟩, short⟩
    refine ⟨(), checked, bind_eq_ok_iff.2 ⟨arrival, walked, ?_⟩⟩
    rw [← reached] at short ⊢
    rw [if_pos short]
    rfl

theorem read_eq_ok_iff {path : String} {content : List UInt8} :
    top.read path = .ok content ↔
      ∃ trail, top.locate path = .ok trail ∧ trail.entry top = .file content := by
  rw [read, bind_eq_ok_iff]
  refine exists_congr fun trail => and_congr_right fun _ => ?_
  cases trail.entry top <;> simp [pure, Except.pure, throw, throwThe, MonadExceptOf.throw]

theorem isFile_iff {path : String} :
    top.isFile path = true ↔ ∃ content, top.read path = .ok content := by
  simp only [read_eq_ok_iff]
  rw [isFile]
  cases top.locate path with
  | error e => simp
  | ok trail =>
    simp only [Except.ok.injEq, exists_eq_left']
    cases trail.entry top <;> simp

/-- A walk sets out from a directory. -/
theorem directory_of_walk {links : Nat} {name : String} {names : List String} {arrival : Arrival}
    (walked : top.walk links (name :: names) [] = .ok arrival) :
    ∃ entries, top = .directory entries := by
  obtain ⟨follow, same⟩ : ∃ follow, top.walk links = top.walkNames links follow := by
    cases links <;> exact ⟨_, rfl⟩
  rw [same, walkNames, Trail.entry] at walked
  cases top with
  | directory entries => exact ⟨entries, rfl⟩
  | file content => cases walked
  | link target => cases walked

/-- A canonical place is reached from entry to entry, and there is no link. -/
theorem exists_entryAt?_of_canonicalNames {path : String} {place : List String}
    (canonical : top.canonicalNames path = .ok place) :
    (∃ entries, top = .directory entries) ∧ fits (absolutePath place) = true ∧
      ∃ entry, top.entryAt? place = some entry ∧ entry.isLink = false := by
  obtain ⟨-, ⟨arrival, walked, rfl⟩, short⟩ := canonicalNames_eq_ok_iff.1 canonical
  obtain ⟨first, others, cut⟩ := List.exists_cons_of_ne_nil (pathNames_ne_nil path)
  obtain ⟨entries, rfl⟩ := directory_of_walk (cut ▸ walked)
  have stands := stands_walk .top walked
  exact ⟨⟨entries, rfl⟩, short, _, stands.entryAt?, stands.isLink_entry rfl⟩

/-- What a path reads is at its canonical place. -/
theorem entryAt?_canonicalNames {path : String} {place : List String} {content : List UInt8}
    (canonical : top.canonicalNames path = .ok place) (read : top.read path = .ok content) :
    top.entryAt? place = some (.file content) := by
  obtain ⟨-, ⟨arrival, walked, rfl⟩, -⟩ := canonicalNames_eq_ok_iff.1 canonical
  obtain ⟨trail, located, here⟩ := read_eq_ok_iff.1 read
  obtain ⟨-, -, again, rewalked, rfl⟩ := locate_eq_ok_iff.1 located
  cases walked.symm.trans rewalked
  rw [(stands_walk .top walked).entryAt?, here]

/-- A file at the canonical place of a path is what the path reads, unless it is too long. -/
theorem read_canonicalNames {path : String} {place : List String} {content : List UInt8}
    (short : fits path = true) (canonical : top.canonicalNames path = .ok place)
    (found : top.entryAt? place = some (.file content)) : top.read path = .ok content := by
  obtain ⟨checked, ⟨arrival, walked, rfl⟩, -⟩ := canonicalNames_eq_ok_iff.1 canonical
  have here := (stands_walk .top walked).entryAt?
  exact read_eq_ok_iff.2 ⟨arrival.trail, locate_eq_ok_iff.2 ⟨checked, short, arrival, walked, rfl⟩,
    Option.some.inj (here.symm.trans found)⟩

/-! ## Paths made of names -/

section

variable {names : List String}

theorem notMem_absolutePath {c : Char} (apart : c ≠ '/') (absent : ∀ name ∈ names, c ∉ name.toList) :
    c ∉ (absolutePath names).toList := by
  rw [absolutePath, String.toList_append, List.mem_append]
  rintro (slash | member)
  · exact apart (List.mem_singleton.1 slash)
  · rcases Text.mem_toList_intercalate member with slash | ⟨name, isName, inside⟩
    · exact apart (List.mem_singleton.1 slash)
    · exact absent name isName inside

theorem absolutePath_ne_empty (names : List String) : absolutePath names ≠ "" := by
  intro empty
  have texts := congrArg String.toList empty
  rw [absolutePath, String.toList_append] at texts
  cases texts

theorem pathNames_absolutePath (some : names ≠ []) (plain : ∀ name ∈ names, IsEntryName name) :
    pathNames (absolutePath names) = "" :: names := by
  have slash : "/".toList = ['/'] := rfl
  have cut := Text.splitString_intercalate slash some fun name member => (plain name member).2.1
  rw [pathNames, absolutePath, Text.splitString, String.toList_append, slash,
    List.singleton_append, Text.split_cons_self, List.map_cons]
  exact congrArg ("" :: ·) cut

/-- At the top, an empty name stays. -/
theorem walkNames_empty {linksLeft : Nat} {follow : Follow} {entries : List (String × FileTree)}
    (directory : top = .directory entries) (names : List String) :
    top.walkNames linksLeft follow ("" :: names) [] = top.walkNames linksLeft follow names [] := by
  rw [walkNames, Trail.entry, directory]
  simp

/-- A path of names below the top leads to where they go down to. -/
theorem walk_absolutePath {entry : FileTree} {entries : List (String × FileTree)}
    (directory : top = .directory entries) (plain : ∀ name ∈ names, IsEntryName name)
    (found : top.entryAt? names = some entry) (proper : entry.isLink = false) :
    ∃ target, top.walk maxLinks (pathNames (absolutePath names)) [] = .ok ⟨target, maxLinks⟩ ∧
      target.names = names ∧ target.entry top = entry := by
  obtain ⟨follow, same⟩ : ∃ follow, top.walk maxLinks = top.walkNames maxLinks follow := ⟨_, rfl⟩
  rw [same]
  cases names with
  | nil =>
    cases found
    refine ⟨[], ?_, rfl, rfl⟩
    have path : pathNames (absolutePath []) = ["", ""] := by decide +kernel
    rw [path, walkNames_empty directory, walkNames_empty directory]
    rfl
  | cons name names =>
    rw [pathNames_absolutePath (List.cons_ne_nil name names) plain, walkNames_empty directory]
    have start : (Trail.entry top []).entryAt? (name :: names) = some entry := found
    exact walkNames_of_entryAt? plain start proper

/-- Unless it is too long, such a path locates its entry. -/
theorem locate_absolutePath {entry : FileTree} {entries : List (String × FileTree)}
    (directory : top = .directory entries) (plain : ∀ name ∈ names, IsEntryName name)
    (found : top.entryAt? names = some entry) (proper : entry.isLink = false)
    (short : fits (absolutePath names) = true) :
    (∃ trail, top.locate (absolutePath names) = .ok trail ∧ trail.entry top = entry) ∧
      top.canonicalNames (absolutePath names) = .ok names := by
  obtain ⟨target, walked, same, reached⟩ := walk_absolutePath directory plain found proper
  have noNul : '\x00' ∉ (absolutePath names).toList :=
    notMem_absolutePath (by decide) fun name member => (plain name member).2.2.1
  have checked := checkPath_eq_ok_iff.2 ⟨noNul, absolutePath_ne_empty names⟩
  exact ⟨⟨target, locate_eq_ok_iff.2 ⟨checked, short, _, walked, rfl⟩, reached⟩,
    canonicalNames_eq_ok_iff.2 ⟨checked, ⟨_, walked, same⟩, short⟩⟩

/-- A path of names, one name longer. -/
theorem absolutePath_concat (some : names ≠ []) (name : String) :
    absolutePath (names ++ [name]) = absolutePath names ++ "/" ++ name := by
  rw [absolutePath, absolutePath, String.intercalate_append_of_ne_nil some (List.cons_ne_nil _ _),
    String.intercalate_singleton, String.append_assoc, String.append_assoc, String.append_assoc]

/-- A longer path of names begins with the shorter one. -/
theorem absolutePath_append (names more : List String) :
    ∃ rest, absolutePath (names ++ more) = absolutePath names ++ rest := by
  cases more with
  | nil => exact ⟨"", by rw [List.append_nil, String.append_empty]⟩
  | cons next more =>
    rcases Decidable.em (names = []) with rfl | some
    · refine ⟨String.intercalate "/" (next :: more), ?_⟩
      rw [absolutePath, absolutePath, String.intercalate_nil, String.append_empty, List.nil_append]
    · refine ⟨"/" ++ String.intercalate "/" (next :: more), ?_⟩
      rw [absolutePath, absolutePath, String.intercalate_append_of_ne_nil some
        (List.cons_ne_nil next more)]
      simp only [String.append_assoc]

/-- A path of names does not end with a slash, unless it is the path of the top. -/
theorem getLast?_absolutePath (some : names ≠ []) (plain : ∀ name ∈ names, IsEntryName name) :
    (absolutePath names).toList.getLast? ≠ .some '/' := by
  obtain ⟨front, last, rfl⟩ := (List.eq_nil_or_concat names).resolve_left some
  obtain ⟨⟨notEmpty, -⟩, noSlash, -⟩ := plain last (by simp)
  have ending : ∃ start, absolutePath (front ++ [last]) = start ++ last := by
    rcases Decidable.em (front = []) with rfl | more
    · exact ⟨"/", rfl⟩
    · exact ⟨_, absolutePath_concat more last⟩
  obtain ⟨start, text⟩ := ending
  have written : last.toList ≠ [] := fun empty => notEmpty (String.toList_eq_nil_iff.1 empty)
  obtain ⟨c, ends⟩ := Option.isSome_iff_exists.1 (List.getLast?_isSome.2 written)
  rw [List.concat_eq_append, text, String.toList_append, List.getLast?_append, ends]
  rintro ⟨⟩
  exact noSlash (List.mem_of_getLast? ends)

/-- Joining one more name to a path of names. -/
theorem joinPath_absolutePath (plain : ∀ name ∈ names, IsEntryName name) (name : String) :
    joinPath (absolutePath names) name = absolutePath (names ++ [name]) := by
  rcases Decidable.em (names = []) with rfl | some
  · have slash : (absolutePath []).toList.getLast? = .some '/' := by decide +kernel
    rw [joinPath, if_pos slash, absolutePath, absolutePath, String.intercalate_nil,
      String.append_empty, List.nil_append, String.intercalate_singleton]
  · rw [joinPath, if_neg (getLast?_absolutePath some plain), absolutePath_concat some]

theorem foldl_joinPath_absolutePath {more : List String} (plain : ∀ name ∈ names, IsEntryName name)
    (others : ∀ name ∈ more, IsEntryName name) :
    more.foldl joinPath (absolutePath names) = absolutePath (names ++ more) := by
  induction more generalizing names with
  | nil => rw [List.foldl_nil, List.append_nil]
  | cons name more ih =>
    obtain ⟨here, later⟩ := List.forall_mem_cons.1 others
    have next : ∀ part ∈ names ++ [name], IsEntryName part := by
      intro part member
      rcases List.mem_append.1 member with old | new
      · exact plain part old
      · exact List.mem_singleton.1 new ▸ here
    rw [List.foldl_cons, joinPath_absolutePath plain, ih next later, List.append_assoc,
      List.singleton_append]

end

end Stencil.FileTree
