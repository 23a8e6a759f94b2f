import Mathlib.Data.List.Basic
import Mathlib.Data.List.Induction
import Stencil.Proofs.Caching

/-!
Runs of a cache over a source that changes.

The calls of a run get templates, put texts in and forget names while the texts of the
source change between them. What they do to the cache is told by the texts alone: the
`journal` of a run says which text was kept under which name, and which name was forgotten.
`Cache.Sound.run_eq_writes` says that the cache does what its journal says.

`Cache.run_spec` is what a caller may rely on after any run. It speaks of objects and not
only of templates, since an owner of a template tells by the object whether it was parsed
again.
-/

namespace Stencil

open Template (Accepted)

/-! ## What a source offers -/

namespace Source

/-- The text that a source has under a name, if it has one and the text is accepted. -/
def offer? (source : Source) (strict : Bool) (name : String) : Option String :=
  match source.load name with
  | .error _ => none
  | .ok raw => if Accepted strict raw then some raw else none

/-- The accepted texts under the given names, up to the first name without one. -/
def offers (source : Source) (strict : Bool) : List String → List (String × String)
  | [] => []
  | name :: names =>
    match source.offer? strict name with
    | none => []
    | some raw => (name, raw) :: source.offers strict names

/-- The names that a source tells of. -/
def listed (source : Source) : List String := source.list.get.toOption.getD []

variable {source : Source} {strict : Bool} {name raw : String}

theorem load_of_offer? (h : source.offer? strict name = some raw) :
    source.load name = .ok raw ∧ Accepted strict raw := by
  unfold offer? at h
  split at h
  · cases h
  · rename_i text loaded
    split at h
    · cases h
      exact ⟨loaded, ‹_›⟩
    · cases h

theorem mem_of_mem_offers {names : List String} {field : String × String}
    (h : field ∈ source.offers strict names) :
    field.1 ∈ names ∧ source.offer? strict field.1 = some field.2 := by
  induction names with
  | nil => cases h
  | cons name names ih =>
    rw [offers] at h
    split at h
    · cases h
    · rcases List.mem_cons.1 h with rfl | later
      · exact ⟨List.mem_cons_self, ‹_›⟩
      · obtain ⟨member, offer⟩ := ih later
        exact ⟨.tail _ member, offer⟩

end Source

namespace Cache

/-! ## Calls -/

/-- A call of a cache. -/
inductive Call
  | get (name : String)
  | insertRaw (name raw : String)
  | cached (name : String)
  | invalidate (name : String)
  | loadAll

/-- The cache after a call, with the source as it is at that moment. -/
def after (c : Cache) (source : Source) : Call → Cache
  | .get name => (c.get source name).2
  | .insertRaw name raw => (c.insertRaw name raw).2
  | .cached _ => c
  | .invalidate name => (c.invalidate name).2
  | .loadAll => (c.loadAll source).2

/-- The cache after a sequence of calls, each with the source of its moment. -/
def run (c : Cache) (steps : List (Source × Call)) : Cache :=
  steps.foldl (fun c step => c.after step.1 step.2) c

/-- The names that a call is about. -/
def Call.names (source : Source) : Call → List String
  | get name | insertRaw name _ | cached name | invalidate name => [name]
  | loadAll => source.listed

/-- What a call changes, told by the texts of the source. -/
def Call.writes (strict : Bool) (source : Source) : Call → List Write
  | get name => ((source.offer? strict name).map (.keep name)).toList
  | insertRaw name raw => if Accepted strict raw then [.keep name raw] else []
  | cached _ => []
  | invalidate name => [.forget name]
  | loadAll => (source.offers strict source.listed).map fun (name, raw) => .keep name raw

/-- What a sequence of calls changes. -/
def journal (strict : Bool) (steps : List (Source × Call)) : List Write :=
  steps.flatMap fun step => step.2.writes strict step.1

/-- A call writes under the names that it is about. -/
theorem Call.name_mem_of_mem_writes {strict : Bool} {source : Source} {call : Call} {w : Write}
    (h : w ∈ call.writes strict source) : w.name ∈ call.names source := by
  cases call with
  | get name =>
    obtain ⟨raw, -, rfl⟩ := Option.map_eq_some_iff.1 (Option.mem_toList.1 h)
    exact List.mem_singleton_self name
  | insertRaw name raw =>
    rw [Call.writes] at h
    split at h
    · rw [List.mem_singleton.1 h]
      exact List.mem_singleton_self name
    · cases h
  | cached name => cases h
  | invalidate name =>
    rw [List.mem_singleton.1 h]
    exact List.mem_singleton_self name
  | loadAll =>
    obtain ⟨field, member, rfl⟩ := List.mem_map.1 h
    exact (Source.mem_of_mem_offers member).1

variable {name raw : String}

/-- Only accepted texts are kept. -/
theorem Call.accepted_of_mem_writes {strict : Bool} {source : Source} {call : Call}
    (h : .keep name raw ∈ call.writes strict source) : Accepted strict raw := by
  cases call with
  | get other =>
    obtain ⟨text, offer, ⟨⟩⟩ := Option.map_eq_some_iff.1 (Option.mem_toList.1 h)
    exact (Source.load_of_offer? offer).2
  | insertRaw other text =>
    rw [Call.writes] at h
    split at h
    · rename_i accepted
      cases List.mem_singleton.1 h
      exact accepted
    · cases h
  | cached other => cases h
  | invalidate other => cases List.mem_singleton.1 h
  | loadAll =>
    obtain ⟨field, member, ⟨⟩⟩ := List.mem_map.1 h
    exact (Source.load_of_offer? (Source.mem_of_mem_offers member).2).2

theorem accepted_of_mem_journal {strict : Bool} {steps : List (Source × Call)}
    (h : .keep name raw ∈ journal strict steps) : Accepted strict raw := by
  obtain ⟨step, -, member⟩ := List.mem_flatMap.1 h
  exact Call.accepted_of_mem_writes member

/-! ## Calls do what the journal says -/

variable {c : Cache} {source : Source}

namespace Sound

theorem get_of_offer? (h : c.Sound) (offer : source.offer? c.strict name = some raw) :
    ∃ shared, c.get source name = (.ok shared, c.write (.keep name raw)) := by
  obtain ⟨loaded, accepted⟩ := Source.load_of_offer? offer
  obtain ⟨shared, ok⟩ := h.isOk_insertRaw_iff.2 accepted
  refine ⟨shared, ?_⟩
  rw [Cache.get, loaded]
  exact Prod.ext ok rfl

theorem get_of_offer?_none (h : c.Sound) (offer : source.offer? c.strict name = none) :
    ∃ e, c.get source name = (.error e, c) := by
  unfold Source.offer? at offer
  cases loaded : source.load name with
  | error e =>
    rw [Cache.get, loaded]
    exact ⟨e, rfl⟩
  | ok raw =>
    rw [loaded] at offer
    have unaccepted : ¬ Accepted c.strict raw := by
      intro accepted
      simp [accepted] at offer
    rw [Cache.get, loaded]
    cases answer : (c.insertRaw name raw).1 with
    | ok shared => exact absurd (h.isOk_insertRaw_iff.1 ⟨shared, answer⟩) unaccepted
    | error e => exact ⟨e, Prod.ext answer (write_keep_of_not_accepted unaccepted)⟩

/-- A sound cache answers for a name exactly if its source offers a text. -/
theorem isOk_get_iff (h : c.Sound) :
    (∃ shared, (c.get source name).1 = .ok shared) ↔
      (source.offer? c.strict name).isSome = true := by
  cases offer : source.offer? c.strict name with
  | none =>
    obtain ⟨e, refused⟩ := h.get_of_offer?_none offer
    rw [refused]
    simp
  | some raw =>
    obtain ⟨shared, got⟩ := h.get_of_offer? offer
    rw [got]
    exact ⟨fun _ => rfl, fun _ => ⟨shared, rfl⟩⟩

/-- Getting several templates keeps the texts up to the first that is not offered. -/
theorem getAll_eq_writes (h : c.Sound) (names : List String) :
    (c.getAll source names).2 =
      c.writeAll ((source.offers c.strict names).map fun (name, raw) => .keep name raw) := by
  induction names generalizing c with
  | nil => rfl
  | cons name names ih =>
    rw [getAll, Source.offers]
    cases offer : source.offer? c.strict name with
    | none =>
      obtain ⟨e, refused⟩ := h.get_of_offer?_none offer
      rw [refused]
      rfl
    | some raw =>
      obtain ⟨shared, got⟩ := h.get_of_offer? offer
      rw [got]
      have others := ih (h.write (.keep name raw))
      rw [strict_write] at others
      exact others

theorem after_eq_writes (h : c.Sound) (source : Source) (call : Call) :
    c.after source call = c.writeAll (call.writes c.strict source) := by
  cases call with
  | get name =>
    cases offer : source.offer? c.strict name with
    | none =>
      obtain ⟨e, refused⟩ := h.get_of_offer?_none offer
      rw [after, refused, Call.writes, offer]
      rfl
    | some raw =>
      obtain ⟨shared, got⟩ := h.get_of_offer? offer
      rw [after, got, Call.writes, offer]
      rfl
  | insertRaw name raw =>
    rw [after, Call.writes]
    split
    · rfl
    · exact write_keep_of_not_accepted ‹_›
  | cached name => rfl
  | invalidate name => rfl
  | loadAll =>
    rw [after, loadAll, Call.writes, Source.listed]
    cases source.list.get with
    | error e => rfl
    | ok names => exact h.getAll_eq_writes names

/-- A call leaves the entries of all names alone but of those that it is about. -/
theorem get?_after_of_notMem (h : c.Sound) {call : Call} {other : String}
    (apart : other ∉ call.names source) :
    Fields.get? other (c.after source call).entries = Fields.get? other c.entries := by
  rw [h.after_eq_writes]
  apply get?_writeAll_of_ne
  intro w member same
  exact apart (same ▸ Call.name_mem_of_mem_writes member)

/-- A cache does what the journal of its calls says. -/
theorem run_eq_writes (h : c.Sound) (steps : List (Source × Call)) :
    c.run steps = c.writeAll (journal c.strict steps) := by
  induction steps generalizing c with
  | nil => rfl
  | cons step steps ih =>
    have here := h.after_eq_writes step.1 step.2
    have sound : (c.after step.1 step.2).Sound := by
      rw [here]
      exact h.writeAll _
    have same : (c.after step.1 step.2).strict = c.strict := by rw [here, strict_writeAll]
    have later := ih sound
    rw [same] at later
    rw [journal, List.flatMap_cons, writeAll_append, ← here]
    exact later

end Sound

/-- A successful call for several templates is a call for each of them in turn. -/
theorem of_getAll_eq_ok {names : List String} {results : List (String × SharedTemplate)}
    (h : (c.getAll source names).1 = .ok results) :
    results.map Prod.fst = names ∧
      (c.getAll source names).2 = c.run (names.map fun name => (source, .get name)) ∧
      ∀ before name shared behind, results = before ++ (name, shared) :: behind →
        ((c.run (before.map fun field => (source, .get field.1))).get source name).1 =
          .ok shared := by
  induction names generalizing c results with
  | nil =>
    cases h
    refine ⟨rfl, rfl, ?_⟩
    intro before name shared behind split
    exact absurd split (List.append_ne_nil_of_right_ne_nil before (List.cons_ne_nil _ _)).symm
  | cons name names ih =>
    rw [getAll] at h ⊢
    cases got : c.get source name with
    | mk answer next =>
    rw [got] at h
    cases answer with
    | error e => cases h
    | ok shared =>
      have first : (c.get source name).1 = .ok shared := by rw [got]
      have step : c.after source (.get name) = next := by rw [after, got]
      dsimp only at h ⊢
      cases rest : (next.getAll source names).1 with
      | error e =>
        rw [rest] at h
        cases h
      | ok others =>
        rw [rest] at h
        cases h
        obtain ⟨keys, state, answers⟩ := ih rest
        refine ⟨by rw [List.map_cons, keys], ?_, ?_⟩
        · rw [state, List.map_cons, run, run, List.foldl_cons, step]
        · intro before other object behind split
          cases before with
          | nil =>
            cases split
            exact first
          | cons field before =>
            cases split
            have later := answers before other object behind rfl
            rw [← step] at later
            exact later

/-! ## The names in a journal -/

/-- A name that a text was kept under, and that was not forgotten since. -/
def KeptSince (writes : List Write) (name : String) : Prop :=
  ∃ before raw behind, writes = before ++ .keep name raw :: behind ∧ .forget name ∉ behind

theorem not_keptSince_nil (name : String) : ¬ KeptSince [] name := by
  intro ⟨before, _, _, split, _⟩
  exact List.append_ne_nil_of_right_ne_nil before (List.cons_ne_nil _ _) split.symm

/-- The last write of a journal has made the name kept, or leaves it as it was. -/
theorem keptSince_append_singleton {writes : List Write} {w : Write} :
    KeptSince (writes ++ [w]) name ↔
      (∃ raw, w = .keep name raw) ∨ (KeptSince writes name ∧ w ≠ .forget name) := by
  constructor
  · intro ⟨before, raw, behind, split, kept⟩
    rcases List.eq_nil_or_concat' behind with rfl | ⟨front, last, rfl⟩
    · obtain ⟨-, ⟨⟩⟩ := List.append_inj' split rfl
      exact .inl ⟨raw, rfl⟩
    · rw [← List.cons_append, ← List.append_assoc] at split
      obtain ⟨rfl, ⟨⟩⟩ := List.append_inj' split rfl
      rw [List.mem_append, not_or, List.mem_singleton] at kept
      exact .inr ⟨⟨before, raw, front, rfl, kept.1⟩, fun same => kept.2 same.symm⟩
  · intro kept
    rcases kept with ⟨raw, rfl⟩ | ⟨⟨before, raw, behind, rfl, kept⟩, other⟩
    · exact ⟨writes, raw, [], rfl, List.not_mem_nil⟩
    · refine ⟨before, raw, behind ++ [w], List.append_assoc _ _ _, ?_⟩
      rw [List.mem_append, not_or, List.mem_singleton]
      exact ⟨kept, fun same => other same.symm⟩

/-- The names in a cache are those that were kept and not forgotten since. -/
theorem mem_keys_writeAll_iff (strict : Bool) {writes : List Write}
    (accepted : ∀ name raw, .keep name raw ∈ writes → Accepted strict raw) (name : String) :
    name ∈ Fields.keys ((empty strict).writeAll writes).entries ↔ KeptSince writes name := by
  induction writes using List.reverseRecOn with
  | nil => exact ⟨fun member => absurd member List.not_mem_nil, (absurd · (not_keptSince_nil name))⟩
  | append_singleton writes w ih =>
    have earlier := ih fun name raw member => accepted name raw (List.mem_append_left _ member)
    have same : ((empty strict).writeAll writes).strict = strict := strict_writeAll _ _
    rw [writeAll_append, keptSince_append_singleton, ← earlier]
    cases w with
    | keep kept raw =>
      have here := accepted kept raw (List.mem_append_right _ (List.mem_singleton_self _))
      refine (mem_keys_keep_iff (same.symm ▸ here) name).trans ?_
      simp [eq_comm]
    | forget forgotten =>
      refine (mem_keys_forget_iff _ forgotten name).trans ?_
      simp [eq_comm]

/-! ## Runs -/

section Run

variable (strict : Bool) (steps : List (Source × Call))

theorem sound_run : ((empty strict).run steps).Sound := by
  rw [(Sound.empty strict).run_eq_writes steps]
  exact (Sound.empty strict).writeAll _

theorem strict_run : ((empty strict).run steps).strict = strict := by
  rw [(Sound.empty strict).run_eq_writes steps, strict_writeAll]
  rfl

theorem mem_keys_run_iff (name : String) :
    name ∈ Fields.keys ((empty strict).run steps).entries ↔
      KeptSince (journal strict steps) name := by
  rw [(Sound.empty strict).run_eq_writes steps]
  exact mem_keys_writeAll_iff strict (fun _ _ member => accepted_of_mem_journal member) name

/-- An object that the cache had at some time of a run. -/
def Known (old : SharedTemplate) : Prop :=
  ∃ front, front <+: steps ∧
    ∃ field ∈ ((empty strict).run front).entries, field.2.shared = old

/-- What a call has handed out under a name for a text, if it came after a run. -/
structure HandedOut (name raw : String) (shared : SharedTemplate) (next : Cache) : Prop where
  source_eq : shared.template.source = raw
  /-- The object that was cached under the name is handed out again exactly if it is the
  parse of the same text. -/
  same_iff : ((empty strict).run steps).cached? name = some shared ↔
    ((empty strict).run steps).Holds name raw
  kept : ((empty strict).run steps).Holds name raw → next = (empty strict).run steps
  /-- Otherwise it is an object that the cache never had. -/
  new : ¬ ((empty strict).run steps).Holds name raw →
    ∀ old, Known strict steps old → old.serial ≠ shared.serial
  entry_eq : Fields.get? name next.entries = some ⟨raw, shared⟩

variable {strict steps}

theorem Known.serial_lt {old : SharedTemplate} (h : Known strict steps old) :
    old.serial < ((empty strict).run steps).nextSerial := by
  obtain ⟨front, ⟨back, rfl⟩, field, member, rfl⟩ := h
  have sound := sound_run strict front
  have less := sound.below field member
  have grown := nextSerial_le_writeAll ((empty strict).run front)
    (journal ((empty strict).run front).strict back)
  rw [← sound.run_eq_writes] at grown
  rw [run, List.foldl_append]
  exact Nat.lt_of_lt_of_le less grown

theorem handedOut_of_insertRaw {shared : SharedTemplate}
    (ok : (((empty strict).run steps).insertRaw name raw).1 = .ok shared) :
    HandedOut strict steps name raw shared (((empty strict).run steps).insertRaw name raw).2 := by
  have sound := sound_run strict steps
  rcases insertRaw_cases ((empty strict).run steps) name raw with
    ⟨entry, found, rfl, same⟩ | ⟨other, -, added⟩ | ⟨-, -, _, refused⟩
  · rw [same] at ok ⊢
    cases ok
    have held : ((empty strict).run steps).Holds name entry.raw := ⟨entry, found, rfl⟩
    constructor
    case source_eq =>
      rw [(sound.parsed _ (Fields.mem_of_get? found)).template]
      rfl
    case same_iff => exact ⟨fun _ => held, fun _ => by rw [cached?, found]; rfl⟩
    case kept => exact fun _ => rfl
    case new => exact fun other => absurd held other
    case entry_eq => exact found
  · rw [added] at ok ⊢
    cases ok
    constructor
    case source_eq => rfl
    case same_iff =>
      refine ⟨?_, fun held => absurd held other⟩
      intro cached
      -- A cached object is older than the next serial number.
      obtain ⟨entry, found, same⟩ := Option.map_eq_some_iff.1 cached
      have less := sound.below _ (Fields.mem_of_get? found)
      rw [same] at less
      exact absurd less (Nat.lt_irrefl _)
    case kept => exact fun held => absurd held other
    case new => exact fun _ old known => Nat.ne_of_lt known.serial_lt
    case entry_eq =>
      rw [entries_add, Fields.insert, Fields.get?_alter, if_pos rfl]
      rfl
  · rw [refused] at ok
    cases ok

end Run

/-- What holds after any run of a cache over a source that changes.

Every entry is the parse of the text beside it, and a strict cache has none with a problem.
A template that is handed out for a name has the text that the source has at that moment,
or the text that was put in; it is the object that was cached for just this text, or a new
one in its place. Loading all templates is getting each in turn. No call changes the entry
of a name that it is not about, and the size counts the names that were kept and not
forgotten since. -/
theorem run_spec (strict : Bool) (steps : List (Source × Call)) :
    let c := (empty strict).run steps
    (∀ name entry, (name, entry) ∈ c.entries →
      entry.shared.template = .parse entry.raw ∧ entry.shared.template.source = entry.raw ∧
        (strict = true → entry.shared.template.diagnostics = [])) ∧
    ((∀ source name, (∃ shared, (c.get source name).1 = .ok shared) ↔
        (source.offer? strict name).isSome = true) ∧
      ∀ source name shared, (c.get source name).1 = .ok shared →
        ∃ raw, source.load name = .ok raw ∧
          HandedOut strict steps name raw shared (c.get source name).2) ∧
    ((∀ name raw, (∃ shared, (c.insertRaw name raw).1 = .ok shared) ↔ Accepted strict raw) ∧
      ∀ name raw shared, (c.insertRaw name raw).1 = .ok shared →
        HandedOut strict steps name raw shared (c.insertRaw name raw).2) ∧
    (∀ source results, (c.loadAll source).1 = .ok results →
      source.list.get = .ok (results.map Prod.fst) ∧
      (c.loadAll source).2 = c.run (results.map fun field => (source, .get field.1)) ∧
      ∀ before name shared behind, results = before ++ (name, shared) :: behind →
        ((c.run (before.map fun field => (source, .get field.1))).get source name).1 =
          .ok shared) ∧
    (∀ source call other, other ∉ call.names source →
      Fields.get? other (c.after source call).entries = Fields.get? other c.entries) ∧
    (∃ names : List String, names.Nodup ∧ c.size = names.length ∧
      ∀ name, name ∈ names ↔ KeptSince (journal strict steps) name) := by
  intro c
  have sound : c.Sound := sound_run strict steps
  have strictly : c.strict = strict := strict_run strict steps
  refine ⟨?parsed, ⟨?answersGet, ?get⟩, ⟨?answersInsert, ?insertRaw⟩, ?loadAll, ?others, ?size⟩
  case parsed =>
    intro name entry member
    have parsed := sound.parsed _ member
    rw [strictly] at parsed
    rw [parsed.template]
    exact ⟨rfl, rfl, parsed.accepted⟩
  case answersGet =>
    intro source name
    rw [← strictly]
    exact sound.isOk_get_iff
  case get =>
    intro source name shared ok
    rw [Cache.get] at ok ⊢
    cases loaded : source.load name with
    | error e =>
      rw [loaded] at ok
      cases ok
    | ok raw =>
      rw [loaded] at ok
      exact ⟨raw, rfl, handedOut_of_insertRaw ok⟩
  case answersInsert =>
    intro name raw
    rw [← strictly]
    exact sound.isOk_insertRaw_iff
  case insertRaw =>
    intro name raw shared ok
    exact handedOut_of_insertRaw ok
  case loadAll =>
    intro source results ok
    rw [Cache.loadAll] at ok ⊢
    cases listed : source.list.get with
    | error e =>
      rw [listed] at ok
      cases ok
    | ok names =>
      rw [listed] at ok
      obtain ⟨rfl, state, answers⟩ := of_getAll_eq_ok ok
      rw [List.map_map] at state
      exact ⟨rfl, state, answers⟩
  case others =>
    intro source call other apart
    exact sound.get?_after_of_notMem apart
  case size =>
    exact ⟨Fields.keys c.entries, sound.unique, (List.length_map _).symm,
      mem_keys_run_iff strict steps⟩

end Cache

end Stencil
