import Stencil.Proofs.Members
import Stencil.Proofs.UniqueKeys
import Stencil.Proofs.Updates

/-!
Merging.

Where the update has nothing under a key, the value there stays; where it has something, that
is merged into what is there, and something missing counts as an empty mapping
(`Value.get?_mergeEntries`). So a merge does at the end of a chain of keys what it does at the
top (`Value.atKeys?_merge`).

* `Store.merge_spec`: what a merge into a store changes, what it keeps, and in which order the
  keys are afterwards.
* `Value.merge_twice`: an update that is merged again changes nothing.
* `Store.uniqueKeys_run`: every store that is reached has one entry for each key.
-/

namespace Stencil

namespace Value

/-! ## Entries -/

/-- Where nothing is under a key, the incoming value is put there as it is. -/
theorem mergeEntries_cons (existing : List (String × Value)) (key : String) (value : Value)
    (incoming : List (String × Value)) :
    mergeEntries existing ((key, value) :: incoming) =
      mergeEntries (Fields.alter key (·.elim value (·.merge value)) existing) incoming := by
  rw [mergeEntries]
  congr 2
  funext slot
  cases slot <;> rfl

theorem mergeEntries_of_nodup {existing incoming : List (String × Value)}
    (nodup : (Fields.keys (existing ++ incoming)).Nodup) :
    mergeEntries existing incoming = existing ++ incoming := by
  induction incoming generalizing existing with
  | nil => rw [mergeEntries, List.append_nil]
  | cons entry incoming ih =>
    obtain ⟨key, value⟩ := entry
    have absent : key ∉ Fields.keys existing := by
      intro member
      rw [Fields.keys_append] at nodup
      exact (List.nodup_append.1 nodup).2.2 key member key List.mem_cons_self rfl
    rw [List.append_cons] at nodup
    rw [mergeEntries_cons, Fields.alter_of_notMem absent, Option.elim_none, ih nodup,
      List.append_assoc, List.singleton_append]

/-- To put a value where nothing is, is to merge it into an empty mapping. -/
theorem empty_merge {v : Value} (h : v.UniqueKeys) : (mapping []).merge v = v := by
  cases h with
  | scalar text => rfl
  | list each => rfl
  | mapping nodup each => exact congrArg mapping (mergeEntries_of_nodup nodup)

/-- Whatever a mapping is merged into, it is merged into its entries. -/
theorem merge_mapping {incoming : List (String × Value)} (h : (mapping incoming).UniqueKeys)
    (v : Value) : v.merge (mapping incoming) = mapping (mergeEntries v.entries incoming) := by
  cases v with
  | mapping entries => rfl
  | scalar text => exact (empty_merge h).symm
  | list items => exact (empty_merge h).symm

theorem get?_mergeEntries {incoming : List (String × Value)} (h : (mapping incoming).UniqueKeys)
    (existing : List (String × Value)) (key : String) :
    Fields.get? key (mergeEntries existing incoming) =
      match Fields.get? key incoming with
      | none => Fields.get? key existing
      | some value => some (((Fields.get? key existing).getD (mapping [])).merge value) := by
  induction incoming generalizing existing with
  | nil => rfl
  | cons entry incoming ih =>
    obtain ⟨k, value⟩ := entry
    obtain ⟨ofValue, absent, others⟩ := h.of_cons
    rw [mergeEntries_cons, ih others, Fields.get?]
    by_cases here : k = key
    · subst here
      rw [Fields.get?_eq_none_iff.2 absent, if_pos rfl, Fields.get?_alter, if_pos rfl]
      cases Fields.get? k existing with
      | none => exact congrArg some (empty_merge ofValue).symm
      | some slot => rfl
    · have apart : ¬ key = k := fun e => here e.symm
      rw [if_neg here, Fields.get?_alter, if_neg apart]

/-- Old keys stay in their order, and new keys come behind them in the order of the update. -/
theorem keys_mergeEntries {incoming : List (String × Value)}
    (nodup : (Fields.keys incoming).Nodup) (existing : List (String × Value)) :
    Fields.keys (mergeEntries existing incoming) =
      Fields.keys existing ++ (Fields.keys incoming).filter (· ∉ Fields.keys existing) := by
  induction incoming generalizing existing with
  | nil => exact (List.append_nil _).symm
  | cons entry incoming ih =>
    obtain ⟨key, value⟩ := entry
    obtain ⟨absent, others⟩ := List.nodup_cons.1 nodup
    rw [mergeEntries_cons, ih others, Fields.keys_alter, Fields.keys_cons]
    by_cases old : key ∈ Fields.keys existing
    · rw [if_pos old, List.filter_cons_of_neg (by simpa using old)]
    · have same : (Fields.keys incoming).filter (· ∉ Fields.keys existing ++ [key]) =
          (Fields.keys incoming).filter (· ∉ Fields.keys existing) := by
        apply List.filter_congr
        intro other member
        have apart : other ≠ key := fun e => absent (e ▸ member)
        simp [apart]
      rw [if_neg old, same, List.filter_cons_of_pos (by simpa using old), List.append_assoc,
        List.singleton_append]

/-- What is merged everywhere already is not changed by merging it. -/
theorem mergeEntries_eq_self {existing incoming : List (String × Value)}
    (merged : ∀ key value, (key, value) ∈ incoming →
      ∃ slot, Fields.get? key existing = some slot ∧ slot.merge value = slot) :
    mergeEntries existing incoming = existing := by
  induction incoming with
  | nil => rfl
  | cons entry incoming ih =>
    obtain ⟨key, value⟩ := entry
    obtain ⟨slot, found, same⟩ := merged key value List.mem_cons_self
    rw [mergeEntries_cons, Fields.alter_of_get? found same]
    exact ih fun other w member => merged other w (.tail _ member)

/-! ## Chains of keys -/

/-- A merge goes on where the update leads, and something missing counts as an empty mapping. -/
theorem atKeys?_merge {update below : Value} (h : update.UniqueKeys) {keys : List String}
    (leads : update.atKeys? keys = some below) (v : Value) :
    (v.merge update).atKeys? keys =
      some (((v.atKeys? keys).getD (mapping [])).merge below) := by
  induction keys generalizing update v with
  | nil =>
    cases leads
    rfl
  | cons key keys ih =>
    rw [atKeys?_cons] at leads
    obtain ⟨next, found, rest⟩ := Option.bind_eq_some_iff.1 leads
    cases h with
    | scalar text => cases found
    | list each => cases found
    | mapping nodup each =>
      rw [entries_mapping] at found
      have merged := ih (each key next found) rest ((Fields.get? key v.entries).getD (mapping []))
      have entry := get?_mergeEntries (.mapping nodup each) v.entries key
      rw [found] at entry
      rw [merge_mapping (.mapping nodup each), atKeys?_cons, atKeys?_cons, entries_mapping, entry,
        Option.bind_some, merged]
      cases Fields.get? key v.entries with
      | some there => rfl
      | none => cases keys <;> rfl

/-- What comes of merging an update into a value. -/
structure Merged (before update after : Value) : Prop where
  /-- A chain of keys that leads to anything but a mapping in the update leads to the same value
  afterwards. -/
  replaced : ∀ keys leaf, update.atKeys? keys = some leaf → leaf.isMapping = false →
    after.atKeys? keys = some leaf
  /-- A path that goes through mappings on both sides, and then takes a key that the update does
  not have, reads what it read before. -/
  kept : ∀ (front : Path) (step : Step) (rest : Path) (entries incoming : List (String × Value)),
    before.atKeys? (front.map Step.text) = some (.mapping entries) →
    update.atKeys? (front.map Step.text) = some (.mapping incoming) →
    step.text ∉ Fields.keys incoming →
    after.get? (front ++ step :: rest) = before.get? (front ++ step :: rest)
  /-- Where mappings meet, the old keys stay in their order, and the new ones come behind them in
  the order of the update. -/
  ordered : ∀ (keys : List String) (entries incoming : List (String × Value)),
    before.atKeys? keys = some (.mapping entries) →
    update.atKeys? keys = some (.mapping incoming) →
    ∃ merged, after.atKeys? keys = some (.mapping merged) ∧
      Fields.keys merged =
        Fields.keys entries ++ (Fields.keys incoming).filter (· ∉ Fields.keys entries)

theorem merge_of_not_isMapping {leaf : Value} (h : leaf.isMapping = false) (v : Value) :
    v.merge leaf = leaf := by
  cases leaf with
  | mapping entries => cases h
  | scalar text => rfl
  | list items => rfl

theorem UniqueKeys.of_atKeys? {v below : Value} (h : v.UniqueKeys) {keys : List String}
    (leads : v.atKeys? keys = some below) : below.UniqueKeys := by
  induction keys generalizing v with
  | nil =>
    cases leads
    exact h
  | cons key keys ih =>
    rw [atKeys?_cons] at leads
    obtain ⟨next, found, rest⟩ := Option.bind_eq_some_iff.1 leads
    cases h.entries with
    | mapping nodup each => exact ih (each key next found) rest

/-- Where mappings meet, their entries are merged. -/
theorem atKeys?_merge_mapping {v update : Value} (h : update.UniqueKeys) {keys : List String}
    {entries incoming : List (String × Value)} (old : v.atKeys? keys = some (mapping entries))
    (new : update.atKeys? keys = some (mapping incoming)) :
    (v.merge update).atKeys? keys = some (mapping (mergeEntries entries incoming)) := by
  rw [atKeys?_merge h new, old, Option.getD_some, merge_mapping (h.of_atKeys? new), entries_mapping]

theorem merged_merge {update : Value} (h : update.UniqueKeys) (v : Value) :
    Merged v update (v.merge update) where
  replaced := by
    intro keys leaf leads flat
    rw [atKeys?_merge h leads, merge_of_not_isMapping flat]
  kept := by
    intro front step rest entries incoming old new absent
    have after := get?_of_atKeys? (atKeys?_merge_mapping h old new)
    rw [get?_append, get?_append, after, get?_of_atKeys? old, Option.bind_some, Option.bind_some,
      get?, get?, child?_mapping, child?_mapping, get?_mergeEntries (h.of_atKeys? new),
      Fields.get?_eq_none_iff.2 absent]
  ordered := by
    intro keys entries incoming old new
    refine ⟨_, atKeys?_merge_mapping h old new, ?_⟩
    cases h.of_atKeys? new with
    | mapping nodup each => exact keys_mergeEntries nodup entries

/-! ## Redelivery -/

/-- An update that has been merged changes nothing when it is merged again. -/
theorem merge_merge {update : Value} (unique : update.UniqueKeys) (v : Value) :
    (v.merge update).merge update = v.merge update := by
  induction unique generalizing v with
  | scalar text => rfl
  | list each => rfl
  | @mapping incoming nodup each ih =>
    have unique := UniqueKeys.mapping nodup each
    rw [merge_mapping unique, merge_mapping unique, entries_mapping]
    apply congrArg mapping
    -- The first merge has left under each key a value that the update has been merged into.
    apply mergeEntries_eq_self
    intro key value member
    have found := Fields.get?_of_mem nodup member
    refine ⟨_, ?_, ih key value found ((Fields.get? key v.entries).getD (mapping []))⟩
    rw [get?_mergeEntries unique, found]

/-- An update may come twice: merged again it changes nothing, not even the order of keys, and
a value that is merged into itself stays as it is. All values that are made of documents or by
updates have unique keys. -/
theorem merge_twice {update : Value} (unique : update.UniqueKeys) :
    (∀ v : Value, (v.merge update).merge update = v.merge update) ∧
      update.merge update = update := by
  refine ⟨merge_merge unique, ?_⟩
  calc
    update.merge update = ((mapping []).merge update).merge update := by rw [empty_merge unique]
    _ = (mapping []).merge update := merge_merge unique (mapping [])
    _ = update := empty_merge unique

/-- An update that makes mappings of a scalar and of nothing, and a list of a mapping. -/
theorem merge_twice_hosts :
    let update := Value.ofJson (.object [("b", .object [("ip", .string "2"), ("up", .bool true)]),
      ("c", .object [("mac", .null)]), ("a", .array [.object []])])
    let v := mapping [("a", mapping [("ip", scalar "1")]), ("b", scalar "x")]
    update.UniqueKeys ∧ update.merge update = update ∧
      (v.merge update).merge update = v.merge update ∧
      v.merge update = mapping [("a", list [mapping []]),
        ("b", mapping [("ip", scalar "2"), ("up", scalar "1")]), ("c", mapping [("mac", scalar "")])] := by
  intro update v
  have unique : update.UniqueKeys := .ofJson _
  exact ⟨unique, (merge_twice unique).2, (merge_twice unique).1 v, by rfl⟩

/-! ## Unique keys -/

/-- A merge leaves one entry for each key. -/
theorem UniqueKeys.merge {v update : Value} (old : v.UniqueKeys) (new : update.UniqueKeys) :
    (v.merge update).UniqueKeys := by
  induction new generalizing v with
  | scalar text => exact .scalar text
  | list each => exact .list each
  | @mapping incoming nodup each ih =>
    rw [merge_mapping (.mapping nodup each)]
    cases old.entries with
    | mapping oldNodup oldEach =>
      refine .mapping ?keys ?values
      case keys =>
        rw [keys_mergeEntries nodup]
        refine List.nodup_append.2 ⟨oldNodup, nodup.filter _, ?_⟩
        rintro key there _ new rfl
        exact absurd there (by simpa using (List.mem_filter.1 new).2)
      case values =>
        intro key value found
        rw [get?_mergeEntries (.mapping nodup each)] at found
        cases incomes : Fields.get? key incoming with
        | none =>
          rw [incomes] at found
          exact oldEach key value found
        | some w =>
          rw [incomes] at found
          cases found
          apply ih key w incomes
          cases there : Fields.get? key v.entries with
          | none => exact .empty
          | some slot => exact oldEach key slot there

end Value

namespace Store

/-- A merge does to a store what `Value.Merged` says of its root, and anything but an object is
refused and leaves the store as it was. What is merged is the update itself, member by member: each
chain of keys leads to the same in it and in its value, the last of several members under one key,
and an object there has its keys in the order in which each comes first. -/
theorem merge_spec (s : Store) (update : Json) :
    (∀ members, update = .object members →
      (s.merge update).2 = .ok () ∧
        Value.Merged s.root (.ofJson update) (s.merge update).1.root) ∧
    ((∀ members, update ≠ .object members) →
      s.merge update = (s, .error (.updateNotObject update.kindName))) ∧
    (∀ keys, (Value.ofJson update).atKeys? keys = (update.atKeys? keys).map .ofJson) ∧
    (∀ keys members, update.atKeys? keys = some (.object members) →
      ∃ incoming, (Value.ofJson update).atKeys? keys = some (.mapping incoming) ∧
        Fields.keys incoming = (Fields.keys members).eraseDups) := by
  refine ⟨?object, ?other, Value.atKeys?_ofJson update, ?keys⟩
  case object =>
    intro members same
    cases same
    exact ⟨rfl, Value.merged_merge (.ofJson _) s.root⟩
  case other =>
    intro other
    cases update with
    | object members => exact absurd rfl (other members)
    | _ => rfl
  case keys =>
    intro keys members leads
    refine ⟨Value.ofMembers [] members, ?_, Value.keys_ofMembers_nil members⟩
    rw [Value.atKeys?_ofJson, leads]
    rfl

/-- A store that gets an update twice is as it was after the first time, and so is the outcome. -/
theorem merge_redelivered (s : Store) (update : Json) :
    (s.merge update).1.merge update = s.merge update := by
  cases update with
  | object members =>
    have same := Value.merge_merge (.ofJson (.object members)) s.root
    exact Prod.ext (congrArg Store.mk same) rfl
  | _ => rfl

/-! ## Runs -/

theorem Fresh.uniqueKeys {s : Store} (h : s.Fresh) : s.root.UniqueKeys := by
  cases h with
  | empty => exact .empty
  | @ofJson json _ built =>
    cases json with
    | object members =>
      cases built
      exact .ofJson (.object members)
    | _ => cases built

theorem uniqueKeys_apply {s : Store} (h : s.root.UniqueKeys) {update : Update}
    (values : ∀ dotted value, update = .set dotted value → value.UniqueKeys) :
    (s.apply update).root.UniqueKeys := by
  cases update with
  | set dotted value => exact h.assign (.parse dotted) (values dotted value rfl)
  | merge json =>
    cases json with
    | object members => exact h.merge (.ofJson _)
    | _ => exact h

/-- A run from a store with unique keys, as every fresh one is, leads to such stores only, if the
values that are set have unique keys. -/
theorem uniqueKeys_run {start : Store} (first : start.root.UniqueKeys) {updates : List Update}
    (values : ∀ dotted value, .set dotted value ∈ updates → value.UniqueKeys) :
    (start.run updates).root.UniqueKeys := by
  induction updates generalizing start with
  | nil => exact first
  | cons update updates ih =>
    refine ih (uniqueKeys_apply first ?here) ?later
    case here =>
      intro dotted value same
      exact values dotted value (same ▸ List.mem_cons_self)
    case later =>
      intro dotted value member
      exact values dotted value (.tail _ member)

end Store

end Stencil
