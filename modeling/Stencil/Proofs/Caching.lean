import Stencil.Cache

/-!
What happens in a cache when a text is put in or a name is forgotten.

A text is met with one of three outcomes (`Cache.insertRaw_cases`): the cache holds its
template already, or the text is parsed and takes the place of what was there, or it is
refused. Only the second changes the cache (`Cache.write_keep_cases`), and from that one
fact come the invariant `Cache.Sound`, the growth of the serial numbers, and the entries
that stay as they are.
-/

namespace Stencil

/-! ## Texts that are accepted -/

/-- Whether a text is accepted: under `strict` its template must not have a problem. -/
def Template.Accepted (strict : Bool) (raw : String) : Prop :=
  strict = true → (Template.parse raw).diagnostics = []

instance (strict : Bool) (raw : String) : Decidable (Template.Accepted strict raw) :=
  inferInstanceAs (Decidable (strict = true → _ = []))

open Template (Accepted)

namespace Template

theorem parseWith_of_accepted {strict : Bool} {raw : String} (h : Accepted strict raw) :
    parseWith strict raw = .ok (parse raw) := by
  cases found : (parse raw).diagnostics with
  | nil => simp only [parseWith, found]
  | cons first others =>
    cases strict with
    | false => simp [parseWith, found]
    | true => cases found.symm.trans (h rfl)

theorem parseWith_of_not_accepted {strict : Bool} {raw : String} (h : ¬ Accepted strict raw) :
    ∃ e, parseWith strict raw = .error e := by
  obtain ⟨rfl, problems⟩ : strict = true ∧ (parse raw).diagnostics ≠ [] := Classical.not_imp.1 h
  cases found : (parse raw).diagnostics with
  | nil => exact absurd found problems
  | cons first others =>
    simp only [parseWith, found, if_true]
    exact ⟨_, rfl⟩

end Template

namespace Cache

/-- A change of what is cached: a text is put in under a name, or a name is forgotten. -/
inductive Write
  | keep (name raw : String)
  | forget (name : String)

/-- The name that is written under. -/
def Write.name : Write → String
  | keep name _ | forget name => name

def write (c : Cache) : Write → Cache
  | .keep name raw => (c.insertRaw name raw).2
  | .forget name => (c.invalidate name).2

def writeAll (c : Cache) (writes : List Write) : Cache := writes.foldl write c

variable {c : Cache} {name raw : String}

/-! ## One text -/

/-- Whether the cache has a template under a name, and from just this text. -/
def Holds (c : Cache) (name raw : String) : Prop :=
  ∃ entry, Fields.get? name c.entries = some entry ∧ entry.raw = raw

theorem entries_add (c : Cache) (name raw : String) (template : Template) :
    (c.add name raw template).2.entries =
      Fields.insert name ⟨raw, ⟨c.nextSerial, template⟩⟩ c.entries := rfl

theorem insertRaw_of_get? {entry : Entry} (found : Fields.get? name c.entries = some entry) :
    c.insertRaw name entry.raw = (.ok entry.shared, c) := by
  simp only [insertRaw, found, if_true]

/-- A text that the cache does not hold is parsed. -/
theorem insertRaw_of_parsed (other : ¬ c.Holds name raw) {template : Template}
    (parsed : Template.parseWith c.strict raw = .ok template) :
    c.insertRaw name raw = (.ok (c.add name raw template).1, (c.add name raw template).2) := by
  cases found : Fields.get? name c.entries with
  | none => simp only [insertRaw, found, parsed]
  | some entry =>
    have differs : ¬ entry.raw = raw := fun same => other ⟨entry, found, same⟩
    simp only [insertRaw, found, if_neg differs, parsed]

theorem insertRaw_of_refused (other : ¬ c.Holds name raw) {e : ParseError}
    (refused : Template.parseWith c.strict raw = .error e) :
    c.insertRaw name raw = (.error (.parse e), c) := by
  cases found : Fields.get? name c.entries with
  | none => simp only [insertRaw, found, refused]
  | some entry =>
    have differs : ¬ entry.raw = raw := fun same => other ⟨entry, found, same⟩
    simp only [insertRaw, found, if_neg differs, refused]

/-- A text is held already, or parsed and put in the place of what was there, or refused. -/
theorem insertRaw_cases (c : Cache) (name raw : String) :
    (∃ entry, Fields.get? name c.entries = some entry ∧ entry.raw = raw ∧
      c.insertRaw name raw = (.ok entry.shared, c)) ∨
    (¬ c.Holds name raw ∧ Accepted c.strict raw ∧
      c.insertRaw name raw =
        (.ok (c.add name raw (.parse raw)).1, (c.add name raw (.parse raw)).2)) ∨
    (¬ c.Holds name raw ∧ ¬ Accepted c.strict raw ∧
      ∃ e, c.insertRaw name raw = (.error e, c)) := by
  by_cases held : c.Holds name raw
  · obtain ⟨entry, found, rfl⟩ := held
    exact .inl ⟨entry, found, rfl, insertRaw_of_get? found⟩
  · right
    by_cases accepted : Accepted c.strict raw
    · left
      exact ⟨held, accepted, insertRaw_of_parsed held (Template.parseWith_of_accepted accepted)⟩
    · right
      obtain ⟨e, refused⟩ := Template.parseWith_of_not_accepted accepted
      exact ⟨held, accepted, .parse e, insertRaw_of_refused held refused⟩

/-! ## Writes -/

theorem writeAll_append (c : Cache) (front back : List Write) :
    c.writeAll (front ++ back) = (c.writeAll front).writeAll back :=
  List.foldl_append

/-- Only an accepted text changes a cache, and only if the cache did not hold it. -/
theorem write_keep_cases (c : Cache) (name raw : String) :
    (c.write (.keep name raw) = c ∧
      (Accepted c.strict raw → c.Holds name raw)) ∨
    (Accepted c.strict raw ∧ c.write (.keep name raw) = (c.add name raw (.parse raw)).2) := by
  change ((c.insertRaw name raw).2 = c ∧ _) ∨ (_ ∧ (c.insertRaw name raw).2 = _)
  rcases insertRaw_cases c name raw with
    ⟨entry, found, same, kept⟩ | ⟨-, accepted, added⟩ | ⟨-, unaccepted, _, refused⟩
  · rw [kept]
    exact .inl ⟨rfl, fun _ => ⟨entry, found, same⟩⟩
  · rw [added]
    exact .inr ⟨accepted, rfl⟩
  · rw [refused]
    exact .inl ⟨rfl, fun accepted => absurd accepted unaccepted⟩

/-- A text that is not accepted changes nothing. -/
theorem write_keep_of_not_accepted (h : ¬ Accepted c.strict raw) :
    c.write (.keep name raw) = c := by
  rcases write_keep_cases c name raw with ⟨kept, -⟩ | ⟨accepted, -⟩
  · exact kept
  · exact absurd accepted h

@[simp] theorem strict_write (c : Cache) (w : Write) : (c.write w).strict = c.strict := by
  cases w with
  | forget name => rfl
  | keep name raw =>
    rcases write_keep_cases c name raw with ⟨kept, -⟩ | ⟨-, added⟩
    · rw [kept]
    · rw [added]
      rfl

@[simp] theorem strict_writeAll (c : Cache) (writes : List Write) :
    (c.writeAll writes).strict = c.strict :=
  List.foldlRecOn (motive := fun next => next.strict = c.strict) writes write rfl
    fun before same w _ => (strict_write before w).trans same

/-- Serial numbers are never used again. -/
theorem nextSerial_le_write (c : Cache) (w : Write) : c.nextSerial ≤ (c.write w).nextSerial := by
  cases w with
  | forget name => exact Nat.le_refl _
  | keep name raw =>
    rcases write_keep_cases c name raw with ⟨kept, -⟩ | ⟨-, added⟩
    · exact Nat.le_of_eq (congrArg nextSerial kept.symm)
    · rw [added]
      exact Nat.le_succ _

theorem nextSerial_le_writeAll (c : Cache) (writes : List Write) :
    c.nextSerial ≤ (c.writeAll writes).nextSerial :=
  List.foldlRecOn (motive := fun next => c.nextSerial ≤ next.nextSerial) writes write
    (Nat.le_refl _) fun before grown w _ => Nat.le_trans grown (nextSerial_le_write before w)

/-- A write under one name leaves the others alone. -/
theorem get?_write_of_ne (c : Cache) {w : Write} {other : String} (h : other ≠ w.name) :
    Fields.get? other (c.write w).entries = Fields.get? other c.entries := by
  cases w with
  | forget name =>
    have apart : other ≠ name := h
    change Fields.get? other (Fields.erase name c.entries) = _
    rw [Fields.get?_erase, if_neg apart]
  | keep name raw =>
    have apart : other ≠ name := h
    rcases write_keep_cases c name raw with ⟨kept, -⟩ | ⟨-, added⟩
    · rw [kept]
    · rw [added, entries_add, Fields.insert, Fields.get?_alter, if_neg apart]

theorem get?_writeAll_of_ne (c : Cache) {writes : List Write} {other : String}
    (h : ∀ w ∈ writes, other ≠ w.name) :
    Fields.get? other (c.writeAll writes).entries = Fields.get? other c.entries :=
  List.foldlRecOn
    (motive := fun next => Fields.get? other next.entries = Fields.get? other c.entries)
    writes write rfl fun before same w member => (get?_write_of_ne before (h w member)).trans same

/-- The names after an accepted text has been put in. -/
theorem mem_keys_keep_iff (accepted : Accepted c.strict raw) (other : String) :
    other ∈ Fields.keys (c.write (.keep name raw)).entries ↔
      other = name ∨ other ∈ Fields.keys c.entries := by
  rcases write_keep_cases c name raw with ⟨kept, holds⟩ | ⟨-, added⟩
  · obtain ⟨entry, found, -⟩ := holds accepted
    rw [kept]
    refine ⟨.inr, ?_⟩
    intro member
    rcases member with rfl | member
    · exact List.mem_map_of_mem (Fields.mem_of_get? found)
    · exact member
  · rw [added, entries_add, Fields.insert, Fields.keys_alter]
    split
    · rename_i present
      refine ⟨.inr, ?_⟩
      intro member
      rcases member with rfl | member
      · exact present
      · exact member
    · rw [List.mem_append, List.mem_singleton, or_comm]

theorem mem_keys_forget_iff (c : Cache) (name other : String) :
    other ∈ Fields.keys (c.write (.forget name)).entries ↔
      other ∈ Fields.keys c.entries ∧ other ≠ name := by
  change other ∈ Fields.keys (Fields.erase name c.entries) ↔ _
  rw [Fields.keys_erase, List.mem_filter, decide_eq_true_eq]

/-! ## The invariant -/

/-- An entry whose template is the parse of the text beside it, and a text that is
accepted. -/
structure Entry.Parsed (strict : Bool) (entry : Entry) : Prop where
  template : entry.shared.template = .parse entry.raw
  accepted : Accepted strict entry.raw

/-- What holds of a cache in use. -/
structure Sound (c : Cache) : Prop where
  /-- No name has two entries. -/
  unique : (Fields.keys c.entries).Nodup
  parsed : ∀ field ∈ c.entries, field.2.Parsed c.strict
  /-- The next serial number is new. -/
  below : ∀ field ∈ c.entries, field.2.shared.serial < c.nextSerial

namespace Sound

theorem empty (strict : Bool) : (Cache.empty strict).Sound where
  unique := List.nodup_nil
  parsed := fun _ member => absurd member List.not_mem_nil
  below := fun _ member => absurd member List.not_mem_nil

theorem add (h : c.Sound) (name : String) (accepted : Accepted c.strict raw) :
    (c.add name raw (.parse raw)).2.Sound where
  unique := Fields.nodup_keys_alter h.unique name _
  parsed := by
    intro field member
    rcases Fields.mem_of_mem_insert member with rfl | old
    · exact ⟨rfl, accepted⟩
    · exact h.parsed field old
  below := by
    intro field member
    rcases Fields.mem_of_mem_insert member with rfl | old
    · exact Nat.lt_succ_self _
    · exact Nat.lt_succ_of_lt (h.below field old)

theorem invalidate (h : c.Sound) (name : String) : (c.invalidate name).2.Sound where
  unique := by
    change (Fields.keys (Fields.erase name c.entries)).Nodup
    rw [Fields.keys_erase]
    exact h.unique.filter _
  parsed := fun field member => h.parsed field ((List.mem_filter.1 member).1)
  below := fun field member => h.below field ((List.mem_filter.1 member).1)

theorem write (h : c.Sound) (w : Write) : (c.write w).Sound := by
  cases w with
  | forget name => exact h.invalidate name
  | keep name raw =>
    rcases write_keep_cases c name raw with ⟨kept, -⟩ | ⟨accepted, added⟩
    · rw [kept]
      exact h
    · rw [added]
      exact h.add name accepted

theorem writeAll (h : c.Sound) (writes : List Write) : (c.writeAll writes).Sound :=
  List.foldlRecOn writes Cache.write h fun _ sound w _ => sound.write w

/-- A sound cache answers for a text exactly if the text is accepted. -/
theorem isOk_insertRaw_iff (h : c.Sound) :
    (∃ shared, (c.insertRaw name raw).1 = .ok shared) ↔ Accepted c.strict raw := by
  rcases insertRaw_cases c name raw with
    ⟨entry, found, rfl, kept⟩ | ⟨-, accepted, added⟩ | ⟨-, unaccepted, _, refused⟩
  · rw [kept]
    exact ⟨fun _ => (h.parsed _ (Fields.mem_of_get? found)).accepted, fun _ => ⟨_, rfl⟩⟩
  · rw [added]
    exact ⟨fun _ => accepted, fun _ => ⟨_, rfl⟩⟩
  · rw [refused]
    refine ⟨?_, fun accepted => absurd accepted unaccepted⟩
    intro ⟨_, ok⟩
    cases ok

end Sound

end Cache

end Stencil
