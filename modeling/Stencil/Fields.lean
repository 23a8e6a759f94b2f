/-!
Ordered fields: values under text keys, in the order in which the keys first
came. `alter` is the one way to write: it changes a key in its place or adds it
at the end, so no key ever moves.
-/

namespace Stencil.Fields

variable {α : Type}

/-- The value under a key. -/
def get? (key : String) : List (String × α) → Option α
  | [] => none
  | (k, v) :: rest => if k = key then some v else get? key rest

/-- Changes the value under a key, or adds the key at the end. -/
def alter (key : String) (f : Option α → α) : List (String × α) → List (String × α)
  | [] => [(key, f none)]
  | (k, v) :: rest => if k = key then (k, f (some v)) :: rest else (k, v) :: alter key f rest

/-- Sets the value under a key. -/
def insert (key : String) (value : α) (fields : List (String × α)) : List (String × α) :=
  alter key (fun _ => value) fields

/-- The fields without a key. -/
def erase (key : String) (fields : List (String × α)) : List (String × α) :=
  fields.filter fun (k, _) => k ≠ key

/-- The keys in order. -/
def keys (fields : List (String × α)) : List String := fields.map Prod.fst

@[simp] theorem keys_cons (key : String) (value : α) (rest : List (String × α)) :
    keys ((key, value) :: rest) = key :: keys rest := rfl

theorem keys_append (front back : List (String × α)) :
    keys (front ++ back) = keys front ++ keys back := List.map_append

theorem get?_alter (key other : String) (f : Option α → α) (fields : List (String × α)) :
    get? other (alter key f fields) =
      if other = key then some (f (get? key fields)) else get? other fields := by
  induction fields with
  | nil =>
    by_cases h : other = key
    · simp [alter, get?, h]
    · have : ¬ key = other := fun e => h e.symm
      simp [alter, get?, h, this]
  | cons field rest ih =>
    obtain ⟨k, v⟩ := field
    by_cases hk : k = key
    · by_cases h : other = key
      · simp [alter, get?, hk, h]
      · have : ¬ key = other := fun e => h e.symm
        simp [alter, get?, hk, h, this]
    · by_cases h : k = other
      · subst h; simp [alter, get?, hk]
      · simp [alter, get?, hk, h, ih]

theorem get?_eq_none_iff {key : String} {fields : List (String × α)} :
    get? key fields = none ↔ key ∉ keys fields := by
  induction fields with
  | nil => simp [get?, keys]
  | cons field rest ih =>
    obtain ⟨k, v⟩ := field
    rw [keys_cons, List.mem_cons, not_or, get?]
    by_cases h : k = key
    · simp [h]
    · rw [if_neg h, ih]
      exact ⟨fun absent => ⟨fun e => h e.symm, absent⟩, fun absent => absent.2⟩

/-- A change that leaves the value under a key leaves all fields. -/
theorem alter_of_get? {key : String} {value : α} {f : Option α → α} {fields : List (String × α)}
    (h : get? key fields = some value) (same : f (some value) = value) :
    alter key f fields = fields := by
  induction fields with
  | nil => cases h
  | cons field rest ih =>
    obtain ⟨k, v⟩ := field
    by_cases hk : k = key
    · rw [get?, if_pos hk, Option.some.injEq] at h
      rw [alter, if_pos hk, h, same]
    · rw [get?, if_neg hk] at h
      rw [alter, if_neg hk, ih h]

theorem alter_of_notMem {key : String} {f : Option α → α} {fields : List (String × α)}
    (absent : key ∉ keys fields) : alter key f fields = fields ++ [(key, f none)] := by
  induction fields with
  | nil => rfl
  | cons field rest ih =>
    obtain ⟨k, v⟩ := field
    rw [keys_cons, List.mem_cons, not_or] at absent
    have apart : ¬ k = key := fun e => absent.1 e.symm
    rw [alter, if_neg apart, ih absent.2, List.cons_append]

theorem keys_alter (key : String) (f : Option α → α) (fields : List (String × α)) :
    keys (alter key f fields) =
      if key ∈ keys fields then keys fields else keys fields ++ [key] := by
  induction fields with
  | nil => simp [alter, keys]
  | cons field rest ih =>
    obtain ⟨k, v⟩ := field
    by_cases hk : k = key
    · simp [alter, keys, hk]
    · simp only [keys, alter, hk, if_false, List.map_cons, List.mem_cons] at ih ⊢
      rw [ih]
      have : ¬ key = k := fun e => hk e.symm
      by_cases hm : key ∈ List.map Prod.fst rest <;> simp [this, hm]

theorem nodup_keys_alter {fields : List (String × α)} (h : (keys fields).Nodup) (key : String)
    (f : Option α → α) : (keys (alter key f fields)).Nodup := by
  rw [keys_alter]
  split
  · exact h
  · rename_i absent
    refine List.nodup_append.2 ⟨h, List.pairwise_singleton _ key, ?_⟩
    intro k member other same
    rw [List.mem_singleton.1 same]
    exact fun e => absent (e ▸ member)

theorem mem_of_get? {key : String} {value : α} {fields : List (String × α)}
    (h : get? key fields = some value) : (key, value) ∈ fields := by
  induction fields with
  | nil => cases h
  | cons field rest ih =>
    obtain ⟨k, v⟩ := field
    by_cases hk : k = key
    · rw [get?, if_pos hk, Option.some.injEq] at h
      rw [hk, h]
      exact List.mem_cons_self
    · rw [get?, if_neg hk] at h
      exact .tail _ (ih h)

/-- With one entry for each key, every entry is found. -/
theorem get?_of_mem {key : String} {value : α} {fields : List (String × α)}
    (unique : (keys fields).Nodup) (member : (key, value) ∈ fields) :
    get? key fields = some value := by
  induction fields with
  | nil => cases member
  | cons field rest ih =>
    obtain ⟨k, v⟩ := field
    obtain ⟨absent, others⟩ := List.nodup_cons.1 unique
    rcases List.mem_cons.1 member with same | behind
    · cases same
      rw [get?, if_pos rfl]
    · have apart : ¬ k = key := fun same => absent (List.mem_map.2 ⟨_, behind, same.symm⟩)
      rw [get?, if_neg apart, ih others behind]

theorem mem_of_mem_insert {key : String} {value : α} {fields : List (String × α)}
    {field : String × α} (h : field ∈ insert key value fields) :
    field = (key, value) ∨ field ∈ fields := by
  induction fields with
  | nil => exact .inl (List.mem_singleton.1 h)
  | cons first rest ih =>
    obtain ⟨k, v⟩ := first
    rw [insert, alter] at h
    split at h
    · rename_i same
      rcases List.mem_cons.1 h with here | later
      · exact .inl (same ▸ here)
      · exact .inr (.tail _ later)
    · rcases List.mem_cons.1 h with here | later
      · exact .inr (here ▸ List.mem_cons_self)
      · exact (ih later).imp_right (.tail _)

theorem erase_cons (key k : String) (v : α) (rest : List (String × α)) :
    erase key ((k, v) :: rest) = if k = key then erase key rest else (k, v) :: erase key rest := by
  by_cases h : k = key <;> simp [erase, h]

theorem get?_erase (key other : String) (fields : List (String × α)) :
    get? other (erase key fields) = if other = key then none else get? other fields := by
  induction fields with
  | nil => simp [erase, get?]
  | cons field rest ih =>
    obtain ⟨k, v⟩ := field
    rw [erase_cons]
    by_cases hk : k = key
    · rw [if_pos hk, ih]
      by_cases h : other = key
      · rw [if_pos h, if_pos h]
      · have apart : ¬ k = other := fun e => h (e.symm.trans hk)
        rw [if_neg h, if_neg h, get?, if_neg apart]
    · rw [if_neg hk, get?, get?, ih]
      by_cases h : k = other
      · have apart : ¬ other = key := fun e => hk (h.trans e)
        rw [if_pos h, if_pos h, if_neg apart]
      · rw [if_neg h, if_neg h]

theorem keys_erase (key : String) (fields : List (String × α)) :
    keys (erase key fields) = (keys fields).filter (· ≠ key) := by
  rw [keys, erase, keys, List.filter_map]
  rfl

end Stencil.Fields
